-- SUMMARY: The tokens of JSON text, their written form, and cutting a text into them.
import Cosign.Text.Hex

/-!
# JSON tokens

JSON text is a sequence of brackets, separators, names, numbers and strings with
blanks in between. `Token.text` writes a token in its one compact form and
`Token.scan` cuts a text into tokens.

A number is an integer only if it is written as one: without fraction, without
exponent, and not as minus zero. Every other number is kept as written.

A string may contain escapes that name one half of a surrogate pair without the
other. Such a literal is well formed but stands for no text.
-/

namespace Cosign.Json

/-! ## Tokens -/

inductive Number where
  | integer (value : Int)
  /-- Any number that is not written as an integer. -/
  | other (written : String)
deriving DecidableEq

/-- A string literal; none if it stands for no text. -/
abbrev Literal := Option String

inductive Token where
  | openArray
  | closeArray
  | openObject
  | closeObject
  | comma
  | colon
  | null
  | bool (value : Bool)
  | number (value : Number)
  | string (value : Literal)
deriving DecidableEq

/-! ## Writing -/

/-- A character as it stands in a string literal. -/
def escape (c : Char) : List Char :=
  match c with
  | '"' => ['\\', '"']
  | '\\' => ['\\', '\\']
  | '\x08' => ['\\', 'b']
  | '\x0c' => ['\\', 'f']
  | '\n' => ['\\', 'n']
  | '\r' => ['\\', 'r']
  | '\t' => ['\\', 't']
  | c =>
    if c.toNat < 32 then
      ['\\', 'u', '0', '0', Hex.lowerDigit (c.toNat / 16), Hex.lowerDigit (c.toNat % 16)]
    else [c]

def Literal.text : Literal → List Char
  | some value => '"' :: value.toList.flatMap escape ++ ['"']
  | none => ['"', '\\', 'u', 'd', '8', '0', '0', '"']

def Number.text : Number → List Char
  | integer (.ofNat value) => Nat.toDigits 10 value
  | integer (.negSucc value) => '-' :: Nat.toDigits 10 (value + 1)
  | other written => written.toList

def Token.text : Token → List Char
  | openArray => ['[']
  | closeArray => [']']
  | openObject => ['\x7b']
  | closeObject => ['\x7d']
  | comma => [',']
  | colon => [':']
  | null => ['n', 'u', 'l', 'l']
  | bool true => ['t', 'r', 'u', 'e']
  | bool false => ['f', 'a', 'l', 's', 'e']
  | number value => value.text
  | string value => value.text

/-! ## Reading strings -/

/-- What a character or an escape contributes to a string: a character, or half a surrogate pair. -/
inductive Piece where
  | char (c : Char)
  | high (offset : Nat)
  | low (offset : Nat)
deriving DecidableEq

namespace Piece

/-- The piece of a 16-bit code. -/
def ofCode (code : Nat) : Piece :=
  if 0xd800 ≤ code ∧ code ≤ 0xdbff then high (code - 0xd800)
  else if 0xdc00 ≤ code ∧ code ≤ 0xdfff then low (code - 0xdc00)
  else char (Char.ofNat code)

/-- The characters that pieces make up, if every half finds its other half. -/
def join : List Piece → Option (List Char)
  | [] => some []
  | char c :: rest => (c :: ·) <$> join rest
  | high h :: low l :: rest => (Char.ofNat (0x10000 + h * 0x400 + l) :: ·) <$> join rest
  | _ => none

end Piece

/-- The character that a one-letter escape names. -/
def shortEscape? (c : Char) : Option Char :=
  match c with
  | '"' => some '"'
  | '\\' => some '\\'
  | '/' => some '/'
  | 'b' => some '\x08'
  | 'f' => some '\x0c'
  | 'n' => some '\n'
  | 'r' => some '\r'
  | 't' => some '\t'
  | _ => none

/-- The pieces up to the closing quote, after those met in reverse, and the text after it. -/
def scanPieces (met : List Piece) : List Char → Option (List Piece × List Char)
  | [] => none
  | '"' :: rest => some (met.reverse, rest)
  | '\\' :: 'u' :: a :: b :: c :: d :: rest =>
    match Hex.number? [a, b, c, d] with
    | some code => scanPieces (.ofCode code :: met) rest
    | none => none
  | '\\' :: c :: rest =>
    match shortEscape? c with
    | some named => scanPieces (.char named :: met) rest
    | none => none
  | c :: rest =>
    if c.toNat < 32 ∨ c = '\\' then none else scanPieces (.char c :: met) rest

/-- The string literal whose opening quote has been read. -/
def scanLiteral (text : List Char) : Option (Literal × List Char) :=
  match scanPieces [] text with
  | some (pieces, rest) => some ((Piece.join pieces).map String.ofList, rest)
  | none => none

/-! ## Reading numbers -/

/-- At least one decimal digit, as many as there are. -/
def scanDigits (text : List Char) : Option (List Char × List Char) :=
  match text.takeWhile Char.isDigit with
  | [] => none
  | digits => some (digits, text.dropWhile Char.isDigit)

/-- The digits of a whole number: a zero stands alone. -/
def scanWhole (text : List Char) : Option (List Char × List Char) :=
  match scanDigits text with
  | some ('0' :: _ :: _, _) => none
  | found => found

/-- A fraction with its point, or nothing. -/
def scanFraction (text : List Char) : Option (List Char × List Char) :=
  match text with
  | '.' :: rest => (scanDigits rest).map fun (digits, rest) => ('.' :: digits, rest)
  | _ => some ([], text)

/-- An exponent with its letter and sign, or nothing. -/
def scanExponent (text : List Char) : Option (List Char × List Char) :=
  match text with
  | c :: rest =>
    if c = 'e' ∨ c = 'E' then
      let (sign, rest) : List Char × List Char :=
        match rest with
        | '+' :: rest => (['+'], rest)
        | '-' :: rest => (['-'], rest)
        | rest => ([], rest)
      (scanDigits rest).map fun (digits, rest) => (c :: sign ++ digits, rest)
    else some ([], text)
  | [] => some ([], [])

/-- The value of decimal digits. -/
def decimal (digits : List Char) : Nat :=
  digits.foldl (fun value c => value * 10 + (c.toNat - 48)) 0

/-- The number of a sign and digits, when nothing but digits follows the sign. -/
def Number.ofDigits (negative : Bool) (digits : List Char) : Number :=
  match negative, decimal digits with
  | false, value => integer value
  | true, 0 => other "-0"
  | true, value => integer (-value)

def scanNumber (text : List Char) : Option (Number × List Char) := do
  let (negative, text) : Bool × List Char :=
    match text with
    | '-' :: rest => (true, rest)
    | text => (false, text)
  let (whole, rest) ← scanWhole text
  let (fraction, rest) ← scanFraction rest
  let (exponent, rest) ← scanExponent rest
  if fraction.isEmpty && exponent.isEmpty then
    return (.ofDigits negative whole, rest)
  else
    let sign := if negative then ['-'] else []
    return (.other (String.ofList (sign ++ whole ++ fraction ++ exponent)), rest)

/-! ## Reading tokens -/

def isBlank (c : Char) : Bool := c == ' ' || c == '\t' || c == '\n' || c == '\r'

namespace Token

/-- The token at the head of a text without leading blanks, and the text after it. -/
def next? : List Char → Option (Token × List Char)
  | '[' :: rest => some (openArray, rest)
  | ']' :: rest => some (closeArray, rest)
  | '\x7b' :: rest => some (openObject, rest)
  | '\x7d' :: rest => some (closeObject, rest)
  | ',' :: rest => some (comma, rest)
  | ':' :: rest => some (colon, rest)
  | '"' :: rest => (scanLiteral rest).map fun (value, rest) => (string value, rest)
  | 'n' :: 'u' :: 'l' :: 'l' :: rest => some (null, rest)
  | 't' :: 'r' :: 'u' :: 'e' :: rest => some (bool true, rest)
  | 'f' :: 'a' :: 'l' :: 's' :: 'e' :: rest => some (bool false, rest)
  | text => (scanNumber text).map fun (value, rest) => (number value, rest)

/-- The tokens of a text, after those already met in reverse. Every step consumes a character. -/
def scanFrom (met : List Token) : (steps : Nat) → List Char → Option (List Token)
  | _, [] => some met.reverse
  | 0, _ => none
  | steps + 1, c :: rest =>
    if isBlank c then scanFrom met steps rest
    else
      match next? (c :: rest) with
      | some (token, rest) => scanFrom (token :: met) steps rest
      | none => none

/-- The tokens of a text. -/
def scan (text : List Char) : Option (List Token) := scanFrom [] text.length text

end Token

end Cosign.Json
