-- SUMMARY: The characters of TOML text: blanks, comments, line ends and the four kinds of strings.
import Cosign.Text.Hex

/-!
# TOML text

Every reader here takes the text that is left and gives back what it read and
the text after it. Strings come between double or single quotes, on one line or,
between three quotes, on several; escapes are known between double quotes only.
In a string on several lines a line ends with a line feed however it was
written, the line end right after the opening quotes is dropped, and one or two
quotes may stand in front of the closing ones.
-/

namespace Cosign.Toml

/-! ## Blanks, comments and line ends -/

def isBlank (c : Char) : Bool := c == ' ' || c == '\t'

/-- A character that may stand in comments and, quotes and backslashes apart, in strings. -/
def isPlain (c : Char) : Bool := c == '\t' || (32 ≤ c.toNat && c.toNat != 127)

def skipBlanks (text : List Char) : List Char := text.dropWhile isBlank

/-- The text after a comment, if there is one. -/
def skipComment : List Char → List Char
  | '#' :: rest => rest.dropWhile isPlain
  | text => text

/-- The text after a line end. -/
def lineEnd? : List Char → Option (List Char)
  | '\n' :: rest => some rest
  | '\r' :: '\n' :: rest => some rest
  | _ => none

/-- The text after blanks, a comment and the end of the line or of the text. -/
def finishLine? (text : List Char) : Option (List Char) :=
  match skipComment (skipBlanks text) with
  | [] => some []
  | rest => lineEnd? rest

/-- The text after any blanks, line ends and comments, perhaps from within a comment. -/
def skipLines (inComment : Bool) : List Char → List Char
  | '\n' :: rest => skipLines false rest
  | '\r' :: '\n' :: rest => skipLines false rest
  | c :: rest =>
    if inComment then
      if isPlain c then skipLines true rest else c :: rest
    else if isBlank c then skipLines false rest
    else if c = '#' then skipLines true rest
    else c :: rest
  | [] => []

/-! ## Escapes -/

/-- The character of a code, unless the code is half of a surrogate pair or out of range. -/
def charOfCode? (code : Nat) : Option Char :=
  if h : code.isValidChar then some (Char.ofNatAux code h) else none

/-- The character that a one-letter escape names. -/
def shortEscape? : Char → Option Char
  | 'b' => some '\x08'
  | 't' => some '\t'
  | 'n' => some '\n'
  | 'f' => some '\x0c'
  | 'r' => some '\r'
  | '"' => some '"'
  | '\\' => some '\\'
  | _ => none

/-- The character whose code is spelled by hexadecimal digits. -/
def codeEscape? (digits : List Char) : Option Char := (Hex.number? digits).bind charOfCode?

/-! ## Strings on one line -/

/-- The characters up to a closing double quote, after those met in reverse. -/
def basicString (met : List Char) : List Char → Option (List Char × List Char)
  | '"' :: rest => some (met.reverse, rest)
  | '\\' :: 'u' :: a :: b :: c :: d :: rest =>
    match codeEscape? [a, b, c, d] with
    | some named => basicString (named :: met) rest
    | none => none
  | '\\' :: 'U' :: a :: b :: c :: d :: e :: f :: g :: h :: rest =>
    match codeEscape? [a, b, c, d, e, f, g, h] with
    | some named => basicString (named :: met) rest
    | none => none
  | '\\' :: c :: rest =>
    match shortEscape? c with
    | some named => basicString (named :: met) rest
    | none => none
  | c :: rest => if c != '\\' && isPlain c then basicString (c :: met) rest else none
  | [] => none

/-- The characters up to a closing single quote. -/
def literalString (text : List Char) : Option (List Char × List Char) :=
  match text.dropWhile fun c => isPlain c && c != '\'' with
  | '\'' :: rest => some (text.takeWhile fun c => isPlain c && c != '\'', rest)
  | _ => none

/-- A string on one line. -/
def lineString? : List Char → Option (List Char × List Char)
  | '"' :: rest => basicString [] rest
  | '\'' :: rest => literalString rest
  | _ => none

/-! ## Strings on several lines -/

/-- The quotes at the end of a string on several lines that three quotes have just closed. -/
def trailingQuotes (quote : Char) : List Char → List Char × List Char
  | a :: b :: rest =>
    if a = quote ∧ b = quote then ([quote, quote], rest)
    else if a = quote then ([quote], b :: rest)
    else ([], a :: b :: rest)
  | [a] => if a = quote then ([quote], []) else ([], [a])
  | [] => ([], [])

/-- The characters up to three closing single quotes, after those met in reverse. -/
def longLiteral (met : List Char) : List Char → Option (List Char × List Char)
  | '\'' :: '\'' :: '\'' :: rest =>
    let (quotes, rest) := trailingQuotes '\'' rest
    some (met.reverse ++ quotes, rest)
  | '\r' :: '\n' :: rest => longLiteral ('\n' :: met) rest
  | c :: rest => if c == '\n' || isPlain c then longLiteral (c :: met) rest else none
  | [] => none

/-- Where the reader of a string with hidden line ends stands. -/
inductive Place where
  /-- In the text of the string. -/
  | text
  /-- After a backslash and blanks, before the line end they hide. -/
  | hiding
  /-- After a hidden line end, in the space that is hidden with it. -/
  | hidden

/-- The characters up to three closing double quotes, after those met in reverse.

A backslash at the end of a line hides the line end and all space after it. -/
def longBasic : Place → (met : List Char) → List Char → Option (List Char × List Char)
  | .hiding, met, '\n' :: rest => longBasic .hidden met rest
  | .hiding, met, '\r' :: '\n' :: rest => longBasic .hidden met rest
  | .hiding, met, c :: rest => if isBlank c then longBasic .hiding met rest else none
  | .hidden, met, '\n' :: rest => longBasic .hidden met rest
  | .hidden, met, '\r' :: '\n' :: rest => longBasic .hidden met rest
  | .hidden, met, ' ' :: rest => longBasic .hidden met rest
  | .hidden, met, '\t' :: rest => longBasic .hidden met rest
  | _, met, '"' :: '"' :: '"' :: rest =>
    let (quotes, rest) := trailingQuotes '"' rest
    some (met.reverse ++ quotes, rest)
  | _, met, '\r' :: '\n' :: rest => longBasic .text ('\n' :: met) rest
  | _, met, '\\' :: '\n' :: rest => longBasic .hidden met rest
  | _, met, '\\' :: '\r' :: '\n' :: rest => longBasic .hidden met rest
  | _, met, '\\' :: 'u' :: a :: b :: c :: d :: rest =>
    match codeEscape? [a, b, c, d] with
    | some named => longBasic .text (named :: met) rest
    | none => none
  | _, met, '\\' :: 'U' :: a :: b :: c :: d :: e :: f :: g :: h :: rest =>
    match codeEscape? [a, b, c, d, e, f, g, h] with
    | some named => longBasic .text (named :: met) rest
    | none => none
  | _, met, '\\' :: c :: rest =>
    if isBlank c then longBasic .hiding met rest
    else
      match shortEscape? c with
      | some named => longBasic .text (named :: met) rest
      | none => none
  | _, met, c :: rest =>
    if c == '\n' || (c != '\\' && isPlain c) then longBasic .text (c :: met) rest else none
  | _, _, [] => none

/-- Any string. -/
def anyString? (text : List Char) : Option (List Char × List Char) :=
  match text with
  | '"' :: '"' :: '"' :: rest => longBasic .text [] ((lineEnd? rest).getD rest)
  | '\'' :: '\'' :: '\'' :: rest => longLiteral [] ((lineEnd? rest).getD rest)
  | text => lineString? text

end Cosign.Toml
