-- SUMMARY: Numbers, dates and times in TOML text.
import Cosign.Text.Hex
import Cosign.Toml.Value

/-!
# Numbers, dates and times

Digits may be grouped by single underscores. Integers are signed 64-bit words in
base ten, or in base sixteen, eight or two without a sign. A floating-point
number must not exceed the largest double; its value is not kept. Dates and
times are checked against the calendar and the clock, and not kept either.
-/

namespace Cosign.Toml

/-! ## Digits -/

/-- More digits of a number, after those met in reverse.

An underscore has a digit on either side. -/
def moreDigits (isDigit : Char → Bool) (met : List Char) :
    List Char → Option (List Char × List Char)
  | '_' :: c :: rest => if isDigit c then moreDigits isDigit (c :: met) rest else none
  | c :: rest =>
    if isDigit c then moreDigits isDigit (c :: met) rest
    else if c = '_' then none
    else some (met.reverse, c :: rest)
  | [] => some (met.reverse, [])

/-- At least one digit, without the underscores in between. -/
def digits? (isDigit : Char → Bool) : List Char → Option (List Char × List Char)
  | c :: rest => if isDigit c then moreDigits isDigit [c] rest else none
  | [] => none

/-- Decimal digits that do not start with a zero, or just a zero. -/
def wholeDigits? (text : List Char) : Option (List Char × List Char) :=
  match digits? Char.isDigit text with
  | some ('0' :: _ :: _, _) => none
  | found => found

/-- The value of digits in a base. -/
def valueIn (base : Nat) (digits : List Char) : Nat :=
  digits.foldl (fun value c => value * base + (Hex.value? c).getD 0) 0

/-- Whether the number is negative, and the text after its sign. -/
def splitSign : List Char → Bool × List Char
  | '+' :: rest => (false, rest)
  | '-' :: rest => (true, rest)
  | text => (false, text)

/-- An integer, if it fits into a signed 64-bit word. -/
def signedWord? (value : Int) : Option Value :=
  if -9223372036854775808 ≤ value ∧ value ≤ 9223372036854775807 then some (.integer value)
  else none

/-- An integer in one of the bases that are marked by a letter. -/
def basedInteger? (base : Nat) (isDigit : Char → Bool) (text : List Char) :
    Option (Value × List Char) := do
  let (digits, rest) ← digits? isDigit text
  return (← signedWord? (valueIn base digits), rest)

/-! ## Floating-point numbers -/

/-- The least integer that rounds past the largest double. -/
def leastOverflow : Nat := (Nat.pow 2 54 - 1) * Nat.pow 2 970

/-- Whether a number rounds past the largest double. -/
def overflows (mantissa : Nat) (exponent : Int) : Bool :=
  let magnitude := (Nat.toDigits 10 mantissa).length + exponent
  if mantissa = 0 ∨ magnitude < 300 then false
  else if 320 < magnitude then true
  else if 0 ≤ exponent then leastOverflow ≤ mantissa * Nat.pow 10 exponent.toNat
  else leastOverflow * Nat.pow 10 (-exponent).toNat ≤ mantissa

/-- The digits of a fraction, if a point follows. -/
def fraction? (text : List Char) : Option (List Char × List Char) :=
  match text with
  | '.' :: rest => digits? Char.isDigit rest
  | _ => some ([], text)

/-- The value of an exponent, if its letter follows. -/
def exponent? (text : List Char) : Option (Option Int × List Char) :=
  match text with
  | c :: rest =>
    if c = 'e' ∨ c = 'E' then do
      let (negative, rest) := splitSign rest
      let (digits, rest) ← digits? Char.isDigit rest
      let value : Int := valueIn 10 digits
      return (some (if negative then -value else value), rest)
    else some (none, text)
  | [] => some (none, [])

/-- A decimal number: an integer, unless a fraction or an exponent follows. -/
def decimal? (negative : Bool) (text : List Char) : Option (Value × List Char) := do
  let (whole, rest) ← wholeDigits? text
  let (fraction, rest) ← fraction? rest
  let (exponent, rest) ← exponent? rest
  if fraction.isEmpty && exponent.isNone then
    let value : Int := valueIn 10 whole
    return (← signedWord? (if negative then -value else value), rest)
  else if !negative &&
      overflows (valueIn 10 (whole ++ fraction)) (exponent.getD 0 - fraction.length) then
    none
  else
    return (.float, rest)

/-- A number of any form. -/
def number? (text : List Char) : Option (Value × List Char) :=
  match text with
  | '0' :: 'x' :: rest => basedInteger? 16 (fun c => (Hex.value? c).isSome) rest
  | '0' :: 'o' :: rest => basedInteger? 8 (fun c => '0' ≤ c && c ≤ '7') rest
  | '0' :: 'b' :: rest => basedInteger? 2 (fun c => c == '0' || c == '1') rest
  | text =>
    match splitSign text with
    | (_, 'i' :: 'n' :: 'f' :: rest) => some (.float, rest)
    | (_, 'n' :: 'a' :: 'n' :: rest) => some (.float, rest)
    | (negative, rest) => decimal? negative rest

/-! ## Dates and times -/

/-- A number of exactly `count` digits within bounds. -/
def fixed? (count least most : Nat) (text : List Char) : Option (Nat × List Char) :=
  let digits := text.take count
  let value := valueIn 10 digits
  if digits.length = count ∧ digits.all Char.isDigit ∧ least ≤ value ∧ value ≤ most then
    some (value, text.drop count)
  else none

/-- The text after one given character. -/
def after? (c : Char) : List Char → Option (List Char)
  | d :: rest => if c = d then some rest else none
  | [] => none

def daysInMonth (year month : Nat) : Nat :=
  if month = 2 then
    if year % 4 = 0 ∧ (year % 100 ≠ 0 ∨ year % 400 = 0) then 29 else 28
  else if month = 4 ∨ month = 6 ∨ month = 9 ∨ month = 11 then 30
  else 31

/-- The text after a date. -/
def date? (text : List Char) : Option (List Char) := do
  let (year, rest) ← fixed? 4 0 9999 text
  let (month, rest) ← fixed? 2 1 12 (← after? '-' rest)
  let (_, rest) ← fixed? 2 1 (daysInMonth year month) (← after? '-' rest)
  return rest

/-- The text after a time of day; a minute may have a leap second. -/
def time? (text : List Char) : Option (List Char) := do
  let (_, rest) ← fixed? 2 0 23 text
  let (_, rest) ← fixed? 2 0 59 (← after? ':' rest)
  let (_, rest) ← fixed? 2 0 60 (← after? ':' rest)
  match rest with
  | '.' :: c :: more => if c.isDigit then some (more.dropWhile Char.isDigit) else none
  | rest => some rest

/-- The text after an offset from universal time, if there is one. -/
def skipOffset? (text : List Char) : Option (List Char) :=
  match text with
  | 'Z' :: rest => some rest
  | 'z' :: rest => some rest
  | c :: rest =>
    if c = '+' ∨ c = '-' then do
      let (_, rest) ← fixed? 2 0 23 rest
      let (_, rest) ← fixed? 2 0 59 (← after? ':' rest)
      return rest
    else some text
  | [] => some []

/-- The text after a date, with a time and an offset if a time follows. -/
def dateTime? (text : List Char) : Option (List Char) := do
  let rest ← date? text
  match rest with
  | c :: more =>
    if c = 'T' ∨ c = 't' ∨ c = ' ' then
      match time? more with
      | some after => skipOffset? after
      | none => some rest
    else some rest
  | [] => some []

/-- A date, a time or both start with four or two digits and a mark. -/
def looksLikeMoment (text : List Char) : Bool :=
  match text with
  | a :: b :: ':' :: _ => a.isDigit && b.isDigit
  | a :: b :: c :: d :: '-' :: _ => a.isDigit && b.isDigit && c.isDigit && d.isDigit
  | _ => false

/-- A date, a time, or both. -/
def moment? (text : List Char) : Option (Value × List Char) :=
  ((dateTime? text).or (time? text)).map fun rest => (.dateTime, rest)

/-- A number, a date or a time. -/
def numeral? (text : List Char) : Option (Value × List Char) :=
  if looksLikeMoment text then moment? text else number? text

end Cosign.Toml
