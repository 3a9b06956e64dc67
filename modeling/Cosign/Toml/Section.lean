-- SUMMARY: TOML documents as sequences of sections: keys, values, assignments and headers.
import Cosign.Toml.Number
import Cosign.Toml.Text

/-!
# Sections

A document is a sequence of sections, each a header and the assignments under
it; the first section has none. Keys are sequences of names with dots in
between. Arrays may extend over several lines, inline tables may not. Keys,
arrays and inline tables may be nested up to a fixed depth.
-/

namespace Cosign.Toml

/-- The depth at which keys, arrays and inline tables are refused. -/
def depthLimit : Nat := 80

/-! ## Keys -/

def isBare (c : Char) : Bool := c.isAlphanum || c == '-' || c == '_'

/-- A name of letters, digits, dashes and underscores, or a string on one line. -/
def name? (text : List Char) : Option (String × List Char) :=
  match lineString? text with
  | some (chars, rest) => some (String.ofList chars, rest)
  | none =>
    match text.takeWhile isBare with
    | [] => none
    | chars => some (String.ofList chars, text.dropWhile isBare)

/-- Names with dots in between, and the blanks around them; at most `count` of them. -/
def names? : (count : Nat) → List Char → Option (List String × List Char)
  | 0, _ => none
  | count + 1, text => do
    let (name, rest) ← name? (skipBlanks text)
    match skipBlanks rest with
    | '.' :: rest =>
      let (names, rest) ← names? count rest
      return (name :: names, rest)
    | rest => return ([name], rest)

/-- A key that is not too deep: the path to its last name, that name, and the text after it. -/
def key? (text : List Char) : Option (List String × String × List Char) := do
  let (names, rest) ← names? (depthLimit - 1) text
  return (names.dropLast, ← names.getLast?, rest)

/-! ## Values -/

/-- A name for a truth value. -/
def boolean? : List Char → Option (Value × List Char)
  | 't' :: 'r' :: 'u' :: 'e' :: rest => some (.boolean true, rest)
  | 'f' :: 'a' :: 'l' :: 's' :: 'e' :: rest => some (.boolean false, rest)
  | _ => none

/-- A string, a truth value, a number, a date or a time. -/
def scalar? (text : List Char) : Option (Value × List Char) :=
  ((anyString? text).map fun (chars, rest) => (Value.string (String.ofList chars), rest)).or
    ((boolean? text).or (numeral? text))

mutual

/-- A value inside `depth` arrays and inline tables. -/
def value? : (steps depth : Nat) → List Char → Option (Value × List Char)
  | 0, _, _ => none
  | steps + 1, depth, '[' :: rest =>
    if depth + 1 < depthLimit then items? steps (depth + 1) [] rest else none
  | steps + 1, depth, '\x7b' :: rest =>
    if depth + 1 < depthLimit then
      match skipBlanks rest with
      | '\x7d' :: rest => some (.inline [], rest)
      | rest => entries? steps (depth + 1) [] rest
    else none
  | _ + 1, _, text => scalar? text

/-- The items up to the closing bracket, after those met in reverse.

A comma may follow the last one. -/
def items? : (steps depth : Nat) → (met : List Value) → List Char →
    Option (Value × List Char)
  | 0, _, _, _ => none
  | steps + 1, depth, met, text =>
    match skipLines false text with
    | ']' :: rest => some (.array met.reverse, rest)
    | text =>
      match value? steps depth text with
      | none => none
      | some (item, rest) =>
        match skipLines false rest with
        | ',' :: rest => items? steps depth (item :: met) rest
        | ']' :: rest => some (.array (item :: met).reverse, rest)
        | _ => none

/-- The entries up to the closing brace, after those already filled in. -/
def entries? : (steps depth : Nat) → Table → List Char → Option (Value × List Char)
  | 0, _, _, _ => none
  | steps + 1, depth, filled, text =>
    match key? text with
    | some (path, name, '=' :: rest) =>
      match value? steps depth (skipBlanks rest) with
      | none => none
      | some (value, rest) =>
        match filled.assign? path name value, skipBlanks rest with
        | some filled, ',' :: rest => entries? steps depth filled rest
        | some filled, '\x7d' :: rest => some (.inline filled, rest)
        | _, _ => none
    | _ => none

end

/-! ## Sections -/

structure Assignment where
  path : List String
  name : String
  value : Value

/-- What the assignments of a section go to. -/
inductive Header where
  /-- The document itself. -/
  | document
  /-- The table `name` in the table at `path`. -/
  | table (path : List String) (name : String)
  /-- A new element of the sequence of tables `name` in the table at `path`. -/
  | element (path : List String) (name : String)

structure Section where
  header : Header
  assignments : List Assignment

/-- A line with a header. The first bracket has been read. -/
def header? : List Char → Option (Header × List Char)
  | '[' :: rest => do
    let (path, name, rest) ← key? rest
    match rest with
    | ']' :: ']' :: rest => return (.element path name, ← finishLine? rest)
    | _ => none
  | rest => do
    let (path, name, rest) ← key? rest
    match rest with
    | ']' :: rest => return (.table path name, ← finishLine? rest)
    | _ => none

/-- A line with an assignment; `steps` bounds the length of the text. -/
def assignment? (steps : Nat) (text : List Char) : Option (Assignment × List Char) := do
  match ← key? text with
  | (path, name, '=' :: rest) =>
    let (value, rest) ← value? (2 * steps + 1) 0 (skipBlanks rest)
    return (⟨path, name, value⟩, ← finishLine? rest)
  | _ => none

/-- The sections of a text, after those met in reverse.

The last one is still open; its assignments are in reverse, too. -/
def sectionsFrom (met : List Section) (header : Header) (assignments : List Assignment) :
    (steps : Nat) → List Char → Option (List Section)
  | 0, _ => none
  | steps + 1, text =>
    match skipLines false text with
    | [] => some (⟨header, assignments.reverse⟩ :: met).reverse
    | '[' :: rest =>
      match header? rest with
      | some (following, rest) =>
        sectionsFrom (⟨header, assignments.reverse⟩ :: met) following [] steps rest
      | none => none
    | text =>
      match assignment? steps text with
      | some (assignment, rest) => sectionsFrom met header (assignment :: assignments) steps rest
      | none => none

/-- The sections of a text, which may start with a byte order mark. -/
def sections? (text : List Char) : Option (List Section) :=
  let text :=
    match text with
    | '\ufeff' :: rest => rest
    | text => text
  sectionsFrom [] .document [] (text.length + 1) text

end Cosign.Toml
