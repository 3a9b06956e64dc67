-- SUMMARY: JSON values, their compact text, and reading a value from a text.
import Cosign.Json.Token

/-!
# JSON values

Values are trees; an object keeps its members in the order they are written,
repeated names included. `render` writes a value without blanks and `parse`
reads one value that fills the whole text.
-/

namespace Cosign

inductive Json where
  | null
  | bool (value : Bool)
  | number (value : Json.Number)
  | string (value : Json.Literal)
  | array (items : List Json)
  | object (members : List (Json.Literal × Json))

namespace Json

/-! ## Construction -/

def ofNat (value : Nat) : Json := number (.integer value)

def ofInt (value : Int) : Json := number (.integer value)

def ofString (value : String) : Json := string (some value)

/-- An object whose members have ordinary names. -/
def record (members : List (String × Json)) : Json :=
  object (members.map fun (name, value) => (some name, value))

/-! ## Writing -/

/-- Token sequences with commas in between. -/
def separated : List (List Token) → List Token
  | [] => []
  | [item] => item
  | item :: rest => item ++ .comma :: separated rest

mutual

/-- The tokens of a value. -/
def tokens : Json → List Token
  | null => [.null]
  | bool value => [.bool value]
  | number value => [.number value]
  | string value => [.string value]
  | array items => .openArray :: separated (itemTokens items) ++ [.closeArray]
  | object members => .openObject :: separated (memberTokens members) ++ [.closeObject]

def itemTokens : List Json → List (List Token)
  | [] => []
  | item :: rest => tokens item :: itemTokens rest

def memberTokens : List (Literal × Json) → List (List Token)
  | [] => []
  | (name, value) :: rest => (.string name :: .colon :: tokens value) :: memberTokens rest

end

/-- The text of a value, without blanks. -/
def render (value : Json) : String := String.ofList (value.tokens.flatMap Token.text)

/-! ## Reading -/

/-- An array or object that is open and waits for a value, with what it holds so far in reverse. -/
inductive Pending where
  | array (met : List Json)
  | object (met : List (Literal × Json)) (name : Literal)

mutual

/-- The value of tokens that begin with a value, inside pending arrays and objects. -/
def readValue : List Pending → List Token → Option Json
  | around, .null :: rest => readRest around null rest
  | around, .bool value :: rest => readRest around (bool value) rest
  | around, .number value :: rest => readRest around (number value) rest
  | around, .string value :: rest => readRest around (string value) rest
  | around, .openArray :: .closeArray :: rest => readRest around (array []) rest
  | around, .openArray :: rest => readValue (.array [] :: around) rest
  | around, .openObject :: .closeObject :: rest => readRest around (object []) rest
  | around, .openObject :: .string name :: .colon :: rest =>
    readValue (.object [] name :: around) rest
  | _, _ => none

/-- The value of tokens that go on after a complete value. -/
def readRest : List Pending → Json → List Token → Option Json
  | [], value, [] => some value
  | .array met :: around, value, .comma :: rest => readValue (.array (value :: met) :: around) rest
  | .array met :: around, value, .closeArray :: rest =>
    readRest around (array (value :: met).reverse) rest
  | .object met name :: around, value, .comma :: .string next :: .colon :: rest =>
    readValue (.object ((name, value) :: met) next :: around) rest
  | .object met name :: around, value, .closeObject :: rest =>
    readRest around (object ((name, value) :: met).reverse) rest
  | _, _, _ => none

end

/-- The value that tokens make up. -/
def ofTokens? (tokens : List Token) : Option Json := readValue [] tokens

/-- The value that fills a text. -/
def parse (text : String) : Option Json := (Token.scan text.toList).bind ofTokens?

/-! ## Access -/

def integer? : Json → Option Int
  | number (.integer value) => some value
  | _ => none

def natural? : Json → Option Nat
  | number (.integer (.ofNat value)) => some value
  | _ => none

def bool? : Json → Option Bool
  | bool value => some value
  | _ => none

def string? : Json → Option String
  | string value => value
  | _ => none

def array? : Json → Option (List Json)
  | array items => some items
  | _ => none

/-- The value of the first member of that name. -/
def member? (name : String) : Json → Option Json
  | object members => members.lookup (some name)
  | _ => none

end Json

end Cosign
