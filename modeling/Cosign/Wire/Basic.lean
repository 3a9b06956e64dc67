-- SUMMARY: Exchanging values as JSON: reading and writing scalars, lists, enumerations and records.
import Cosign.Identifier
import Cosign.Json.Basic

/-!
# Exchange of values

A type with a `Wire` instance can be written as JSON and read back. Reading is
strict about types and ranges. A record is written as an object with its fields
in order of declaration; it is read from such an object in any order, where
fields of other names are ignored and none of its own may be repeated, or from
the array of its values.
-/

namespace Cosign

class Wire (α : Type) where
  encode : α → Json
  decode : Json → Option α

namespace Wire

variable {α : Type} [Wire α]

/-- The text of a value. -/
def write (value : α) : String := (encode value).render

/-- The value that a text describes. -/
def read (α : Type) [Wire α] (text : String) : Option α := (Json.parse text).bind decode

/-! ## Scalars -/

/-- A natural number up to a bound. -/
def naturalUpTo (bound : Nat) (json : Json) : Option Nat :=
  json.natural?.filter (· ≤ bound)

instance : Wire Bool := ⟨.bool, Json.bool?⟩

instance : Wire UInt8 where
  encode value := .ofNat value.toNat
  decode json := (naturalUpTo 255 json).map UInt8.ofNat

instance : Wire UInt16 where
  encode value := .ofNat value.toNat
  decode json := (naturalUpTo 65535 json).map UInt16.ofNat

instance : Wire UInt32 where
  encode value := .ofNat value.toNat
  decode json := (naturalUpTo 4294967295 json).map UInt32.ofNat

instance : Wire UInt64 where
  encode value := .ofNat value.toNat
  decode json := (naturalUpTo 18446744073709551615 json).map UInt64.ofNat

/-- An account is written as its text. -/
instance : Wire AccountId where
  encode id := .ofString id.text
  decode json := do (AccountId.parse (← json.string?)).toOption

/-! ## Lists and optional values -/

instance : Wire (List α) where
  encode values := .array (values.map encode)
  decode json := do (← json.array?).mapM decode

/-- A missing value is written as null. -/
instance : Wire (Option α) where
  encode
    | some value => encode value
    | none => .null
  decode
    | .null => some none
    | json => (decode json).map some

/-- A key is written as the array of its bytes. -/
instance : Wire Key where
  encode key := encode key.bytes
  decode json := do Octets.ofBytes? 32 (← decode json)

/-! ## Enumerations -/

/-- The single member of an object. -/
def tagged? : Json → Option (String × Json)
  | .object [(some tag, content)] => some (tag, content)
  | _ => none

/-- The alternative that is named, alone or as an object of that name without content. -/
def alternative? (name : α → String) (alternatives : List α) (json : Json) : Option α := do
  let wanted ←
    match json with
    | .string text => text
    | json =>
      match tagged? json with
      | some (tag, .null) => some tag
      | _ => none
  alternatives.find? (name · == wanted)

/-! ## Records -/

/-- A field of a record. The array of a record's values may end before a field that is omissible. -/
structure Field where
  name : String
  isOmissible : Bool

def Field.needed (name : String) : Field := ⟨name, false⟩

def Field.omissible (name : String) : Field := ⟨name, true⟩

/-- The value of a field among the members of an object, which must not name it twice. -/
def fieldOfMembers (members : List (Json.Literal × Json)) (field : Field) :
    Option (Option Json) :=
  match members.filter (·.1 == some field.name) with
  | [] => some none
  | [(_, value)] => some (some value)
  | _ => none

/-- The values of fields from the items of an array, which has none to spare. -/
def fieldsOfItems : List Field → List Json → Option (List (Option Json))
  | [], [] => some []
  | [], _ :: _ => none
  | field :: fields, [] =>
    if field.isOmissible then (none :: ·) <$> fieldsOfItems fields [] else none
  | _ :: fields, item :: items => (some item :: ·) <$> fieldsOfItems fields items

/-- The values of a record's fields in order of declaration, with none for a field left out. -/
def fieldValues (fields : List Field) : Json → Option (List (Option Json))
  | .object members =>
    if members.all (·.1.isSome) then fields.mapM (fieldOfMembers members) else none
  | .array items => fieldsOfItems fields items
  | _ => none

/-- The value of a field that has to be there. -/
def required (value : Option Json) : Option α := value.bind decode

/-- The value of a field that may be left out. -/
def optional (value : Option Json) (default : α) : Option α :=
  match value with
  | some json => decode json
  | none => some default

end Wire

end Cosign
