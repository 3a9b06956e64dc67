-- SUMMARY: Exchanged values are read back: scalars, lists, optional values, enumerations and records.
import Cosign.Proofs.Identifier
import Cosign.Proofs.Json.Value
import Cosign.Wire.Basic

/-!
# Values read back

A type is exchanged faithfully if decoding inverts encoding and the encoded values are
plain, so that their texts can be read at all. Such a type has `read` inverting `write`.
The scalars are faithful, and so are lists of faithful values. An optional value is
exchanged faithfully if nothing but its absence is written as null. Of a record
it is enough to know what each of its fields is read from (`fieldValues_record`).
-/

namespace Cosign

/-- Encoded values are plain and are decoded. -/
class LawfulWire (α : Type) [Wire α] : Prop where
  isPlain_encode (value : α) : (Wire.encode value).IsPlain
  decode_encode (value : α) : Wire.decode (Wire.encode value) = some value

/-- No value is encoded as null. -/
class DefiniteWire (α : Type) [Wire α] : Prop where
  encode_ne_null (value : α) : Wire.encode value ≠ .null

namespace Wire

export LawfulWire (isPlain_encode decode_encode)

attribute [simp] LawfulWire.isPlain_encode LawfulWire.decode_encode

variable {α : Type} [Wire α]

section Lawful

variable [LawfulWire α]

theorem read_write (value : α) : read α (write value) = some value := by
  unfold read write
  rw [Json.parse_render (isPlain_encode value)]
  exact decode_encode value

theorem write_injective : Function.Injective (write : α → String) := by
  intro a b h
  have hread := congrArg (read α) h
  rw [read_write, read_write] at hread
  exact Option.some.inj hread

end Lawful

/-! ## Scalars -/

theorem naturalUpTo_ofNat {bound value : Nat} (h : value ≤ bound) :
    naturalUpTo bound (.ofNat value) = some value := by
  have hvalue : (Json.ofNat value).natural? = some value := rfl
  simp [naturalUpTo, hvalue, Option.filter, h]

instance : LawfulWire Bool where
  isPlain_encode := Json.IsPlain.bool
  decode_encode _ := rfl

instance : LawfulWire UInt8 where
  isPlain_encode _ := .ofNat _
  decode_encode value := by
    have hvalue := value.toNat_lt
    simp [decode, encode, naturalUpTo_ofNat (Nat.le_of_lt_succ hvalue)]

instance : LawfulWire UInt16 where
  isPlain_encode _ := .ofNat _
  decode_encode value := by
    have hvalue := value.toNat_lt
    simp [decode, encode, naturalUpTo_ofNat (Nat.le_of_lt_succ hvalue)]

instance : LawfulWire UInt32 where
  isPlain_encode _ := .ofNat _
  decode_encode value := by
    have hvalue := value.toNat_lt
    simp [decode, encode, naturalUpTo_ofNat (Nat.le_of_lt_succ hvalue)]

instance : LawfulWire UInt64 where
  isPlain_encode _ := .ofNat _
  decode_encode value := by
    have hvalue := value.toNat_lt
    simp [decode, encode, naturalUpTo_ofNat (Nat.le_of_lt_succ hvalue)]

instance : LawfulWire AccountId where
  isPlain_encode _ := .ofString _
  decode_encode id := by
    have hid : (Json.ofString id.text).string? = some id.text := rfl
    simp [decode, encode, hid, AccountId.parse_text, Except.toOption]

instance : DefiniteWire UInt16 := ⟨fun _ => nofun⟩

instance : DefiniteWire AccountId := ⟨fun _ => nofun⟩

/-! ## Lists and optional values -/

theorem mapM_decode_encode [LawfulWire α] (values : List α) :
    (values.map encode).mapM decode = some values := by
  induction values with
  | nil => rfl
  | cons value values ih => simp [List.mapM_cons, ih]

instance [LawfulWire α] : LawfulWire (List α) where
  isPlain_encode _ := .array (List.forall_mem_map.2 fun _ _ => isPlain_encode _)
  decode_encode := mapM_decode_encode

instance : DefiniteWire (List α) := ⟨fun _ => nofun⟩

/-- What is not null is read as a value that is there. -/
theorem decode_some_of_ne_null {json : Json} (h : json ≠ .null) :
    (decode json : Option (Option α)) = (decode json).map some := by
  cases json with
  | null => exact absurd rfl h
  | bool | number | string | array | object => rfl

instance [LawfulWire α] [DefiniteWire α] : LawfulWire (Option α) where
  isPlain_encode
    | some value => isPlain_encode value
    | none => .null
  decode_encode
    | some value => by
        refine (decode_some_of_ne_null (DefiniteWire.encode_ne_null value)).trans ?_
        rw [decode_encode, Option.map_some]
    | none => rfl

instance : LawfulWire Key where
  isPlain_encode key := isPlain_encode key.bytes
  decode_encode key := by
    have hbytes : (decode (encode key.bytes) : Option (List UInt8)) = some key.bytes :=
      decode_encode key.bytes
    simp only [decode, encode, Octets.ofBytes?] at hbytes ⊢
    simp [hbytes, key.length_bytes]

/-! ## Enumerations -/

/-- An alternative is read from its name if all of them have different names. -/
theorem alternative?_name {α : Type} {name : α → String} {alternatives : List α}
    (hnames : ∀ a ∈ alternatives, ∀ b ∈ alternatives, name a = name b → a = b) {value : α}
    (hvalue : value ∈ alternatives) :
    alternative? name alternatives (.ofString (name value)) = some value := by
  have hfind : alternatives.find? (name · == name value) = some value := by
    cases hfound : alternatives.find? (name · == name value) with
    | none =>
        have hnone := List.find?_eq_none.1 hfound value hvalue
        simp at hnone
    | some other =>
        have hname : name other = name value := by simpa using List.find?_some hfound
        rw [hnames other (List.mem_of_find?_eq_some hfound) value hvalue hname]
  exact hfind

/-! ## Records -/

/-- What a record's members say about a field, if none of them has another's name. -/
theorem fieldOfMembers_record {members : List (String × Json)}
    (hnames : (members.map Prod.fst).Nodup) (field : Field) :
    fieldOfMembers (members.map fun (name, value) => (some name, value)) field =
      some (members.lookup field.name) := by
  induction members with
  | nil => rfl
  | cons member members ih =>
      obtain ⟨name, value⟩ := member
      rw [List.map_cons, List.nodup_cons] at hnames
      by_cases hname : name = field.name
      · have hrest : members.filter (fun member => member.1 == field.name) = [] := by
          refine List.filter_eq_nil_iff.2 fun member hmember hsame => hnames.1 ?_
          have heq : member.1 = name := (eq_of_beq hsame).trans hname.symm
          exact List.mem_map.2 ⟨member, hmember, heq⟩
        simp [fieldOfMembers, List.filter_map, Function.comp_def, hname, hrest]
      · have hother : (field.name == name) = false := by
          simpa using fun h => hname h.symm
        refine Eq.trans ?_ (ih hnames.2 |>.trans ?_)
        · simp [fieldOfMembers, hname]
        · simp [List.lookup_cons, hother]

/-- The fields of a record are read from the members of their names. -/
theorem fieldValues_record {members : List (String × Json)}
    (hnames : (members.map Prod.fst).Nodup) (fields : List Field) :
    fieldValues fields (.record members) =
      some (fields.map fun field => members.lookup field.name) := by
  have hall : (members.map fun (name, value) => ((some name : Json.Literal), value)).all
      (·.1.isSome) = true := by simp
  refine (if_pos hall).trans ?_
  induction fields with
  | nil => rfl
  | cons field fields ih =>
      rw [List.mapM_cons, fieldOfMembers_record hnames, ih]
      rfl

@[simp] theorem required_encode [LawfulWire α] (value : α) :
    required (some (encode value)) = some value := decode_encode value

@[simp] theorem optional_encode [LawfulWire α] (value default : α) :
    optional (some (encode value)) default = some value := decode_encode value

@[simp] theorem optional_none (default : α) : optional none default = some default := rfl

end Wire

end Cosign
