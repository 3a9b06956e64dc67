-- SUMMARY: Byte strings of a fixed length, ordered byte by byte, and numbers as bytes.
import Std.Data.ExtTreeMap

/-!
# Octets

`Octets n` is a string of exactly `n` bytes. Account identifiers and ledger keys
are such strings, and both are ordered by their first differing byte. The order
is total and agrees with equality, which is what ordered maps keyed by octets
rely on.
-/

namespace Cosign

/-- A string of exactly `n` bytes. -/
structure Octets (n : Nat) where
  bytes : List UInt8
  length_bytes : bytes.length = n
deriving DecidableEq

namespace Octets

variable {n : Nat}

@[ext] theorem ext {a b : Octets n} (h : a.bytes = b.bytes) : a = b := by
  cases a
  cases b
  simp_all

/-- The bytes as octets, if there are exactly `n` of them. -/
def ofBytes? (n : Nat) (bytes : List UInt8) : Option (Octets n) :=
  if h : bytes.length = n then some ⟨bytes, h⟩ else none

/-- All bytes zero. -/
def zero (n : Nat) : Octets n := ⟨List.replicate n 0, List.length_replicate⟩

/-! ## Order -/

/-- The first differing byte decides. -/
instance : Ord (Octets n) := ⟨fun a b => compare a.bytes b.bytes⟩

instance : Std.TransOrd (Octets n) where
  eq_swap := Std.OrientedCmp.eq_swap (α := List UInt8)
  isLE_trans := Std.TransCmp.isLE_trans (α := List UInt8)

instance : Std.LawfulEqOrd (Octets n) where
  compare_self := Std.ReflCmp.compare_self (α := List UInt8)
  eq_of_compare h := ext (Std.LawfulEqCmp.eq_of_compare (α := List UInt8) h)

instance : LT (Octets n) := ltOfOrd

instance : LE (Octets n) := leOfOrd

end Octets

/-! ## Numbers as bytes -/

/-- The low `width` bytes of a number, most significant first, in front of other bytes. -/
def bigEndianOnto : (width : Nat) → (value : Nat) → List UInt8 → List UInt8
  | 0, _, rest => rest
  | width + 1, value, rest => bigEndianOnto width (value / 256) (UInt8.ofNat value :: rest)

/-- The low `width` bytes of a number, most significant first. -/
def bigEndian (width value : Nat) : List UInt8 := bigEndianOnto width value []

theorem bigEndianOnto_eq_append (width value : Nat) (rest : List UInt8) :
    bigEndianOnto width value rest = bigEndian width value ++ rest := by
  induction width generalizing value rest with
  | zero => rfl
  | succ width ih =>
    rw [bigEndian, bigEndianOnto, bigEndianOnto, ih, ih _ [_], List.append_assoc]
    rfl

/-- The last byte is the least significant one. -/
theorem bigEndian_succ (width value : Nat) :
    bigEndian (width + 1) value = bigEndian width (value / 256) ++ [UInt8.ofNat value] :=
  bigEndianOnto_eq_append width (value / 256) [UInt8.ofNat value]

@[simp] theorem length_bigEndian (width value : Nat) : (bigEndian width value).length = width := by
  induction width generalizing value with
  | zero => rfl
  | succ width ih => simp [bigEndian_succ, ih]

end Cosign
