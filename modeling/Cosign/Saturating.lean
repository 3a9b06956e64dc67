-- SUMMARY: Machine-word arithmetic that stops at the ends of its range.

/-!
# Saturating arithmetic

Amounts and owner counts live in machine words and never wrap: a result that
does not fit is replaced by the nearest word. Every operation here computes the
exact result first and clamps once, and the `to…_` lemmas say so.
-/

namespace Cosign.Saturating

/-! ## Nearest words -/

/-- The 32-bit word nearest to a natural number. -/
def word32 (n : Nat) : UInt32 := UInt32.ofNat (min n 4294967295)

/-- The 64-bit word nearest to a natural number. -/
def word64 (n : Nat) : UInt64 := UInt64.ofNat (min n 18446744073709551615)

/-- The signed 64-bit word nearest to an integer. -/
def signed64 (n : Int) : Int64 :=
  Int64.ofInt (max (-9223372036854775808) (min n 9223372036854775807))

/-- The 32-bit word nearest to a signed 64-bit word. -/
def word32OfSigned (n : Int64) : UInt32 :=
  if n < 0 then 0 else if 4294967295 < n then 4294967295 else n.toUInt64.toUInt32

/-! ## Operations -/

def add32 (a b : UInt32) : UInt32 := word32 (a.toNat + b.toNat)

def add64 (a b : UInt64) : UInt64 := word64 (a.toNat + b.toNat)

def mul64 (a b : UInt64) : UInt64 := word64 (a.toNat * b.toNat)

def addSigned64 (a b : Int64) : Int64 := signed64 (a.toInt + b.toInt)

/-! ## Meaning over the integers -/

@[simp] theorem toNat_word32 (n : Nat) : (word32 n).toNat = min n 4294967295 := by
  simp only [word32, UInt32.toNat_ofNat']
  omega

@[simp] theorem toNat_word64 (n : Nat) : (word64 n).toNat = min n 18446744073709551615 := by
  simp only [word64, UInt64.toNat_ofNat']
  omega

theorem toNat_add32 (a b : UInt32) : (add32 a b).toNat = min (a.toNat + b.toNat) 4294967295 :=
  toNat_word32 _

theorem toNat_add64 (a b : UInt64) :
    (add64 a b).toNat = min (a.toNat + b.toNat) 18446744073709551615 :=
  toNat_word64 _

theorem toNat_mul64 (a b : UInt64) :
    (mul64 a b).toNat = min (a.toNat * b.toNat) 18446744073709551615 :=
  toNat_word64 _

end Cosign.Saturating
