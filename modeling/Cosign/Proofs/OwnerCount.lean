-- SUMMARY: Owner counts move by the exact amount, stopped at the ends of their range.
import Cosign.Entry.AccountRoot

/-!
# Owner counts

The count of an account is moved by signed steps through a wider word. Over the
integers the new count is the sum, cut off at zero and at the greatest word.
-/

namespace Cosign

namespace Saturating

theorem toInt_signed64 (n : Int) :
    (signed64 n).toInt = max (-9223372036854775808) (min n 9223372036854775807) := by
  apply Int64.toInt_ofInt_of_le
  · omega
  · omega

theorem toInt_addSigned64 (a b : Int64) :
    (addSigned64 a b).toInt =
      max (-9223372036854775808) (min (a.toInt + b.toInt) 9223372036854775807) :=
  toInt_signed64 _

theorem toNat_word32OfSigned (n : Int64) :
    ((word32OfSigned n).toNat : Int) = max 0 (min n.toInt 4294967295) := by
  have hzero : (0 : Int64).toInt = 0 := rfl
  have hmost : (4294967295 : Int64).toInt = 4294967295 := rfl
  unfold word32OfSigned
  split
  · next hneg =>
    rw [Int64.lt_iff_toInt_lt, hzero] at hneg
    simp only [UInt32.toNat_zero]
    omega
  · next hnonneg =>
    rw [Int64.lt_iff_toInt_lt, hzero] at hnonneg
    split
    · next hlarge =>
      rw [Int64.lt_iff_toInt_lt, hmost] at hlarge
      have hword : (4294967295 : UInt32).toNat = 4294967295 := rfl
      rw [hword]
      omega
    · next hfits =>
      rw [Int64.lt_iff_toInt_lt, hmost] at hfits
      have hle : (0 : Int64) ≤ n := by
        rw [Int64.le_iff_toInt_le, hzero]
        omega
      have hclamp := Int64.toInt_eq_toNatClampNeg hle
      rw [UInt64.toNat_toUInt32, Int64.toNat_toUInt64_of_le hle]
      omega

end Saturating

namespace AccountRoot

/-- The count after a step, over the integers. -/
theorem toNat_adjustOwnerCount (root : AccountRoot) (delta : Int64) :
    ((root.adjustOwnerCount delta).ownerCount.toNat : Int) =
      max 0 (min (root.ownerCount.toNat + delta.toInt) 4294967295) := by
  have hcount := root.ownerCount.toNat_lt
  have hlow := delta.le_toInt
  have hhigh := delta.toInt_lt
  have hwide : (Int64.ofNat root.ownerCount.toNat).toInt = root.ownerCount.toNat :=
    Int64.toInt_ofNat_of_lt (by omega)
  have hsum := Saturating.toInt_addSigned64 (Int64.ofNat root.ownerCount.toNat) delta
  rw [hwide] at hsum
  unfold adjustOwnerCount
  simp only
  rw [Saturating.toNat_word32OfSigned, hsum]
  omega

/-- The count after adding units. -/
theorem toNat_adjustOwnerCount_add (root : AccountRoot) (units : UInt32) :
    (root.adjustOwnerCount (Int64.ofNat units.toNat)).ownerCount.toNat =
      min (root.ownerCount.toNat + units.toNat) 4294967295 := by
  have hunits := units.toNat_lt
  have hstep := root.toNat_adjustOwnerCount (Int64.ofNat units.toNat)
  rw [Int64.toInt_ofNat_of_lt (by omega)] at hstep
  omega

/-- The count after taking units away. -/
theorem toNat_adjustOwnerCount_sub (root : AccountRoot) (units : UInt32) :
    (root.adjustOwnerCount (-Int64.ofNat units.toNat)).ownerCount.toNat =
      root.ownerCount.toNat - units.toNat := by
  have hunits := units.toNat_lt
  have hcount := root.ownerCount.toNat_lt
  have hstep := root.toNat_adjustOwnerCount (-Int64.ofNat units.toNat)
  rw [Int64.toInt_neg_ofNat_of_le (by omega)] at hstep
  omega

/-- Taking away what has been added restores the root, unless the count was stopped. -/
theorem adjustOwnerCount_add_sub {root : AccountRoot} {units : UInt32}
    (h : root.ownerCount.toNat + units.toNat < 4294967296) :
    (root.adjustOwnerCount (Int64.ofNat units.toNat)).adjustOwnerCount
      (-Int64.ofNat units.toNat) = root := by
  have hadd := root.toNat_adjustOwnerCount_add units
  have hsub := (root.adjustOwnerCount (Int64.ofNat units.toNat)).toNat_adjustOwnerCount_sub units
  have hcount : ((root.adjustOwnerCount (Int64.ofNat units.toNat)).adjustOwnerCount
      (-Int64.ofNat units.toNat)).ownerCount = root.ownerCount := by
    apply UInt32.toNat_inj.1
    omega
  calc
    _ = { root with ownerCount := ((root.adjustOwnerCount (Int64.ofNat units.toNat)).adjustOwnerCount
          (-Int64.ofNat units.toNat)).ownerCount } := rfl
    _ = root := by rw [hcount]

end AccountRoot

end Cosign
