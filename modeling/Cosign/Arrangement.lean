-- SUMMARY: Putting a list in order of a key without moving elements of equal keys past each other.
import Cosign.Octets

/-!
# Arrangement

`arrange key xs` holds the elements of `xs` in ascending order of their keys.
Elements with equal keys keep the order they had.
-/

namespace Cosign

variable {α : Type} {n : Nat}

/-- Puts an element in front of the first one whose key is not smaller. -/
def place (key : α → Octets n) (x : α) : List α → List α
  | [] => [x]
  | y :: ys => if (compare (key x) (key y)).isLE then x :: y :: ys else y :: place key x ys

/-- The elements in ascending order of their keys. -/
def arrange (key : α → Octets n) : List α → List α
  | [] => []
  | x :: xs => place key x (arrange key xs)

theorem place_perm (key : α → Octets n) (x : α) (ys : List α) :
    (place key x ys).Perm (x :: ys) := by
  induction ys with
  | nil => exact .rfl
  | cons y ys ih =>
    unfold place
    split
    · exact .rfl
    · exact (ih.cons y).trans (.swap x y ys)

theorem arrange_perm (key : α → Octets n) (xs : List α) : (arrange key xs).Perm xs := by
  induction xs with
  | nil => exact .rfl
  | cons x xs ih => exact (place_perm key x _).trans (ih.cons x)

theorem pairwise_place (key : α → Octets n) (x : α) (ys : List α)
    (h : ys.Pairwise fun a b => (compare (key a) (key b)).isLE) :
    (place key x ys).Pairwise fun a b => (compare (key a) (key b)).isLE := by
  induction ys with
  | nil => simp [place]
  | cons y ys ih =>
    have hy := List.pairwise_cons.1 h
    unfold place
    split
    · next hxy =>
      refine List.pairwise_cons.2 ⟨fun z hz => ?_, h⟩
      rcases List.mem_cons.1 hz with rfl | hz
      · exact hxy
      · exact Std.TransCmp.isLE_trans hxy (hy.1 z hz)
    · next hxy =>
      refine List.pairwise_cons.2 ⟨fun z hz => ?_, ih hy.2⟩
      rcases List.mem_cons.1 ((place_perm key x ys).mem_iff.1 hz) with rfl | hz
      · cases hc : compare (key z) (key y) with
        | lt | eq => simp [hc] at hxy
        | gt => simp [Std.OrientedCmp.lt_of_gt hc]
      · exact hy.1 z hz

/-- The keys ascend. -/
theorem pairwise_arrange (key : α → Octets n) (xs : List α) :
    (arrange key xs).Pairwise fun a b => (compare (key a) (key b)).isLE := by
  induction xs with
  | nil => exact .nil
  | cons x xs ih => exact pairwise_place key x _ ih

end Cosign
