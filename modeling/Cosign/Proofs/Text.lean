-- SUMMARY: Runs of characters of one class, and digits that were printed for a number.
import Cosign.Text.Hex
import Mathlib.Data.List.Basic

/-!
# Characters and digits

What the readers of JSON and TOML have in common: a run of characters of one class ends where the
class does, codes below 256 are spelled by the last two of four hexadecimal digits, and decimal
numbers are printed without leading zeros.
-/

namespace Cosign

/-! ## Runs -/

/-- A run of characters of one class ends in front of the first that is not of it. -/
theorem takeWhile_dropWhile_append {p : Char → Bool} {front rest : List Char}
    (hfront : ∀ c ∈ front, p c = true) (hrest : ∀ c ∈ rest.head?, p c = false) :
    (front ++ rest).takeWhile p = front ∧ (front ++ rest).dropWhile p = rest := by
  have hover : rest.takeWhile p = [] ∧ rest.dropWhile p = rest := by
    cases rest with
    | nil => exact ⟨rfl, rfl⟩
    | cons c rest => simp [hrest c rfl]
  rw [List.takeWhile_append_of_pos hfront, List.dropWhile_append_of_pos hfront, hover.1, hover.2,
    List.append_nil]
  exact ⟨rfl, rfl⟩

/-! ## Codes -/

theorem Hex.number?_of_code {code : Nat} (h : code < 256) :
    number? ['0', '0', lowerDigit (code / 16), lowerDigit (code % 16)] = some code := by
  revert code
  decide +kernel

/-! ## Decimal numbers -/

theorem isDigit_of_mem_decimal {n : Nat} {c : Char} (h : c ∈ Nat.toDigits 10 n) :
    c.isDigit = true :=
  Nat.isDigit_of_mem_toDigits (by decide) (by decide) h

theorem ne_of_isDigit {c other : Char} (h : c.isDigit = true) (hother : other.isDigit = false) :
    c ≠ other := by
  rintro rfl
  cases h.symm.trans hother

/-- Numbers are written without leading zeros. -/
theorem head?_toDigits_ne {n : Nat} (h : 0 < n) : (Nat.toDigits 10 n).head? ≠ some '0' := by
  induction n using Nat.strongRecOn with
  | ind n ih =>
      rcases Nat.lt_or_ge n 10 with hsmall | hlarge
      · have hdigit : ∀ n < 10, 0 < n → [Nat.digitChar n].head? ≠ some '0' := by decide
        rw [Nat.toDigits_of_lt_base hsmall]
        exact hdigit n hsmall h
      · rw [Nat.toDigits_of_base_le (by decide) hlarge,
          List.head?_append_of_ne_nil _ Nat.toDigits_ne_nil]
        exact ih (n / 10) (by omega) (by omega)

/-- The digits of a number begin with a zero only if there is no other. -/
theorem toDigits_cases (n : Nat) :
    Nat.toDigits 10 n = ['0'] ∨
      ∃ c more, Nat.toDigits 10 n = c :: more ∧ c.isDigit = true ∧ c ≠ '0' := by
  rcases Nat.eq_zero_or_pos n with rfl | hpos
  · exact .inl rfl
  · obtain ⟨c, more, hcons⟩ := List.exists_cons_of_ne_nil (Nat.toDigits_ne_nil (n := n) (b := 10))
    refine .inr ⟨c, more, hcons, isDigit_of_mem_decimal (n := n) (by simp [hcons]), ?_⟩
    rintro rfl
    exact head?_toDigits_ne hpos (by simp [hcons])

/-! ## Integers -/

def integerText : Int → List Char
  | .ofNat value => Nat.toDigits 10 value
  | .negSucc value => '-' :: Nat.toDigits 10 (value + 1)

/-- The text of an integer begins with a digit or a sign. -/
theorem integerText_eq_cons (value : Int) :
    ∃ c more, integerText value = c :: more ∧ (c.isDigit = true ∨ c = '-') := by
  cases value with
  | ofNat n =>
      obtain ⟨c, more, hcons⟩ := List.exists_cons_of_ne_nil (Nat.toDigits_ne_nil (n := n) (b := 10))
      exact ⟨c, more, hcons, .inl (isDigit_of_mem_decimal (n := n) (by simp [hcons]))⟩
  | negSucc n => exact ⟨'-', _, rfl, .inr rfl⟩

end Cosign
