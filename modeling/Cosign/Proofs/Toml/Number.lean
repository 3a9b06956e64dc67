-- SUMMARY: Integers are read back from TOML text.
import Cosign.Proofs.Text
import Cosign.Toml.Number

/-!
# Reading integers back

The digits of an integer end where its value does, at a comma, a closing bracket or brace or the
end of a line (`EndsValue`). None of these goes on with a number, and none makes a date or a
time of the digits in front of it, so an integer that fits into a word is read back
(`numeral?_integerText`).
-/

namespace Cosign.Toml

/-- The text goes on with something that ends a value. -/
def EndsValue (rest : List Char) : Prop :=
  ∃ c more, rest = c :: more ∧ (c = ',' ∨ c = ']' ∨ c = '\x7d' ∨ c = '\n')

/-! ## Digits -/

section

variable {digits rest : List Char} (hdigits : ∀ c ∈ digits, c.isDigit = true)
  (hrest : EndsValue rest)
include hdigits hrest

theorem moreDigits_append (met : List Char) :
    moreDigits Char.isDigit met (digits ++ rest) = some (met.reverse ++ digits, rest) := by
  induction digits generalizing met with
  | nil =>
      obtain ⟨c, more, rfl, rfl | rfl | rfl | rfl⟩ := hrest <;> simp [moreDigits]
  | cons c digits ih =>
      rw [List.forall_mem_cons] at hdigits
      have hscore : c ≠ '_' := by
        rintro rfl
        cases hdigits.1
      simp [moreDigits, hscore, hdigits.1, ih hdigits.2]

theorem digits?_append (hne : digits ≠ []) :
    digits? Char.isDigit (digits ++ rest) = some (digits, rest) := by
  cases digits with
  | nil => exact absurd rfl hne
  | cons c digits =>
      rw [List.forall_mem_cons] at hdigits
      simp [digits?, hdigits.1, moreDigits_append hdigits.2 hrest]

/-- The first character that is no digit stands behind the digits. -/
theorem rest_eq_of_digits {front back : List Char} {c : Char}
    (h : digits ++ rest = front ++ c :: back) (hfront : ∀ c ∈ front, c.isDigit = true)
    (hc : c.isDigit = false) : rest = c :: back := by
  have hstop : ∀ c ∈ rest.head?, c.isDigit = false := by
    obtain ⟨c, more, rfl, rfl | rfl | rfl | rfl⟩ := hrest <;> simp
  calc
    rest = (digits ++ rest).dropWhile Char.isDigit :=
      (takeWhile_dropWhile_append hdigits hstop).2.symm
    _ = (front ++ c :: back).dropWhile Char.isDigit := by rw [h]
    _ = c :: back := (takeWhile_dropWhile_append hfront (by simp [hc])).2

/-- Digits that a value ends with are no date or time. -/
theorem looksLikeMoment_digits : looksLikeMoment (digits ++ rest) = false := by
  have hnever : ∀ (front : List Char) {back : List Char} {c : Char},
      digits ++ rest = front ++ c :: back → (∀ c ∈ front, c.isDigit = true) →
        c.isDigit = false → c ≠ ':' ∧ c ≠ '-' := by
    intro front back c heq hfront hc
    obtain ⟨first, more, hcons, hfirst⟩ := hrest
    have hover := rest_eq_of_digits hdigits ⟨first, more, hcons, hfirst⟩ heq hfront hc
    rw [hcons] at hover
    cases hover
    rcases hfirst with rfl | rfl | rfl | rfl <;> decide
  rw [Bool.eq_false_iff]
  unfold looksLikeMoment
  split
  · next a b more heq =>
    intro hall
    simp only [Bool.and_eq_true] at hall
    exact (hnever [a, b] heq (by simp [hall]) rfl).1 rfl
  · next a b c d more _ heq =>
    intro hall
    simp only [Bool.and_eq_true] at hall
    exact (hnever [a, b, c, d] heq (by simp [hall]) rfl).2 rfl
  · exact Bool.false_ne_true

end

theorem looksLikeMoment_of_not_isDigit {c : Char} (h : c.isDigit = false) (text : List Char) :
    looksLikeMoment (c :: text) = false := by
  unfold looksLikeMoment
  split
  · next heq => rw [← (List.cons.inj heq).1, h, Bool.false_and]
  · next heq => simp [← (List.cons.inj heq).1, h]
  · rfl

/-! ## Integers -/

theorem valueIn_toDigits (n : Nat) : valueIn 10 (Nat.toDigits 10 n) = n := by
  have hvalue : Nat.ofDigitChars 10 (Nat.toDigits 10 n) 0 = n :=
    Nat.ofDigitChars_toDigits (by decide) (by decide)
  refine Eq.trans (List.foldl_ext _ _ _ fun value c hc => ?_) hvalue
  have hdigit : '0' ≤ c ∧ c ≤ '9' := by
    have hc := isDigit_of_mem_decimal hc
    simpa [Char.isDigit, Char.le_def] using hc
  simp [Hex.value?, hdigit, Nat.mul_comm]

section

variable {rest : List Char} (hrest : EndsValue rest)
include hrest

theorem wholeDigits?_toDigits (n : Nat) :
    wholeDigits? (Nat.toDigits 10 n ++ rest) = some (Nat.toDigits 10 n, rest) := by
  have hdigits := digits?_append (fun c => isDigit_of_mem_decimal (n := n)) hrest
    Nat.toDigits_ne_nil
  unfold wholeDigits?
  rw [hdigits]
  split
  · next second more _ heq =>
    have hcons : Nat.toDigits 10 n = '0' :: second :: more :=
      (Prod.mk.inj (Option.some.inj heq)).1
    rcases toDigits_cases n with hzero | ⟨c, more, hfirst, -, hne⟩
    · cases hzero.symm.trans hcons
    · exact absurd (List.cons.inj (hfirst.symm.trans hcons)).1 hne
  · rfl

theorem decimal?_toDigits (negative : Bool) (n : Nat) {value : Value}
    (hvalue : signedWord? (if negative then -n else n) = some value) :
    decimal? negative (Nat.toDigits 10 n ++ rest) = some (value, rest) := by
  have hfraction : fraction? rest = some ([], rest) := by
    obtain ⟨c, more, rfl, rfl | rfl | rfl | rfl⟩ := hrest <;> rfl
  have hexponent : exponent? rest = some (none, rest) := by
    obtain ⟨c, more, rfl, rfl | rfl | rfl | rfl⟩ := hrest <;> rfl
  simp [decimal?, wholeDigits?_toDigits hrest, hfraction, hexponent, valueIn_toDigits, hvalue]

/-- A number that begins with another digit than zero, or is a zero alone, is in base ten. -/
theorem number?_toDigits (n : Nat) :
    number? (Nat.toDigits 10 n ++ rest) = decimal? false (Nat.toDigits 10 n ++ rest) := by
  rcases toDigits_cases n with hzero | ⟨c, more, hcons, hdigit, hne⟩
  · obtain ⟨c, more, rfl, rfl | rfl | rfl | rfl⟩ := hrest <;> simp [hzero, number?, splitSign]
  · simp [hcons, number?, splitSign, hne, ne_of_isDigit hdigit]

omit hrest in
theorem number?_minus_toDigits (n : Nat) :
    number? ('-' :: (Nat.toDigits 10 n ++ rest)) = decimal? true (Nat.toDigits 10 n ++ rest) := by
  obtain ⟨c, more, hcons⟩ := List.exists_cons_of_ne_nil (Nat.toDigits_ne_nil (n := n) (b := 10))
  have hdigit : c.isDigit = true := isDigit_of_mem_decimal (n := n) (by simp [hcons])
  simp [hcons, number?, splitSign, ne_of_isDigit hdigit]

theorem numeral?_integerText {value : Int} (least : -9223372036854775808 ≤ value)
    (most : value ≤ 9223372036854775807) :
    numeral? (integerText value ++ rest) = some (.integer value, rest) := by
  have hword : signedWord? value = some (.integer value) := if_pos ⟨least, most⟩
  unfold numeral?
  cases value with
  | ofNat n =>
      have hmoment : looksLikeMoment (Nat.toDigits 10 n ++ rest) = false :=
        looksLikeMoment_digits (fun c => isDigit_of_mem_decimal) hrest
      simp only [integerText, hmoment, number?_toDigits hrest]
      exact decimal?_toDigits hrest false n hword
  | negSucc n =>
      have hmoment := looksLikeMoment_of_not_isDigit (c := '-') rfl
        (Nat.toDigits 10 (n + 1) ++ rest)
      simp only [integerText, List.cons_append, hmoment, number?_minus_toDigits]
      exact decimal?_toDigits hrest true (n + 1) hword

end

end Cosign.Toml
