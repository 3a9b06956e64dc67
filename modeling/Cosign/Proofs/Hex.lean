-- SUMMARY: Which texts are hexadecimal, which bytes they spell, and what is wrong with all others.
import Cosign.Identifier
import Mathlib.Data.List.Basic
import Mathlib.Data.List.Induction

/-!
# Hexadecimal texts

The digits of a byte string spell it (`decode_digits`). A text of digits in pairs, in either case,
is decoded to bytes whose digits are the text in upper case (`decode_of_digits`), and every other
text has a fault that is reported (`decode_of_faulty`). Digits are looked at byte by byte, but a
byte that is a digit is a character of its own (`utf8_eq_map`), so the bytes and the
characters of such a text are the same.
-/

namespace Cosign.Hex

/-- The bytes of digits in UTF-8. -/
def encodedWith (digit : Nat → Char) (bytes : List UInt8) : List UInt8 :=
  (digitsWith digit bytes).flatMap String.utf8EncodeChar

/-- A digit is a single byte, and its value is the one it was printed for. -/
theorem upperDigit_spec (value : Nat) (h : value < 16) :
    String.utf8EncodeChar (upperDigit value) = [UInt8.ofNat (upperDigit value).toNat] ∧
      digit? (UInt8.ofNat (upperDigit value).toNat) = some (UInt8.ofNat value) := by
  revert value
  decide

theorem encodedWith_cons (byte : UInt8) (bytes : List UInt8) :
    encodedWith upperDigit (byte :: bytes) =
      UInt8.ofNat (upperDigit (byte.toNat / 16)).toNat ::
        UInt8.ofNat (upperDigit (byte.toNat % 16)).toNat :: encodedWith upperDigit bytes := by
  have hbyte := byte.toNat_lt
  have hhigh := (upperDigit_spec (byte.toNat / 16) (by omega)).1
  have hlow := (upperDigit_spec (byte.toNat % 16) (by omega)).1
  simp [encodedWith, digitsWith, hhigh, hlow]

theorem length_encodedWith (bytes : List UInt8) :
    (encodedWith upperDigit bytes).length = 2 * bytes.length := by
  induction bytes with
  | nil => rfl
  | cons byte bytes ih =>
      rw [encodedWith_cons, List.length_cons, List.length_cons, List.length_cons, ih]
      omega

/-- The halves of a byte make up the byte. -/
theorem halves (byte : UInt8) :
    UInt8.ofNat (byte.toNat / 16) * 16 + UInt8.ofNat (byte.toNat % 16) = byte := by
  have hbyte := byte.toNat_lt
  apply UInt8.toNat_inj.1
  simp only [UInt8.toNat_add, UInt8.toNat_mul, UInt8.toNat_ofNat', UInt8.reduceToNat]
  omega

theorem decodeFrom_digits (bytes : List UInt8) (position : Nat) :
    decodeFrom position (encodedWith upperDigit bytes) = .ok bytes := by
  induction bytes generalizing position with
  | nil => rfl
  | cons byte bytes ih =>
      have hbyte := byte.toNat_lt
      have hhigh := (upperDigit_spec (byte.toNat / 16) (by omega)).2
      have hlow := (upperDigit_spec (byte.toNat % 16) (by omega)).2
      rw [encodedWith_cons, decodeFrom, digitAt, hhigh, digitAt, hlow, ih]
      exact congrArg (fun first => Except.ok (first :: bytes)) (halves byte)

/-- The digits of some bytes spell them. -/
theorem decode_digits (bytes : List UInt8) : decode (encodedWith upperDigit bytes) = .ok bytes := by
  unfold decode
  rw [length_encodedWith, if_neg (by omega), decodeFrom_digits]

/-! ## Digits of either case -/

/-- The ASCII code of a hexadecimal digit of either case. -/
def IsDigit (code : Nat) : Prop :=
  48 ≤ code ∧ code ≤ 57 ∨ 65 ≤ code ∧ code ≤ 70 ∨ 97 ≤ code ∧ code ≤ 102

instance (code : Nat) : Decidable (IsDigit code) := inferInstanceAs (Decidable (_ ∨ _))

/-- The digit in upper case is the one that is printed for its value. -/
theorem digit?_of_isDigit {byte : UInt8} (h : IsDigit byte.toNat) :
    ∃ value, digit? byte = some value ∧ value.toNat < 16 ∧
      upperDigit value.toNat = (Char.ofNat byte.toNat).toUpper := by
  have hall : ∀ code < 256, IsDigit code → (digit? (UInt8.ofNat code)).any fun value =>
      value.toNat < 16 ∧ upperDigit value.toNat = (Char.ofNat code).toUpper := by decide +kernel
  have hbyte := hall byte.toNat byte.toNat_lt h
  rw [UInt8.ofNat_toNat, Option.any_eq_true] at hbyte
  obtain ⟨value, hvalue, hspec⟩ := hbyte
  exact ⟨value, hvalue, of_decide_eq_true hspec⟩

theorem digit?_eq_none {byte : UInt8} (h : ¬IsDigit byte.toNat) : digit? byte = none := by
  have hall : ∀ code < 256, ¬IsDigit code → digit? (UInt8.ofNat code) = none := by decide +kernel
  have hbyte := hall byte.toNat byte.toNat_lt h
  rwa [UInt8.ofNat_toNat] at hbyte

theorem digitAt_of_not_isDigit {byte : UInt8} (h : ¬IsDigit byte.toNat) (position : Nat) :
    digitAt byte position = .error (.badDigit byte position) := by
  simp [digitAt, digit?_eq_none h]

/-! ## Decoding -/

/-- The text that bytes are the codes of, in upper case. -/
def upperCase (text : List UInt8) : List Char :=
  text.map fun byte => (Char.ofNat byte.toNat).toUpper

/-- The digits of the byte that two digits make up. -/
theorem digitsWith_cons {high low : UInt8} (hhigh : high.toNat < 16) (hlow : low.toNat < 16)
    (bytes : List UInt8) :
    digitsWith upperDigit ((high * 16 + low) :: bytes) =
      upperDigit high.toNat :: upperDigit low.toNat :: digitsWith upperDigit bytes := by
  have hbyte : (high * 16 + low).toNat = high.toNat * 16 + low.toNat := by
    simp only [UInt8.toNat_add, UInt8.toNat_mul, UInt8.reduceToNat]
    omega
  have hdiv : (high * 16 + low).toNat / 16 = high.toNat := by omega
  have hmod : (high * 16 + low).toNat % 16 = low.toNat := by omega
  simp only [digitsWith, List.flatMap_cons, hdiv, hmod, List.cons_append, List.nil_append]

/-- Digits in pairs are decoded, and printed again they are in upper case. -/
theorem decodeFrom_of_digits (text : List UInt8) (heven : text.length % 2 = 0)
    (h : ∀ byte ∈ text, IsDigit byte.toNat) (position : Nat) :
    ∃ bytes, decodeFrom position text = .ok bytes ∧
      digitsWith upperDigit bytes = upperCase text := by
  induction text using List.twoStepInduction generalizing position with
  | nil => exact ⟨[], rfl, rfl⟩
  | singleton byte => cases heven
  | cons_cons high low rest ih =>
      simp only [List.forall_mem_cons] at h
      obtain ⟨hhigh, hlow, hrest⟩ := h
      obtain ⟨first, hfirst, hfirst16, hfirstText⟩ := digit?_of_isDigit hhigh
      obtain ⟨second, hsecond, hsecond16, hsecondText⟩ := digit?_of_isDigit hlow
      have hrestEven : rest.length % 2 = 0 := by
        simp only [List.length_cons] at heven
        omega
      obtain ⟨bytes, hbytes, htext⟩ := ih hrestEven hrest (position + 2)
      refine ⟨(first * 16 + second) :: bytes, ?_, ?_⟩
      · rw [decodeFrom, digitAt, hfirst, digitAt, hsecond, hbytes]
        rfl
      · rw [digitsWith_cons hfirst16 hsecond16, htext, hfirstText, hsecondText]
        rfl

/-- Pairs are decoded up to the first byte that is no digit, in whichever half of a pair it is. -/
theorem decodeFrom_of_bad (before : List UInt8) {byte : UInt8} {after : List UInt8}
    (heven : (before ++ byte :: after).length % 2 = 0)
    (hbefore : ∀ digit ∈ before, IsDigit digit.toNat) (hbyte : ¬IsDigit byte.toNat)
    (position : Nat) :
    decodeFrom position (before ++ byte :: after) =
      .error (.badDigit byte (position + before.length)) := by
  induction before using List.twoStepInduction generalizing position with
  | nil =>
      cases after with
      | nil => cases heven
      | cons low rest =>
          rw [List.nil_append, decodeFrom, digitAt_of_not_isDigit hbyte]
          rfl
  | singleton high =>
      obtain ⟨first, hfirst, -⟩ := digit?_of_isDigit (hbefore high List.mem_cons_self)
      rw [List.singleton_append, decodeFrom, digitAt, hfirst, digitAt_of_not_isDigit hbyte]
      rfl
  | cons_cons high low before ih =>
      simp only [List.forall_mem_cons] at hbefore
      obtain ⟨hhigh, hlow, hbefore⟩ := hbefore
      obtain ⟨first, hfirst, -⟩ := digit?_of_isDigit hhigh
      obtain ⟨second, hsecond, -⟩ := digit?_of_isDigit hlow
      have hrestEven : (before ++ byte :: after).length % 2 = 0 := by
        simp only [List.cons_append, List.length_cons] at heven
        omega
      have hrest := ih hrestEven hbefore (position + 2)
      rw [List.cons_append, List.cons_append, decodeFrom, digitAt, hfirst, digitAt, hsecond, hrest,
        List.length_cons, List.length_cons, Nat.add_right_comm before.length, Nat.add_assoc position,
        Nat.add_comm 2]
      rfl

/-- What is wrong with a text that is not hexadecimal. Its length is looked at first. -/
inductive Faulty (text : List UInt8) : Fault → Prop
  | oddLength (hodd : text.length % 2 = 1) : Faulty text .oddLength
  | badDigit {before after : List UInt8} {byte : UInt8} (heven : text.length % 2 = 0)
      (htext : text = before ++ byte :: after) (hbefore : ∀ digit ∈ before, IsDigit digit.toNat)
      (hbyte : ¬IsDigit byte.toNat) : Faulty text (.badDigit byte before.length)

theorem decode_of_faulty {text : List UInt8} {fault : Fault} (h : Faulty text fault) :
    decode text = .error fault := by
  cases h with
  | oddLength hodd => exact if_pos hodd
  | @badDigit before after byte heven htext hbefore hbyte =>
      unfold decode
      subst htext
      rw [if_neg (by omega), decodeFrom_of_bad before heven hbefore hbyte, Nat.zero_add]

/-- A text is hexadecimal or has a fault. -/
theorem digits_or_faulty (text : List UInt8) :
    (text.length % 2 = 0 ∧ ∀ byte ∈ text, IsDigit byte.toNat) ∨ ∃ fault, Faulty text fault := by
  rcases Nat.mod_two_eq_zero_or_one text.length with heven | hodd
  · cases hbad : text.find? fun byte => !decide (IsDigit byte.toNat) with
    | none =>
        rw [List.find?_eq_none] at hbad
        exact .inl ⟨heven, fun byte hbyte => by simpa using hbad byte hbyte⟩
    | some byte =>
        obtain ⟨hbyte, before, after, htext, hbefore⟩ := List.find?_eq_some_iff_append.1 hbad
        exact .inr ⟨_, .badDigit heven htext (by simpa using hbefore) (by simpa using hbyte)⟩
  · exact .inr ⟨_, .oddLength hodd⟩

theorem length_digitsWith (digit : Nat → Char) (bytes : List UInt8) :
    (digitsWith digit bytes).length = 2 * bytes.length := by
  induction bytes with
  | nil => rfl
  | cons byte bytes ih =>
      have hcons : digitsWith digit (byte :: bytes) =
          digit (byte.toNat / 16) :: digit (byte.toNat % 16) :: digitsWith digit bytes := rfl
      rw [hcons, List.length_cons, List.length_cons, List.length_cons, ih]
      omega

theorem decode_of_digits {text : List UInt8} (heven : text.length % 2 = 0)
    (h : ∀ byte ∈ text, IsDigit byte.toNat) :
    ∃ bytes, decode text = .ok bytes ∧ 2 * bytes.length = text.length ∧
      digitsWith upperDigit bytes = upperCase text := by
  obtain ⟨bytes, hbytes, htext⟩ := decodeFrom_of_digits text heven h 0
  refine ⟨bytes, (if_neg (by omega)).trans hbytes, ?_, htext⟩
  rw [← length_digitsWith upperDigit, htext, upperCase, List.length_map]

/-! ## Characters and their bytes -/

theorem IsDigit.lt {code : Nat} (h : IsDigit code) : code < 128 := by
  unfold IsDigit at h
  omega

theorem IsDigit.toNat_ofNat {code : Nat} (h : IsDigit code) : (UInt8.ofNat code).toNat = code :=
  UInt8.toNat_ofNat_of_lt' (Nat.lt_trans h.lt (by decide))

/-- A digit is a byte of its own. -/
theorem utf8EncodeChar_of_isDigit {c : Char} (h : IsDigit c.toNat) :
    String.utf8EncodeChar c = [UInt8.ofNat c.toNat] := by
  unfold String.utf8EncodeChar
  exact if_pos (Nat.le_of_lt_succ h.lt)

/-- No character of several bytes begins with a digit. -/
theorem isDigit_of_utf8EncodeChar {c : Char}
    (h : ∀ byte ∈ String.utf8EncodeChar c, IsDigit byte.toNat) : IsDigit c.toNat := by
  change IsDigit c.val.toNat
  have hcode := c.val.toNat_lt
  unfold String.utf8EncodeChar at h
  simp only at h
  split at h
  · next hsmall =>
    have hbyte := h _ List.mem_cons_self
    rwa [UInt8.toNat_ofNat', Nat.mod_eq_of_lt (by omega)] at hbyte
  · -- The first byte of a longer encoding is above all ASCII codes.
    exfalso
    repeat' split at h
    all_goals
      have hbyte := h _ List.mem_cons_self
      simp only [UInt8.toNat_ofNat', IsDigit] at hbyte
      omega

theorem isDigit_utf8_iff (text : String) :
    (∀ byte ∈ utf8 text, IsDigit byte.toNat) ↔ ∀ c ∈ text.toList, IsDigit c.toNat := by
  unfold utf8
  constructor
  · intro h c hc
    exact isDigit_of_utf8EncodeChar fun byte hbyte => h byte (List.mem_flatMap.2 ⟨c, hc, hbyte⟩)
  · intro h byte hbyte
    obtain ⟨c, hc, hbyte⟩ := List.mem_flatMap.1 hbyte
    rw [utf8EncodeChar_of_isDigit (h c hc), List.mem_singleton] at hbyte
    rw [hbyte, (h c hc).toNat_ofNat]
    exact h c hc

section

variable {text : String} (h : ∀ c ∈ text.toList, IsDigit c.toNat)
include h

theorem utf8_eq_map : utf8 text = text.toList.map fun c => UInt8.ofNat c.toNat := by
  unfold utf8
  rw [List.map_eq_flatMap]
  exact List.flatMap_congr fun c hc => utf8EncodeChar_of_isDigit (h c hc)

theorem length_utf8_of_digits : (utf8 text).length = text.length := by
  rw [utf8_eq_map h, List.length_map, String.length_toList]

theorem upperCase_utf8 : upperCase (utf8 text) = text.toUpper.toList := by
  rw [utf8_eq_map h, upperCase, List.map_map, String.toUpper, String.toList_map]
  refine List.map_congr_left fun c hc => ?_
  simp only [Function.comp_apply, (h c hc).toNat_ofNat, Char.ofNat_toNat]

end

/-- The bytes of a text are the ones it is stored as. -/
theorem length_utf8 (text : String) : (utf8 text).length = text.utf8ByteSize := by
  rw [← String.size_toByteArray, ← String.utf8Encode_toList]
  exact List.size_toByteArray.symm

end Cosign.Hex
