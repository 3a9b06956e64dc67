-- SUMMARY: Which texts name an account, which account that is, and what is wrong with all others.
import Cosign.Proofs.Hex

/-!
# Identifiers and their text

The text of an account is parsed as that account (`AccountId.parse_text`). In the other direction a
text names an account just in case it consists of forty digits, and then the account's text is
that text in upper case. Every other text has one fault, and the first that applies is
reported (`AccountId.parse_exact`).
-/

namespace Cosign

/-- The text of an account names it. -/
theorem AccountId.parse_text (id : AccountId) : parse id.text = .ok id := by
  have hutf8 : utf8 id.text = Hex.encodedWith Hex.upperDigit id.bytes := by
    unfold utf8 text Hex.upper Hex.encodedWith
    rw [String.toList_ofList]
  unfold parse
  rw [hutf8, Hex.decode_digits]
  simp [Octets.ofBytes?, id.length_bytes]

namespace AccountId

/-- What is wrong with a text that names no account. -/
inductive Misread (text : String) : IdentifierError → Prop
  | invalidHex {fault : Hex.Fault} (h : Hex.Faulty (utf8 text) fault) :
      Misread text (.invalidHex fault)
  | invalidLength (heven : text.utf8ByteSize % 2 = 0)
      (hdigits : ∀ byte ∈ utf8 text, Hex.IsDigit byte.toNat) (hlength : text.utf8ByteSize ≠ 40) :
      Misread text (.invalidLength 20 (text.utf8ByteSize / 2))

theorem parse_of_misread {text : String} {error : IdentifierError} (h : Misread text error) :
    parse text = .error error := by
  unfold parse
  cases h with
  | invalidHex hfault => rw [Hex.decode_of_faulty hfault]
  | invalidLength heven hdigits hlength =>
      rw [← Hex.length_utf8] at heven hlength ⊢
      obtain ⟨bytes, hbytes, hcount, -⟩ := Hex.decode_of_digits heven hdigits
      rw [hbytes]
      simp only [Octets.ofBytes?]
      rw [dif_neg (by omega), ← hcount, Nat.mul_div_cancel_left _ (by decide)]

/-- A text of forty digits. -/
def IsWritten (text : String) : Prop :=
  text.length = 40 ∧ ∀ c ∈ text.toList, Hex.IsDigit c.toNat

theorem parse_of_isWritten {text : String} (h : IsWritten text) :
    ∃ id, parse text = .ok id ∧ id.text = text.toUpper := by
  obtain ⟨hlength, hdigits⟩ := h
  have hcount := Hex.length_utf8_of_digits hdigits
  rw [hlength] at hcount
  obtain ⟨bytes, hbytes, hhalf, htext⟩ :=
    Hex.decode_of_digits (by omega) ((Hex.isDigit_utf8_iff text).2 hdigits)
  refine ⟨⟨bytes, by omega⟩, ?_, ?_⟩
  · unfold parse
    rw [hbytes]
    simp only [Octets.ofBytes?]
    rw [dif_pos (by omega)]
  · unfold AccountId.text Hex.upper
    rw [htext, Hex.upperCase_utf8 hdigits, String.ofList_toList]

/-- A text names an account or has a fault. -/
theorem isWritten_or_misread (text : String) : IsWritten text ∨ ∃ error, Misread text error := by
  rcases Hex.digits_or_faulty (utf8 text) with ⟨heven, hdigits⟩ | ⟨fault, hfault⟩
  · have hchars := (Hex.isDigit_utf8_iff text).1 hdigits
    by_cases hlength : text.utf8ByteSize = 40
    · rw [← Hex.length_utf8, Hex.length_utf8_of_digits hchars] at hlength
      exact .inl ⟨hlength, hchars⟩
    · rw [Hex.length_utf8] at heven
      exact .inr ⟨_, .invalidLength heven hdigits hlength⟩
  · exact .inr ⟨_, .invalidHex hfault⟩

/-- A text names an account just in case it consists of forty hexadecimal digits. The account's own
text is then the text in upper case, and the text of any account names that account. Any other text
has one fault, which is the error: an odd number of bytes, or else the first byte that is no digit,
or else the wrong number of bytes decoded. -/
theorem parse_exact (text : String) :
    ((∃ id, parse text = .ok id) ↔ IsWritten text) ∧
      (∀ id, parse text = .ok id → id.text = text.toUpper) ∧
      (∀ id : AccountId, parse id.text = .ok id) ∧
      ∀ error, parse text = .error error ↔ Misread text error := by
  refine ⟨⟨?_, ?_⟩, ?_, parse_text, fun error => ⟨?_, parse_of_misread⟩⟩
  · rintro ⟨id, hid⟩
    rcases isWritten_or_misread text with hwritten | ⟨error, herror⟩
    · exact hwritten
    · cases hid.symm.trans (parse_of_misread herror)
  · intro hwritten
    obtain ⟨id, hid, -⟩ := parse_of_isWritten hwritten
    exact ⟨id, hid⟩
  · intro id hid
    rcases isWritten_or_misread text with hwritten | ⟨error, herror⟩
    · obtain ⟨other, hother, htext⟩ := parse_of_isWritten hwritten
      cases hid.symm.trans hother
      exact htext
    · cases hid.symm.trans (parse_of_misread herror)
  · intro herror
    rcases isWritten_or_misread text with hwritten | ⟨other, hother⟩
    · obtain ⟨id, hid, -⟩ := parse_of_isWritten hwritten
      cases hid.symm.trans herror
    · cases herror.symm.trans (parse_of_misread hother)
      exact hother

end AccountId

end Cosign
