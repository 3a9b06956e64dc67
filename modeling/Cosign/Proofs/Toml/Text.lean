-- SUMMARY: Strings and names are read back from TOML text.
import Cosign.Proofs.Text
import Cosign.Toml.Section

/-!
# Writing strings and names

A string is written between double quotes, with an escape for every character that may
not stand there as it is (`quoted`). A name is written as it is if it may be, else as a
string (`nameText`). Either is read back, whatever follows a string (`lineString?_quoted`)
and whatever cannot go on with a name (`key?_text`).
-/

namespace Cosign.Toml

/-! ## Strings -/

/-- A character as it stands in a string. -/
def escape (c : Char) : List Char :=
  if c = '"' ∨ c = '\\' ∨ isPlain c = false then
    ['\\', 'u', '0', '0', Hex.lowerDigit (c.toNat / 16), Hex.lowerDigit (c.toNat % 16)]
  else [c]

/-- A text as a string on one line. -/
def quoted (text : String) : List Char := '"' :: (text.toList.flatMap escape ++ ['"'])

/-- Quotes, backslashes and control characters have small codes. -/
theorem toNat_lt_of_escaped {c : Char} (h : c = '"' ∨ c = '\\' ∨ isPlain c = false) :
    c.toNat < 256 := by
  rcases h with rfl | rfl | h
  · decide
  · decide
  · simp only [isPlain, Bool.or_eq_false_iff, Bool.and_eq_false_iff, decide_eq_false_iff_not,
      bne_eq_false_iff_eq] at h
    omega

theorem charOfCode?_toNat (c : Char) : charOfCode? c.toNat = some c := by
  have hvalid : c.toNat.isValidChar := c.valid
  unfold charOfCode?
  rw [dif_pos hvalid]
  rfl

/-- Every character is read back from the way it stands in a string. -/
theorem basicString_escape (c : Char) (met rest : List Char) :
    basicString met (escape c ++ rest) = basicString (c :: met) rest := by
  unfold escape
  split
  · next h =>
    have hcode : codeEscape? ['0', '0', Hex.lowerDigit (c.toNat / 16),
        Hex.lowerDigit (c.toNat % 16)] = some c := by
      simp [codeEscape?, Hex.number?_of_code (toNat_lt_of_escaped h), charOfCode?_toNat]
    simp [basicString, hcode]
  · next h =>
    simp only [not_or, Bool.not_eq_false] at h
    obtain ⟨hquote, hbackslash, hplain⟩ := h
    rw [List.singleton_append, basicString.eq_def]
    split
    · next heq => exact absurd (List.cons.inj heq).1 hquote
    · next heq => exact absurd (List.cons.inj heq).1 hbackslash
    · next heq => exact absurd (List.cons.inj heq).1 hbackslash
    · next heq => exact absurd (List.cons.inj heq).1 hbackslash
    · next heq =>
      obtain ⟨rfl, rfl⟩ := List.cons.inj heq
      simp [hbackslash, hplain]
    · next heq => cases heq

theorem basicString_quoted (chars met rest : List Char) :
    basicString met (chars.flatMap escape ++ '"' :: rest) = some (met.reverse ++ chars, rest) := by
  induction chars generalizing met with
  | nil => simp [basicString]
  | cons c chars ih =>
      rw [List.flatMap_cons, List.append_assoc, basicString_escape, ih]
      simp

theorem lineString?_quoted (text : String) (rest : List Char) :
    lineString? (quoted text ++ rest) = some (text.toList, rest) := by
  simp [quoted, lineString?, basicString_quoted]

/-- No character stands in a string as a quote. -/
theorem escape_eq_cons (c : Char) : ∃ first more, escape c = first :: more ∧ first ≠ '"' := by
  unfold escape
  split
  · exact ⟨_, _, rfl, by decide⟩
  · next h => exact ⟨_, _, rfl, fun hquote => h (.inl hquote)⟩

/-- A string on one line is told from one on several lines. -/
theorem anyString?_quoted (text : String) {rest : List Char} (hrest : rest.head? ≠ some '"') :
    anyString? (quoted text ++ rest) = some (text.toList, rest) := by
  have hline := lineString?_quoted text rest
  simp only [quoted, List.cons_append, List.append_assoc, List.nil_append] at hline ⊢
  cases htext : text.toList with
  | nil =>
      rw [htext] at hline
      cases rest with
      | nil => rfl
      | cons c rest =>
          have hquote : c ≠ '"' := by simpa using hrest
          simp [anyString?, hquote, ← hline]
  | cons c chars =>
      obtain ⟨first, more, hescape, hquote⟩ := escape_eq_cons c
      rw [htext] at hline
      simp only [List.flatMap_cons, hescape, List.cons_append, List.append_assoc] at hline ⊢
      simp [anyString?, hquote, hline]

/-! ## Names -/

/-- The text may stand as a name without quotes. -/
def IsBareName (name : String) : Prop := name ≠ "" ∧ ∀ c ∈ name.toList, isBare c = true

instance (name : String) : Decidable (IsBareName name) := inferInstanceAs (Decidable (_ ∧ _))

/-- A name in front of a value or in a header. -/
def nameText (name : String) : List Char :=
  if IsBareName name then name.toList else quoted name

/-- A character that names begin with. -/
def startsName (c : Char) : Bool := isBare c || c == '"'

theorem nameText_eq_cons (name : String) :
    ∃ c more, nameText name = c :: more ∧ startsName c = true := by
  unfold nameText
  split
  · next h =>
    obtain ⟨c, more, hcons⟩ := List.exists_cons_of_ne_nil (mt String.toList_eq_nil_iff.1 h.1)
    exact ⟨c, more, hcons, by simp [startsName, h.2 c, hcons]⟩
  · exact ⟨_, _, rfl, rfl⟩

theorem ne_of_startsName {c other : Char} (h : startsName c = true)
    (hother : startsName other = false) : c ≠ other := by
  rintro rfl
  cases h.symm.trans hother

/-- The text is over or goes on with something that no bare name would. -/
def EndsName (rest : List Char) : Prop := ∀ c ∈ rest.head?, isBare c = false

theorem name?_text (name : String) {rest : List Char} (hrest : EndsName rest) :
    name? (nameText name ++ rest) = some (name, rest) := by
  unfold nameText
  split
  · next h =>
    obtain ⟨c, more, hcons⟩ := List.exists_cons_of_ne_nil (mt String.toList_eq_nil_iff.1 h.1)
    have hfirst : isBare c = true := h.2 c (by simp [hcons])
    have hline : lineString? (name.toList ++ rest) = none := by
      rw [hcons]
      unfold lineString?
      split
      · next heq => cases heq; cases hfirst
      · next heq => cases heq; cases hfirst
      · rfl
    obtain ⟨htake, hdrop⟩ := takeWhile_dropWhile_append h.2 hrest
    unfold name?
    rw [hline, htake, hdrop]
    split
    · next heq => cases heq
    · split
      · next heq => exact absurd (hcons.symm.trans heq) (List.cons_ne_nil _ _)
      · rw [String.ofList_toList]
  · simp [name?, lineString?_quoted]

theorem skipBlanks_nameText (name : String) (rest : List Char) :
    skipBlanks (nameText name ++ rest) = nameText name ++ rest := by
  obtain ⟨c, more, hcons, hfirst⟩ := nameText_eq_cons name
  simp [skipBlanks, isBlank, hcons, ne_of_startsName hfirst, startsName, isBare]

/-- A name is read as a key without dots, with the blanks on either side of it. -/
theorem key?_text (name : String) {before rest : List Char}
    (hbefore : skipBlanks before = nameText name ++ rest) (hrest : EndsName rest)
    (hdot : (skipBlanks rest).head? ≠ some '.') :
    key? before = some ([], name, skipBlanks rest) := by
  have hnames : names? (depthLimit - 1) before = some ([name], skipBlanks rest) := by
    have hcount : depthLimit - 1 = 78 + 1 := rfl
    rw [hcount, names?, hbefore, name?_text name hrest]
    simp only [Option.bind_eq_bind, Option.bind_some]
    split
    · next heq => exact absurd (by rw [heq]; rfl) hdot
    · rfl
  simp [key?, hnames]

end Cosign.Toml
