-- SUMMARY: Tokens that are written one after the other are read back.
import Cosign.Json.Token
import Cosign.Proofs.Text

/-!
# Reading tokens back

The text of a token says which token it is, unless the token stands for no text or for
a number that is not an integer (`Token.IsPlain`). It also says where it ends, except
that digits run into digits. So the tokens of a text are found again if no number
follows a number (`Token.scan_text`).
-/

namespace Cosign.Json

/-! ## Strings -/

theorem Piece.ofCode_control {code : Nat} (h : code < 32) :
    Piece.ofCode code = .char (Char.ofNat code) := by
  unfold ofCode
  rw [if_neg (by omega), if_neg (by omega)]

/-- Every character is read back from the way it stands in a string. -/
theorem scanPieces_escape (c : Char) (met : List Piece) (rest : List Char) :
    scanPieces met (escape c ++ rest) = scanPieces (.char c :: met) rest := by
  unfold escape
  split
  case h_8 hquote hbackslash _ _ _ _ _ =>
    split
    · next hcontrol =>
      have hcode : c.toNat < 256 := by omega
      simp [scanPieces, Hex.number?_of_code hcode, Piece.ofCode_control hcontrol, Char.ofNat_toNat]
    · next hvisible =>
      rw [List.singleton_append, scanPieces.eq_def]
      split
      · next heq => cases heq
      · next heq => exact absurd (List.cons.inj heq).1 hquote
      · next heq => exact absurd (List.cons.inj heq).1 hbackslash
      · next heq => exact absurd (List.cons.inj heq).1 hbackslash
      · next heq =>
        obtain ⟨rfl, rfl⟩ := List.cons.inj heq
        rw [if_neg (not_or.2 ⟨hvisible, hbackslash⟩)]
  -- The others have an escape of one letter.
  all_goals simp [scanPieces, shortEscape?]

theorem scanPieces_text (chars : List Char) (met : List Piece) (rest : List Char) :
    scanPieces met (chars.flatMap escape ++ '"' :: rest) =
      some (met.reverse ++ chars.map Piece.char, rest) := by
  induction chars generalizing met with
  | nil => simp [scanPieces]
  | cons c chars ih =>
      rw [List.flatMap_cons, List.append_assoc, scanPieces_escape, ih]
      simp

theorem Piece.join_map_char (chars : List Char) : Piece.join (chars.map char) = some chars := by
  induction chars with
  | nil => rfl
  | cons c chars ih => simp [join, ih]

theorem scanLiteral_text (value : String) (rest : List Char) :
    scanLiteral (value.toList.flatMap escape ++ '"' :: rest) = some (some value, rest) := by
  unfold scanLiteral
  rw [scanPieces_text]
  simp [Piece.join_map_char]

/-! ## Numbers -/

/-- A character that a number could go on with. -/
def continuesNumber (c : Char) : Bool := c.isDigit || c == '.' || c == 'e' || c == 'E'

/-- The text is over or goes on with something else than a number would. -/
def EndsNumber (rest : List Char) : Prop := ∀ c ∈ rest.head?, continuesNumber c = false

theorem EndsNumber.not_isDigit {rest : List Char} (h : EndsNumber rest) :
    ∀ c ∈ rest.head?, c.isDigit = false := by
  intro c hc
  have hnot := h c hc
  simp only [continuesNumber, Bool.or_eq_false_iff] at hnot
  exact hnot.1.1.1

theorem scanDigits_append {digits rest : List Char} (hne : digits ≠ [])
    (hdigits : ∀ c ∈ digits, c.isDigit = true) (hrest : EndsNumber rest) :
    scanDigits (digits ++ rest) = some (digits, rest) := by
  obtain ⟨htake, hdrop⟩ := takeWhile_dropWhile_append hdigits hrest.not_isDigit
  unfold scanDigits
  rw [htake, hdrop]
  cases digits with
  | nil => exact absurd rfl hne
  | cons => rfl

theorem scanWhole_toDigits (n : Nat) {rest : List Char} (hrest : EndsNumber rest) :
    scanWhole (Nat.toDigits 10 n ++ rest) = some (Nat.toDigits 10 n, rest) := by
  have hdigits : ∀ c ∈ Nat.toDigits 10 n, c.isDigit = true := fun _ => isDigit_of_mem_decimal
  unfold scanWhole
  rw [scanDigits_append Nat.toDigits_ne_nil hdigits hrest]
  split
  · next second more _ heq =>
    rcases Nat.eq_zero_or_pos n with rfl | hpos
    · cases heq
    · have hhead := head?_toDigits_ne hpos
      rw [(Prod.mk.inj (Option.some.inj heq)).1] at hhead
      exact absurd rfl hhead
  · rfl

theorem decimal_toDigits (n : Nat) : decimal (Nat.toDigits 10 n) = n := by
  have hvalue : Nat.ofDigitChars 10 (Nat.toDigits 10 n) 0 = n :=
    Nat.ofDigitChars_toDigits (by decide) (by decide)
  have hstep : (fun value (c : Char) => value * 10 + (c.toNat - 48)) =
      fun value c => 10 * value + (c.toNat - '0'.toNat) := by
    funext value c
    rw [Nat.mul_comm]
    rfl
  unfold decimal
  rw [hstep]
  exact hvalue

theorem EndsNumber.scanFraction {rest : List Char} (h : EndsNumber rest) :
    scanFraction rest = some ([], rest) := by
  unfold Json.scanFraction
  split
  · next more => cases h '.' rfl
  · rfl

theorem EndsNumber.scanExponent {rest : List Char} (h : EndsNumber rest) :
    scanExponent rest = some ([], rest) := by
  unfold Json.scanExponent
  split
  · next c more =>
    rw [if_neg]
    rintro (rfl | rfl)
    · cases h 'e' rfl
    · cases h 'E' rfl
  · rfl

section

variable {text whole rest : List Char} (hwhole : scanWhole text = some (whole, rest))
  (hrest : EndsNumber rest)
include hwhole hrest

theorem scanNumber_of_scanWhole (hsign : text.head? ≠ some '-') :
    scanNumber text = some (.ofDigits false whole, rest) := by
  cases text with
  | nil => cases hwhole
  | cons c text =>
      have hunsigned : c ≠ '-' := by simpa using hsign
      simp [scanNumber, hunsigned, hwhole, hrest.scanFraction, hrest.scanExponent]

theorem scanNumber_minus : scanNumber ('-' :: text) = some (.ofDigits true whole, rest) := by
  simp [scanNumber, hwhole, hrest.scanFraction, hrest.scanExponent]

end

/-- Every integer is read back. -/
theorem scanNumber_text (value : Int) {rest : List Char} (hrest : EndsNumber rest) :
    scanNumber ((Number.integer value).text ++ rest) = some (.integer value, rest) := by
  cases value with
  | ofNat n =>
      have hunsigned : (Nat.toDigits 10 n ++ rest).head? ≠ some '-' := by
        rw [List.head?_append_of_ne_nil _ Nat.toDigits_ne_nil]
        intro hhead
        cases isDigit_of_mem_decimal (List.mem_of_head? hhead)
      refine (scanNumber_of_scanWhole (scanWhole_toDigits n hrest) hrest hunsigned).trans ?_
      rw [Number.ofDigits.eq_def, decimal_toDigits]
      rfl
  | negSucc n =>
      refine (scanNumber_minus (scanWhole_toDigits (n + 1) hrest) hrest).trans ?_
      rw [Number.ofDigits.eq_def, decimal_toDigits]
      rfl

/-! ## Tokens -/

namespace Token

/-- The text of the token says which token it is. -/
def IsPlain : Token → Prop
  | number value => ∃ n, value = .integer n
  | string value => ∃ text, value = some text
  | _ => True

def isNumber : Token → Bool
  | number _ => true
  | _ => false

/-- No number follows a number. -/
abbrev Spaced (tokens : List Token) : Prop :=
  tokens.IsChain fun a b => a.isNumber = true → b.isNumber = false

/-- A text that begins like a number is read as one. -/
theorem next?_of_number {c : Char} {text : List Char} (h : c.isDigit = true ∨ c = '-') :
    next? (c :: text) = (scanNumber (c :: text)).map fun (value, rest) => (number value, rest) := by
  have hother : ∀ other : Char, other.isDigit = false → other ≠ '-' → c ≠ other := by
    rintro other hdigit hsign rfl
    rcases h with h | h
    · cases hdigit.symm.trans h
    · exact hsign h
  rw [next?.eq_def]
  split
  all_goals first
    | rfl
    | next heq => exact absurd (List.cons.inj heq).1 (hother _ rfl (by decide))

theorem exists_integer_text_eq_cons (n : Int) :
    ∃ c text, (Number.integer n).text = c :: text ∧ (c.isDigit = true ∨ c = '-') := by
  have htext : (Number.integer n).text = integerText n := by cases n <;> rfl
  rw [htext]
  exact integerText_eq_cons n

/-- How the text of a token begins. -/
theorem exists_text_eq_cons {token : Token} (h : token.IsPlain) :
    ∃ c text, token.text = c :: text ∧ isBlank c = false ∧
      (token.isNumber = false → continuesNumber c = false) := by
  cases token with
  | number value =>
      obtain ⟨n, rfl⟩ := h
      obtain ⟨c, text, hcons, hfirst⟩ := exists_integer_text_eq_cons n
      refine ⟨c, text, hcons, ?_, nofun⟩
      by_contra hblank
      simp only [isBlank, Bool.not_eq_false, Bool.or_eq_true, beq_iff_eq] at hblank
      rcases hblank with ((rfl | rfl) | rfl) | rfl <;> revert hfirst <;> decide
  | string value =>
      obtain ⟨text, rfl⟩ := h
      exact ⟨_, _, rfl, rfl, fun _ => rfl⟩
  | bool value => cases value <;> exact ⟨_, _, rfl, rfl, fun _ => rfl⟩
  | openArray | closeArray | openObject | closeObject | comma | colon | null =>
      exact ⟨_, _, rfl, rfl, fun _ => rfl⟩

/-- The next token is the one that is written, if it can be told where its text ends. -/
theorem next?_text {token : Token} (h : token.IsPlain) {rest : List Char}
    (hrest : token.isNumber = true → EndsNumber rest) :
    next? (token.text ++ rest) = some (token, rest) := by
  cases token with
  | number value =>
      obtain ⟨n, rfl⟩ := h
      obtain ⟨c, text, hcons, hfirst⟩ := exists_integer_text_eq_cons n
      have hscan := scanNumber_text n (hrest rfl)
      rw [hcons] at hscan
      simp only [Token.text]
      rw [hcons, List.cons_append, next?_of_number hfirst, ← List.cons_append, hscan]
      rfl
  | string value =>
      obtain ⟨value, rfl⟩ := h
      have hscan := scanLiteral_text value rest
      simp [Token.text, Literal.text, next?, hscan]
  | bool value => cases value <;> rfl
  | openArray | closeArray | openObject | closeObject | comma | colon | null => rfl

/-- What follows a number in a spaced sequence does not go on with it. -/
theorem Spaced.endsNumber {token : Token} {tokens : List Token} (h : Spaced (token :: tokens))
    (hplain : ∀ other ∈ tokens, other.IsPlain) (hnumber : token.isNumber = true) :
    EndsNumber (tokens.flatMap Token.text) := by
  cases tokens with
  | nil => exact nofun
  | cons next tokens =>
      obtain ⟨c, text, hcons, -, hother⟩ := exists_text_eq_cons (hplain next List.mem_cons_self)
      have hnext : next.isNumber = false := (List.isChain_cons_cons.1 h).1 hnumber
      intro first hfirst
      rw [List.flatMap_cons, hcons] at hfirst
      cases hfirst
      exact hother hnext

theorem scanFrom_text {tokens : List Token} (hplain : ∀ token ∈ tokens, token.IsPlain)
    (hspaced : Spaced tokens) {steps : Nat}
    (hsteps : (tokens.flatMap Token.text).length ≤ steps) (met : List Token) :
    scanFrom met steps (tokens.flatMap Token.text) = some (met.reverse ++ tokens) := by
  induction tokens generalizing steps met with
  | nil => simp [scanFrom]
  | cons token tokens ih =>
      rw [List.forall_mem_cons] at hplain
      obtain ⟨c, text, hcons, hblank, -⟩ := exists_text_eq_cons hplain.1
      have hnext := next?_text hplain.1 (hspaced.endsNumber hplain.2)
      rw [List.flatMap_cons] at hsteps ⊢
      rw [hcons, List.cons_append] at hsteps hnext ⊢
      obtain ⟨steps, rfl⟩ := Nat.exists_eq_add_one_of_ne_zero (Nat.ne_zero_of_lt hsteps)
      simp only [scanFrom, hblank, Bool.false_eq_true, if_false, hnext]
      rw [ih hplain.2 hspaced.of_cons]
      · simp
      · simp only [List.length_cons, List.length_append] at hsteps
        omega

/-- Plain tokens are read back from their text, unless a number follows a number. -/
theorem scan_text {tokens : List Token} (hplain : ∀ token ∈ tokens, token.IsPlain)
    (hspaced : Spaced tokens) : scan (tokens.flatMap Token.text) = some tokens :=
  scanFrom_text hplain hspaced (Nat.le_refl _) []

end Token

end Cosign.Json
