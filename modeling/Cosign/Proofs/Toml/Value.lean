-- SUMMARY: Values are read back from TOML text.
import Cosign.Proofs.Toml.Number
import Cosign.Proofs.Toml.Text
import Mathlib.Data.List.Basic

/-!
# Writing values

Every value that can stand behind a key has a text (`Value.text`), with single blanks
after commas and on either side of an equals sign. A value that is not nested too deeply, with
integers that fit into a word and no name twice in an inline table (`Value.Written`), is
read back from its text (`value?_text`), whatever ends it.
-/

namespace Cosign.Toml

/-! ## Texts -/

/-- Texts with commas in between. -/
def separated (texts : List (List Char)) : List Char := [',', ' '].intercalate texts

mutual

/-- The text of a value; a table with a header has none.

Of a number with a fraction and of a date nothing is known, so that any will do. -/
def Value.text : Value → List Char
  | .string text => quoted text
  | .integer value => integerText value
  | .float => ['n', 'a', 'n']
  | .boolean true => ['t', 'r', 'u', 'e']
  | .boolean false => ['f', 'a', 'l', 's', 'e']
  | .dateTime => ['1', '9', '7', '9', '-', '0', '5', '-', '2', '7']
  | .array items => '[' :: (separated (itemTexts items) ++ [']'])
  | .inline entries => '\x7b' :: (separated (entryTexts entries) ++ ['\x7d'])
  | .table .. => []
  | .tables _ => []

def itemTexts : List Value → List (List Char)
  | [] => []
  | item :: rest => item.text :: itemTexts rest

def entryTexts : List (String × Value) → List (List Char)
  | [] => []
  | (name, value) :: rest => (nameText name ++ ' ' :: '=' :: ' ' :: value.text) :: entryTexts rest

end

/-- The text of a name with its value. -/
def entryText (entry : String × Value) : List Char :=
  nameText entry.1 ++ ' ' :: '=' :: ' ' :: entry.2.text

theorem itemTexts_eq_map (items : List Value) : itemTexts items = items.map Value.text := by
  induction items with
  | nil => rfl
  | cons item rest ih => simp [itemTexts, ih]

theorem entryTexts_eq_map (entries : List (String × Value)) :
    entryTexts entries = entries.map entryText := by
  induction entries with
  | nil => rfl
  | cons entry rest ih => simp [entryTexts, entryText, ih]

/-- A value inside `depth` arrays and inline tables that can be told from its text. -/
inductive Value.Written : (depth : Nat) → Value → Prop
  | string {depth : Nat} (text : String) : Written depth (.string text)
  | integer {depth : Nat} {value : Int} (least : -9223372036854775808 ≤ value)
      (most : value ≤ 9223372036854775807) : Written depth (.integer value)
  | float {depth : Nat} : Written depth .float
  | boolean {depth : Nat} (value : Bool) : Written depth (.boolean value)
  | dateTime {depth : Nat} : Written depth .dateTime
  | array {depth : Nat} {items : List Value} (room : depth + 1 < depthLimit)
      (written : ∀ item ∈ items, Written (depth + 1) item) : Written depth (.array items)
  | inline {depth : Nat} {entries : List (String × Value)} (room : depth + 1 < depthLimit)
      (distinct : (entries.map Prod.fst).Nodup)
      (written : ∀ entry ∈ entries, Written (depth + 1) entry.2) : Written depth (.inline entries)

/-! ## What stands around a value -/

/-- A character that lines may begin with in front of a value. -/
def isSkipped (c : Char) : Bool := isBlank c || c == '\n' || c == '\r' || c == '#'

theorem skipLines_cons {c : Char} (h : isSkipped c = false) (more : List Char) :
    skipLines false (c :: more) = c :: more := by
  simp only [isSkipped, Bool.or_eq_false_iff, beq_eq_false_iff_ne] at h
  obtain ⟨⟨⟨hblank, hfeed⟩, hreturn⟩, hcomment⟩ := h
  simp [skipLines, hblank, hreturn, hcomment]

theorem skipBlanks_cons {c : Char} (h : isSkipped c = false) (more : List Char) :
    skipBlanks (c :: more) = c :: more := by
  simp only [isSkipped, Bool.or_eq_false_iff] at h
  simp [skipBlanks, h.1.1.1]

theorem isSkipped_of_isDigit {c : Char} (h : c.isDigit = true) : isSkipped c = false := by
  simp [isSkipped, isBlank, ne_of_isDigit h]

/-- The text of a value is neither empty nor skipped, and does not look like the end of an array. -/
theorem Value.Written.text_eq_cons {depth : Nat} {value : Value} (h : value.Written depth) :
    ∃ c more, value.text = c :: more ∧ isSkipped c = false ∧ c ≠ ']' := by
  cases h with
  | string | float | dateTime | array | inline => exact ⟨_, _, rfl, rfl, by decide⟩
  | boolean value => cases value <;> exact ⟨_, _, rfl, rfl, by decide⟩
  | @integer _ value =>
      obtain ⟨c, more, hcons, hfirst⟩ := integerText_eq_cons value
      refine ⟨c, more, hcons, ?_⟩
      rcases hfirst with hdigit | rfl
      · exact ⟨isSkipped_of_isDigit hdigit, ne_of_isDigit hdigit rfl⟩
      · exact ⟨rfl, by decide⟩

/-! ## Values without others in them -/

section

variable {rest : List Char} (hrest : EndsValue rest)
include hrest

theorem scalar?_integerText {value : Int} (least : -9223372036854775808 ≤ value)
    (most : value ≤ 9223372036854775807) :
    scalar? (integerText value ++ rest) = some (.integer value, rest) := by
  have hnumeral := numeral?_integerText hrest least most
  obtain ⟨c, more, hcons, hfirst⟩ := integerText_eq_cons value
  have hother : ∀ other : Char, other.isDigit = false → other ≠ '-' → c ≠ other := by
    rintro other hdigit hsign rfl
    rcases hfirst with hfirst | hfirst
    · cases hdigit.symm.trans hfirst
    · exact hsign hfirst
  rw [hcons] at hnumeral ⊢
  simpa [scalar?, anyString?, lineString?, boolean?, hother] using hnumeral

theorem scalar?_quoted (text : String) :
    scalar? (quoted text ++ rest) = some (.string text, rest) := by
  have hquote : rest.head? ≠ some '"' := by
    obtain ⟨c, more, rfl, rfl | rfl | rfl | rfl⟩ := hrest <;> simp
  simp [scalar?, anyString?_quoted text hquote]

omit hrest in
theorem scalar?_float : scalar? (Value.float.text ++ rest) = some (.float, rest) := by
  have hnumeral : numeral? ('n' :: 'a' :: 'n' :: rest) = some (.float, rest) := by
    unfold numeral?
    rw [looksLikeMoment_of_not_isDigit rfl]
    rfl
  exact hnumeral

theorem scalar?_dateTime : scalar? (Value.dateTime.text ++ rest) = some (.dateTime, rest) := by
  obtain ⟨c, more, rfl, rfl | rfl | rfl | rfl⟩ := hrest <;> rfl

end

/-! ## Arrays and inline tables -/

/-- A value is read from its text, whatever ends it, if there are steps enough for the text. -/
def Value.ReadsBack (depth : Nat) (value : Value) : Prop :=
  ∀ ⦃steps : Nat⦄ ⦃rest : List Char⦄, 2 * value.text.length ≤ steps → EndsValue rest →
    value? steps depth (value.text ++ rest) = some (value, rest)

theorem separated_singleton (text : List Char) : separated [text] = text :=
  List.intercalate_singleton

theorem separated_cons_cons (first second : List Char) (others : List (List Char)) :
    separated (first :: second :: others) = first ++ ',' :: ' ' :: separated (second :: others) := by
  simp [separated, List.intercalate_cons_cons]

/-- The first of several texts stands in front. -/
theorem separated_cons_eq_append (first : List Char) (others : List (List Char)) :
    ∃ more, separated (first :: others) = first ++ more := by
  cases others with
  | nil => exact ⟨[], by simp [separated_singleton]⟩
  | cons second others => exact ⟨_, separated_cons_cons first second others⟩

section

variable {depth steps : Nat} {text rest : List Char}

section

variable {item : Value} (hwritten : item.Written depth) (hreads : item.ReadsBack depth)
  (hsteps : 2 * item.text.length ≤ steps)
include hwritten hreads hsteps

/-- An item that another follows. -/
theorem items?_comma (met : List Value) (htext : skipLines false text = item.text ++ ',' :: rest) :
    items? (steps + 1) depth met text = items? steps depth (item :: met) rest := by
  obtain ⟨c, more, hcons, -, hopen⟩ := hwritten.text_eq_cons
  have hvalue := hreads hsteps ⟨',', rest, rfl, by decide⟩
  have hafter : skipLines false (',' :: rest) = ',' :: rest := rfl
  rw [hcons, List.cons_append] at htext hvalue
  simp [items?, htext, hopen, hvalue, hafter]

/-- The last item. -/
theorem items?_close (met : List Value) (htext : skipLines false text = item.text ++ ']' :: rest) :
    items? (steps + 1) depth met text = some (.array (met.reverse ++ [item]), rest) := by
  obtain ⟨c, more, hcons, -, hopen⟩ := hwritten.text_eq_cons
  have hvalue := hreads hsteps ⟨']', rest, rfl, by decide⟩
  have hafter : skipLines false (']' :: rest) = ']' :: rest := rfl
  rw [hcons, List.cons_append] at htext hvalue
  simp [items?, htext, hopen, hvalue, hafter]

end

theorem skipLines_itemTexts {item : Value} (h : item.Written depth) (items : List Value) :
    skipLines false (separated ((item :: items).map Value.text) ++ rest) =
      separated ((item :: items).map Value.text) ++ rest := by
  obtain ⟨c, more, hcons, hkept, -⟩ := h.text_eq_cons
  obtain ⟨back, hback⟩ := separated_cons_eq_append item.text (items.map Value.text)
  rw [List.map_cons, hback, hcons]
  exact skipLines_cons hkept _

theorem items?_separated {item : Value} {items : List Value}
    (hitems : ∀ v ∈ item :: items, v.Written depth ∧ v.ReadsBack depth) (met : List Value)
    (htext : skipLines false text = separated ((item :: items).map Value.text) ++ ']' :: rest)
    (hsteps : 2 * (separated ((item :: items).map Value.text)).length < steps) :
    items? steps depth met text = some (.array (met.reverse ++ item :: items), rest) := by
  induction items generalizing item met steps text with
  | nil =>
      obtain ⟨hwritten, hreads⟩ := hitems item List.mem_cons_self
      obtain ⟨steps, rfl⟩ := Nat.exists_eq_add_one_of_ne_zero (Nat.ne_zero_of_lt hsteps)
      simp only [List.map_cons, List.map_nil, separated_singleton] at htext hsteps
      exact items?_close hwritten hreads (by omega) met htext
  | cons next items ih =>
      rw [List.forall_mem_cons] at hitems
      obtain ⟨⟨hwritten, hreads⟩, hothers⟩ := hitems
      obtain ⟨steps, rfl⟩ := Nat.exists_eq_add_one_of_ne_zero (Nat.ne_zero_of_lt hsteps)
      simp only [List.map_cons, separated_cons_cons, List.append_assoc, List.cons_append,
        List.length_append, List.length_cons] at htext hsteps
      have hskip : skipLines false (' ' :: (separated (next.text :: items.map Value.text) ++
          ']' :: rest)) = separated (next.text :: items.map Value.text) ++ ']' :: rest :=
        skipLines_itemTexts (hothers next List.mem_cons_self).1 items
      rw [items?_comma hwritten hreads (by omega) met htext,
        ih hothers (item :: met) hskip (by simp only [List.map_cons]; omega)]
      simp

/-- A plain key that is not taken yet goes to the end of the table. -/
theorem Table.assign?_of_absent {table : Table} {name : String}
    (h : name ∉ table.map Prod.fst) (value : Value) :
    table.assign? [] name value = some (table ++ [(name, value)]) := by
  have hlookup : table.lookup name = none := by
    rw [List.lookup_eq_none_iff]
    intro entry hentry
    rw [bne_iff_ne]
    rintro rfl
    exact h (List.mem_map_of_mem hentry)
  simp [assign?, within?, assign?.change, hlookup]

theorem Table.notMem_of_nodup {filled : Table} {entry : String × Value} {entries : Table}
    (h : ((filled ++ entry :: entries).map Prod.fst).Nodup) : entry.1 ∉ filled.map Prod.fst := by
  rw [List.map_append, List.map_cons] at h
  exact fun hmem => (List.nodup_append.1 h).2.2 _ hmem _ List.mem_cons_self rfl

theorem length_text_le (entry : String × Value) :
    entry.2.text.length ≤ (entryText entry).length := by
  simp only [entryText, List.length_append, List.length_cons]
  omega

/-- A name in front of an equals sign is read as a key. -/
theorem key?_entryText {name : String} {back : List Char}
    (htext : skipBlanks text = nameText name ++ ' ' :: '=' :: back) :
    key? text = some ([], name, '=' :: back) := by
  have hblank : skipBlanks (' ' :: '=' :: back) = '=' :: back := rfl
  have hkey := key?_text name htext (by simp [EndsName, isBare]) (by simp [hblank])
  rwa [hblank] at hkey

theorem Value.Written.skipBlanks_text {value : Value} (h : value.Written depth) :
    skipBlanks (' ' :: (value.text ++ rest)) = value.text ++ rest := by
  obtain ⟨c, more, hcons, hkept, -⟩ := h.text_eq_cons
  rw [hcons]
  exact skipBlanks_cons hkept (more ++ rest)

section

variable {name : String} {value : Value} (hwritten : value.Written depth)
  (hreads : value.ReadsBack depth) (hsteps : 2 * value.text.length ≤ steps)
  {filled : Table} (hnew : name ∉ filled.map Prod.fst)
include hwritten hreads hsteps hnew

/-- An entry that another follows. -/
theorem entries?_comma (htext : skipBlanks text = entryText (name, value) ++ ',' :: rest) :
    entries? (steps + 1) depth filled text =
      entries? steps depth (filled ++ [(name, value)]) rest := by
  have hkey : key? text = some ([], name, '=' :: ' ' :: (value.text ++ ',' :: rest)) :=
    key?_entryText (by simpa [entryText] using htext)
  have hvalue := hreads hsteps ⟨',', rest, rfl, by decide⟩
  have hafter : skipBlanks (',' :: rest) = ',' :: rest := rfl
  simp [entries?, hkey, hwritten.skipBlanks_text, hvalue, Table.assign?_of_absent hnew,
    hafter]

/-- The last entry. -/
theorem entries?_close (htext : skipBlanks text = entryText (name, value) ++ '\x7d' :: rest) :
    entries? (steps + 1) depth filled text = some (.inline (filled ++ [(name, value)]), rest) := by
  have hkey : key? text = some ([], name, '=' :: ' ' :: (value.text ++ '\x7d' :: rest)) :=
    key?_entryText (by simpa [entryText] using htext)
  have hvalue := hreads hsteps ⟨'\x7d', rest, rfl, by decide⟩
  have hafter : skipBlanks ('\x7d' :: rest) = '\x7d' :: rest := rfl
  simp [entries?, hkey, hwritten.skipBlanks_text, hvalue, Table.assign?_of_absent hnew,
    hafter]

end

theorem skipBlanks_entryTexts (entry : String × Value) (entries : List (String × Value))
    (rest : List Char) :
    skipBlanks (separated ((entry :: entries).map entryText) ++ rest) =
      separated ((entry :: entries).map entryText) ++ rest := by
  obtain ⟨more, hmore⟩ := separated_cons_eq_append (entryText entry) (entries.map entryText)
  rw [List.map_cons, hmore, entryText, List.append_assoc, List.append_assoc]
  exact skipBlanks_nameText entry.1 _

theorem entries?_separated {entry : String × Value} {entries filled : List (String × Value)}
    (hentries : ∀ e ∈ entry :: entries, e.2.Written depth ∧ e.2.ReadsBack depth)
    (hdistinct : ((filled ++ entry :: entries).map Prod.fst).Nodup)
    (htext : skipBlanks text = separated ((entry :: entries).map entryText) ++ '\x7d' :: rest)
    (hsteps : 2 * (separated ((entry :: entries).map entryText)).length < steps) :
    entries? steps depth filled text = some (.inline (filled ++ entry :: entries), rest) := by
  induction entries generalizing entry filled steps text with
  | nil =>
      obtain ⟨hwritten, hreads⟩ := hentries entry List.mem_cons_self
      obtain ⟨steps, rfl⟩ := Nat.exists_eq_add_one_of_ne_zero (Nat.ne_zero_of_lt hsteps)
      simp only [List.map_cons, List.map_nil, separated_singleton] at htext hsteps
      have hlength := length_text_le entry
      exact entries?_close hwritten hreads (by omega) (Table.notMem_of_nodup hdistinct) htext
  | cons next entries ih =>
      rw [List.forall_mem_cons] at hentries
      obtain ⟨⟨hwritten, hreads⟩, hothers⟩ := hentries
      obtain ⟨steps, rfl⟩ := Nat.exists_eq_add_one_of_ne_zero (Nat.ne_zero_of_lt hsteps)
      simp only [List.map_cons, separated_cons_cons, List.append_assoc, List.cons_append,
        List.length_append, List.length_cons] at htext hsteps
      have hskip : skipBlanks (' ' :: (separated (entryText next :: entries.map entryText) ++
          '\x7d' :: rest)) = separated (entryText next :: entries.map entryText) ++
            '\x7d' :: rest := skipBlanks_entryTexts next entries _
      have hlength := length_text_le entry
      rw [entries?_comma hwritten hreads (by omega) (Table.notMem_of_nodup hdistinct) htext,
        ih hothers (by simpa using hdistinct) hskip (by simp only [List.map_cons]; omega)]
      simp

end

/-! ## All values -/

/-- A value that is read as a scalar does not begin like an array or an inline table. -/
theorem Value.ReadsBack.of_scalar {depth : Nat} {value : Value} {c : Char} {more : List Char}
    (hcons : value.text = c :: more) (harray : c ≠ '[') (hinline : c ≠ '\x7b')
    (hscalar : ∀ ⦃rest⦄, EndsValue rest → scalar? (value.text ++ rest) = some (value, rest)) :
    value.ReadsBack depth := by
  intro steps rest hsteps hrest
  have hvalue := hscalar hrest
  rw [hcons] at hsteps hvalue ⊢
  obtain ⟨steps, rfl⟩ := Nat.exists_eq_add_one_of_ne_zero (Nat.ne_zero_of_lt hsteps)
  refine (value?.eq_4 depth _ steps ?_ ?_).trans hvalue
  · exact fun _ heq => harray (List.cons.inj heq).1
  · exact fun _ heq => hinline (List.cons.inj heq).1

theorem Value.Written.readsBack {depth : Nat} {value : Value} (h : value.Written depth) :
    value.ReadsBack depth := by
  induction h with
  | string text =>
      exact Value.ReadsBack.of_scalar rfl (by decide) (by decide) fun _ hrest =>
        scalar?_quoted hrest text
  | @integer _ value least most =>
      obtain ⟨c, more, hcons, hfirst⟩ := integerText_eq_cons value
      have hopen : c ≠ '[' ∧ c ≠ '\x7b' := by
        rcases hfirst with hdigit | rfl
        · exact ⟨ne_of_isDigit hdigit rfl, ne_of_isDigit hdigit rfl⟩
        · decide
      exact Value.ReadsBack.of_scalar hcons hopen.1 hopen.2 fun _ hrest =>
        scalar?_integerText hrest least most
  | float => exact Value.ReadsBack.of_scalar rfl (by decide) (by decide) fun _ _ => scalar?_float
  | boolean value =>
      cases value <;> exact Value.ReadsBack.of_scalar rfl (by decide) (by decide) fun _ _ => rfl
  | dateTime => exact Value.ReadsBack.of_scalar rfl (by decide) (by decide) fun _ => scalar?_dateTime
  | @array depth items room written ih =>
      intro steps rest hsteps hrest
      rw [Value.text, itemTexts_eq_map] at hsteps ⊢
      simp only [List.length_cons, List.length_append, List.length_nil] at hsteps
      obtain ⟨steps, rfl⟩ := Nat.exists_eq_add_one_of_ne_zero (Nat.ne_zero_of_lt hsteps)
      rw [List.cons_append, List.append_assoc, value?, if_pos room]
      cases items with
      | nil =>
          obtain ⟨steps, rfl⟩ := Nat.exists_eq_add_one_of_ne_zero (n := steps) (by omega)
          rfl
      | cons item items =>
          exact items?_separated (fun v hv => ⟨written v hv, ih v hv⟩) []
            (skipLines_itemTexts (written item List.mem_cons_self) items) (by omega)
  | @inline depth entries room distinct written ih =>
      intro steps rest hsteps hrest
      rw [Value.text, entryTexts_eq_map] at hsteps ⊢
      simp only [List.length_cons, List.length_append, List.length_nil] at hsteps
      obtain ⟨steps, rfl⟩ := Nat.exists_eq_add_one_of_ne_zero (Nat.ne_zero_of_lt hsteps)
      rw [List.cons_append, List.append_assoc, value?, if_pos room]
      cases entries with
      | nil => rfl
      | cons entry entries =>
          have hskip : skipBlanks (separated ((entry :: entries).map entryText) ++
              (['\x7d'] ++ rest)) = separated ((entry :: entries).map entryText) ++
                '\x7d' :: rest := skipBlanks_entryTexts _ _ _
          obtain ⟨c, more, hcons, hfirst⟩ := nameText_eq_cons entry.1
          obtain ⟨back, hback⟩ := separated_cons_eq_append (entryText entry) (entries.map entryText)
          rw [hskip]
          split
          · next heq =>
            rw [List.map_cons, hback, entryText, hcons] at heq
            exact absurd (List.cons.inj heq).1 (ne_of_startsName hfirst rfl)
          · exact entries?_separated (fun e he => ⟨written e he, ih e he⟩) distinct hskip (by omega)

/-- What is written is read back, up to what follows it. -/
theorem value?_text {value : Value} (h : value.Written 0) {steps : Nat} {rest : List Char}
    (hsteps : value.text.length ≤ steps) (hrest : EndsValue rest) :
    value? (2 * steps + 1) 0 (value.text ++ rest) = some (value, rest) :=
  h.readsBack (by omega) hrest

end Cosign.Toml
