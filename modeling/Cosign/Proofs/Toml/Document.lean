-- SUMMARY: Documents are read back from TOML text.
import Cosign.Proofs.Toml.Value
import Cosign.Toml.Document

/-!
# Writing documents

A layout is the plain form of a document: values first and then sections, with a line for
every value and every header, all in any order (`Layout`). If no name stands twice in the
document or in a section and every value can be written, the document is read back
(`parse_text`).
-/

namespace Cosign.Toml

/-! ## Layouts -/

/-- A document as it is written: what stands in front of the first header, and the sections. -/
structure Layout where
  values : Table
  sections : List (String × Table)

namespace Layout

def valueLine (entry : String × Value) : List Char := entryText entry ++ ['\n']

def headerLine (name : String) : List Char := '[' :: (nameText name ++ [']', '\n'])

def sectionText (s : String × Table) : List Char := headerLine s.1 ++ s.2.flatMap valueLine

def text (layout : Layout) : String :=
  .ofList (layout.values.flatMap valueLine ++ layout.sections.flatMap sectionText)

/-- A section as an entry of its document. -/
def headed (s : String × Table) : String × Value := (s.1, .table .header s.2)

/-- The table that the text describes. -/
def table (layout : Layout) : Table :=
  layout.values ++ layout.sections.map headed

/-- No name stands twice, and every value can be told from its text. -/
structure Proper (layout : Layout) : Prop where
  distinct : (layout.table.map Prod.fst).Nodup
  distinct_section : ∀ s ∈ layout.sections, (s.2.map Prod.fst).Nodup
  written : ∀ entry ∈ layout.values, entry.2.Written 0
  written_section : ∀ s ∈ layout.sections, ∀ entry ∈ s.2, entry.2.Written 0

end Layout

open Layout

/-! ## Lines -/

theorem skipLines_nameText (name : String) (rest : List Char) :
    skipLines false (nameText name ++ rest) = nameText name ++ rest := by
  obtain ⟨c, more, hcons, hfirst⟩ := nameText_eq_cons name
  have hkept : isSkipped c = false := by
    simp [isSkipped, isBlank, ne_of_startsName hfirst, startsName, isBare]
  rw [hcons]
  exact skipLines_cons hkept _

theorem assignment?_valueLine {name : String} {value : Value} (h : value.Written 0) {steps : Nat}
    (hsteps : (valueLine (name, value)).length ≤ steps) (rest : List Char) :
    assignment? steps (valueLine (name, value) ++ rest) = some (⟨[], name, value⟩, rest) := by
  have htext : valueLine (name, value) ++ rest =
      nameText name ++ ' ' :: '=' :: ' ' :: (value.text ++ '\n' :: rest) := by
    simp [valueLine, entryText]
  have hkey : key? (valueLine (name, value) ++ rest) =
      some ([], name, '=' :: ' ' :: (value.text ++ '\n' :: rest)) := by
    refine key?_entryText ?_
    rw [htext, skipBlanks_nameText]
  have hvalue : value? (2 * steps + 1) 0 (value.text ++ '\n' :: rest) =
      some (value, '\n' :: rest) := by
    refine value?_text h ?_ ⟨'\n', rest, rfl, by decide⟩
    have hlength := length_text_le (name, value)
    simp only [valueLine, List.length_append] at hsteps hlength
    omega
  have hend : finishLine? ('\n' :: rest) = some rest := rfl
  simp [assignment?, hkey, h.skipBlanks_text, hvalue, hend]

theorem header?_headerLine (name : String) (rest : List Char) :
    header? (nameText name ++ ']' :: '\n' :: rest) = some (.table [] name, rest) := by
  have hkey : key? (nameText name ++ ']' :: '\n' :: rest) =
      some ([], name, ']' :: '\n' :: rest) :=
    key?_text name (skipBlanks_nameText name _) (by simp [EndsName, isBare])
      (by simp [skipBlanks, isBlank])
  have hend : finishLine? ('\n' :: rest) = some rest := rfl
  obtain ⟨c, more, hcons, hfirst⟩ := nameText_eq_cons name
  rw [hcons, List.cons_append] at hkey ⊢
  simp [header?, ne_of_startsName hfirst, startsName, isBare, hkey, hend]

/-! ## Sections -/

/-- The assignment of a value to a name without dots. -/
def Assignment.plain (entry : String × Value) : Assignment := ⟨[], entry.1, entry.2⟩

/-- The section under a header without dots. -/
def Section.plain (s : String × Table) : Section := ⟨.table [] s.1, s.2.map Assignment.plain⟩

section

variable (met : List Section) (header : Header) (assignments : List Assignment) {steps : Nat}

theorem sectionsFrom_valueLine {entry : String × Value} (h : entry.2.Written 0)
    (hsteps : (valueLine entry).length ≤ steps) (rest : List Char) :
    sectionsFrom met header assignments (steps + 1) (valueLine entry ++ rest) =
      sectionsFrom met header (Assignment.plain entry :: assignments) steps rest := by
  obtain ⟨name, value⟩ := entry
  obtain ⟨c, more, hcons, hfirst⟩ := nameText_eq_cons name
  have hassignment := assignment?_valueLine h hsteps rest
  have hline : ∃ back, valueLine (name, value) ++ rest = c :: back := by
    simp [valueLine, entryText, hcons]
  have hskip : skipLines false (valueLine (name, value) ++ rest) =
      valueLine (name, value) ++ rest := by
    simp only [valueLine, entryText, List.append_assoc]
    exact skipLines_nameText name _
  obtain ⟨back, hback⟩ := hline
  rw [hback] at hassignment hskip ⊢
  have hopen : c ≠ '[' := ne_of_startsName hfirst rfl
  simp [sectionsFrom, hskip, hopen, hassignment, Assignment.plain]

theorem sectionsFrom_headerLine (name : String) (rest : List Char) :
    sectionsFrom met header assignments (steps + 1) (headerLine name ++ rest) =
      sectionsFrom (⟨header, assignments.reverse⟩ :: met) (.table [] name) [] steps rest := by
  have hheader := header?_headerLine name rest
  have hskip : skipLines false ('[' :: (nameText name ++ ']' :: '\n' :: rest)) =
      '[' :: (nameText name ++ ']' :: '\n' :: rest) := skipLines_cons rfl _
  simp [sectionsFrom, headerLine, hskip, hheader]

end

/-- Lines with values are read in order, and the steps that are left suffice for what follows. -/
theorem exists_sectionsFrom_values (met : List Section) (header : Header)
    (assignments : List Assignment) {values : Table} (h : ∀ entry ∈ values, entry.2.Written 0)
    {steps : Nat} {rest : List Char}
    (hsteps : (values.flatMap valueLine ++ rest).length < steps) :
    ∃ remaining, rest.length < remaining ∧
      sectionsFrom met header assignments steps (values.flatMap valueLine ++ rest) =
        sectionsFrom met header ((values.map Assignment.plain).reverse ++ assignments) remaining
          rest := by
  induction values generalizing assignments steps with
  | nil => exact ⟨steps, hsteps, rfl⟩
  | cons entry values ih =>
      rw [List.forall_mem_cons] at h
      obtain ⟨steps, rfl⟩ := Nat.exists_eq_add_one_of_ne_zero (Nat.ne_zero_of_lt hsteps)
      have hline : 0 < (valueLine entry).length := by simp [valueLine]
      simp only [List.flatMap_cons, List.append_assoc, List.length_append] at hsteps ⊢
      have hothers : (values.flatMap valueLine ++ rest).length < steps := by
        rw [List.length_append]
        omega
      obtain ⟨remaining, hremaining, hread⟩ :=
        ih (Assignment.plain entry :: assignments) h.2 hothers
      refine ⟨remaining, hremaining, ?_⟩
      rw [sectionsFrom_valueLine met header assignments h.1 (by omega), hread]
      simp

/-- The sections of a layout are read one after the other, each with its assignments in order. -/
theorem sectionsFrom_text (met : List Section) (header : Header)
    {values : Table} {sections : List (String × Table)}
    (hvalues : ∀ entry ∈ values, entry.2.Written 0)
    (hsections : ∀ s ∈ sections, ∀ entry ∈ s.2, entry.2.Written 0) {steps : Nat}
    (hsteps : (values.flatMap valueLine ++ sections.flatMap sectionText).length < steps) :
    sectionsFrom met header [] steps
        (values.flatMap valueLine ++ sections.flatMap sectionText) =
      some (met.reverse ++ ⟨header, values.map Assignment.plain⟩ ::
        sections.map Section.plain) := by
  induction sections generalizing met header values steps with
  | nil =>
      obtain ⟨remaining, hremaining, hread⟩ :=
        exists_sectionsFrom_values met header [] hvalues hsteps
      obtain ⟨remaining, rfl⟩ := Nat.exists_eq_add_one_of_ne_zero (Nat.ne_zero_of_lt hremaining)
      rw [hread]
      simp [sectionsFrom, skipLines]
  | cons s sections ih =>
      rw [List.forall_mem_cons] at hsections
      obtain ⟨remaining, hremaining, hread⟩ :=
        exists_sectionsFrom_values met header [] hvalues hsteps
      obtain ⟨remaining, rfl⟩ := Nat.exists_eq_add_one_of_ne_zero (Nat.ne_zero_of_lt hremaining)
      have hheader : 0 < (headerLine s.1).length := by simp [headerLine]
      rw [hread]
      simp only [List.flatMap_cons, sectionText, List.append_assoc, List.length_append]
        at hremaining ⊢
      rw [sectionsFrom_headerLine, ih _ _ hsections.1 hsections.2 (by
        rw [List.length_append]
        omega)]
      simp [Section.plain]

/-! ## Tables -/

/-- Assignments to new names put them behind what is there. -/
theorem Table.fill?_plain {table entries : Table}
    (h : ((table ++ entries).map Prod.fst).Nodup) :
    table.fill? (entries.map Assignment.plain) = some (table ++ entries) := by
  induction entries generalizing table with
  | nil => simp [fill?]
  | cons entry entries ih =>
      have hnext : Table.fill? (table ++ [entry]) (entries.map Assignment.plain) =
          some (table ++ [entry] ++ entries) := ih (by simpa using h)
      have hassign := Table.assign?_of_absent (Table.notMem_of_nodup h) entry.2
      simp only [fill?, List.map_cons, List.foldlM_cons, Assignment.plain] at hnext ⊢
      simp [hassign, hnext]

theorem Table.alter?_of_absent {table : Table} {name : String} (h : name ∉ table.map Prod.fst)
    (change : Option Value → Option Value) :
    table.alter? name change = (change none).map fun value => table ++ [(name, value)] := by
  induction table with
  | nil => cases hchange : change none <;> simp [alter?, hchange]
  | cons entry table ih =>
      rw [List.map_cons, List.mem_cons, not_or] at h
      cases hchange : change none <;> simp [alter?, ih h.2, hchange, Ne.symm h.1]

theorem Section.addTo?_plain {document : Table} {s : String × Table}
    (hnew : s.1 ∉ document.map Prod.fst) (hdistinct : (s.2.map Prod.fst).Nodup) :
    (Section.plain s).addTo? document = some (document ++ [headed s]) := by
  have hfill : Table.fill? [] (s.2.map Assignment.plain) = some s.2 := Table.fill?_plain hdistinct
  simp [addTo?, plain, Table.within?, Table.alter?_of_absent hnew, open?, hfill, headed]

/-- Headers of new names put their sections behind what is there. -/
theorem foldlM_addTo?_plain {document : Table} {sections : List (String × Table)}
    (hdistinct : ((document ++ sections.map headed).map Prod.fst).Nodup)
    (hsections : ∀ s ∈ sections, (s.2.map Prod.fst).Nodup) :
    (sections.map Section.plain).foldlM (fun document s => s.addTo? document) document =
      some (document ++ sections.map headed) := by
  induction sections generalizing document with
  | nil => simp
  | cons s sections ih =>
      rw [List.forall_mem_cons] at hsections
      have hothers : ((document ++ [headed s] ++ sections.map headed).map Prod.fst).Nodup := by
        simpa using hdistinct
      have hadd := Section.addTo?_plain (Table.notMem_of_nodup hdistinct) hsections.1
      simp [hadd, ih hothers hsections.2]

/-! ## Documents -/

/-- No document that is written begins with a byte order mark. -/
theorem Layout.text_ne_mark (layout : Layout) (rest : List Char) :
    layout.text.toList ≠ '\ufeff' :: rest := by
  unfold text
  rw [String.toList_ofList]
  rcases layout with ⟨_ | ⟨entry, values⟩, sections⟩
  · rcases sections with _ | ⟨s, sections⟩ <;> simp [sectionText, headerLine]
  · obtain ⟨c, more, hcons, hfirst⟩ := nameText_eq_cons entry.1
    simp [valueLine, entryText, hcons, ne_of_startsName hfirst, startsName, isBare]

theorem sections?_text {layout : Layout} (h : layout.Proper) :
    sections? layout.text.toList =
      some (⟨.document, layout.values.map Assignment.plain⟩ :: layout.sections.map Section.plain) := by
  have hread := sectionsFrom_text [] .document h.written h.written_section (Nat.lt_succ_self _)
  unfold sections?
  split
  · next heq => exact absurd heq (layout.text_ne_mark _)
  · unfold text
    rw [String.toList_ofList]
    exact hread

/-- Proper layouts are read back. -/
theorem parse_text {layout : Layout} (h : layout.Proper) :
    parse layout.text = some layout.table := by
  have hdistinct : ((layout.values ++ layout.sections.map headed).map Prod.fst).Nodup := h.distinct
  have hvalues : Section.addTo? ⟨.document, layout.values.map Assignment.plain⟩ [] =
      some ([] ++ layout.values) := by
    rw [List.map_append] at hdistinct
    exact Table.fill?_plain (List.nodup_append.1 hdistinct).1
  have hsections := foldlM_addTo?_plain hdistinct h.distinct_section
  simp [parse, sections?_text h, hvalues, hsections, table]

end Cosign.Toml
