-- SUMMARY: What operations on changes do to the entries shown, and that failing ones do nothing.
import Cosign.Changes.Basic

/-!
# Lemmas on changes

Changes that are made with the entries of a base remain changes of that base
(`IsOver`). To the entries that `find?` shows, each operation does what its name
says: modifying maps the entry at its key, inserting fills a free key, erasing
frees an occupied one, and all other keys show what they showed before. One that
fails has put back what it took out, and leaves the changes as they were
(`insert_of_error`, `erase_of_error`).
-/

namespace Cosign.Changes

/-! ## Recording and forgetting -/

theorem get?_record (changes : Changes) (key other : Key) (change : Change) :
    (changes.record key change).get? other =
      if other = key then some change else changes.get? other := by
  simp only [record, get?, Std.ExtTreeMap.getElem?_insert, Std.LawfulEqCmp.compare_eq_iff_eq]
  by_cases h : other = key
  · simp [h]
  · simp [h, Ne.symm h]

theorem get?_forget (changes : Changes) (key other : Key) :
    (changes.forget key).get? other = if other = key then none else changes.get? other := by
  simp only [forget, get?, Std.ExtTreeMap.getElem?_erase, Std.LawfulEqCmp.compare_eq_iff_eq]
  by_cases h : other = key
  · simp [h]
  · simp [h, Ne.symm h]

/-- Changes are determined by the change at each key. -/
theorem ext_of_get? {a b : Changes} (h : ∀ key, a.get? key = b.get? key) : a = b := by
  cases a
  cases b
  exact congrArg mk (Std.ExtTreeMap.ext_getElem? h)

/-- What is recorded takes the place of what was there, so that need not be forgotten before. -/
@[simp] theorem record_forget (changes : Changes) (key : Key) (change : Change) :
    (changes.forget key).record key change = changes.record key change := by
  refine ext_of_get? fun other => ?_
  rw [get?_record, get?_record, get?_forget]
  split <;> rfl

/-- A change that is put back as it was makes no difference. -/
theorem record_self {changes : Changes} {key : Key} {known : Change}
    (h : changes.get? key = some known) : changes.record key known = changes := by
  refine ext_of_get? fun other => ?_
  rw [get?_record]
  split
  · next heq => rw [heq, h]
  · rfl

/-- There is nothing to take out at a key that has not been met. -/
theorem forget_of_get?_eq_none {changes : Changes} {key : Key} (h : changes.get? key = none) :
    changes.forget key = changes := by
  refine ext_of_get? fun other => ?_
  rw [get?_forget]
  split
  · next heq => rw [heq, h]
  · rfl

/-! ## Failures -/

/-- An insertion that fails leaves the changes as they were. -/
theorem insert_of_error {changes : Changes} {key : Key} {base : Option Entry} {entry : Entry}
    {error : LedgerError} (h : (changes.insert key base entry).1 = .error error) :
    (changes.insert key base entry).2 = changes := by
  unfold insert at h ⊢
  cases hknown : changes.get? key with
  | some known =>
    rw [hknown] at h
    cases known with
    | created | updated => simp only [record_forget, record_self hknown]
    | deleted => cases h
  | none =>
    rw [hknown] at h
    cases base with
    | some old => exact forget_of_get?_eq_none hknown
    | none => cases h

/-- An erasure that fails leaves the changes as they were. -/
theorem erase_of_error {changes : Changes} {key : Key} {base : Option Entry} {error : LedgerError}
    (h : (changes.erase key base).1 = .error error) : (changes.erase key base).2 = changes := by
  unfold erase at h ⊢
  cases hknown : changes.get? key with
  | some known =>
    rw [hknown] at h
    cases known with
    | created | updated => cases h
    | deleted => simp only [record_forget, record_self hknown]
  | none =>
    rw [hknown] at h
    cases base with
    | some entry => cases h
    | none => exact forget_of_get?_eq_none hknown

/-! ## Changes of a base -/

theorem IsOver.empty (base : Key → Option Entry) : Changes.empty.IsOver base := by
  intro key change h
  simp [Changes.empty, get?] at h

theorem IsOver.record {changes : Changes} {base : Key → Option Entry} (hover : changes.IsOver base)
    {key : Key} {change : Change} (h : change.previous? = base key) :
    (changes.record key change).IsOver base := by
  intro other found hfound
  rw [get?_record] at hfound
  split at hfound
  · next heq =>
    cases hfound
    rw [h, heq]
  · exact hover other found hfound

theorem IsOver.modify {changes : Changes} {base : Key → Option Entry}
    (hover : changes.IsOver base) (key : Key) (f : Entry → Entry) :
    (changes.modify key (base key) f).IsOver base := by
  unfold Changes.modify
  cases hknown : changes.get? key with
  | some known => exact hover.record (by rw [Change.previous?_modify, hover key known hknown])
  | none =>
    cases hbase : base key with
    | some entry => exact hover.record (by rw [hbase]; rfl)
    | none => exact hover

theorem IsOver.forget {changes : Changes} {base : Key → Option Entry} (hover : changes.IsOver base)
    (key : Key) : (changes.forget key).IsOver base := by
  intro other found hfound
  rw [get?_forget] at hfound
  split at hfound
  · cases hfound
  · exact hover other found hfound

theorem IsOver.insert {changes : Changes} {base : Key → Option Entry} (hover : changes.IsOver base)
    (key : Key) (entry : Entry) : (changes.insert key (base key) entry).2.IsOver base := by
  have hrest := hover.forget key
  unfold Changes.insert
  cases hknown : changes.get? key with
  | some known =>
    have hprevious := hover key known hknown
    cases known with
    | created | updated | deleted => exact hrest.record hprevious
  | none =>
    cases hbase : base key with
    | some old => exact hrest
    | none => exact hrest.record (by rw [hbase]; rfl)

theorem IsOver.erase {changes : Changes} {base : Key → Option Entry} (hover : changes.IsOver base)
    (key : Key) : (changes.erase key (base key)).2.IsOver base := by
  have hrest := hover.forget key
  unfold Changes.erase
  cases hknown : changes.get? key with
  | some known =>
    have hprevious := hover key known hknown
    cases known with
    | created => exact hrest
    | updated | deleted => exact hrest.record hprevious
  | none =>
    cases hbase : base key with
    | some entry => exact hrest.record (by rw [hbase]; rfl)
    | none => exact hrest

/-! ## Entries shown -/

@[simp] theorem find?_record (changes : Changes) (key : Key) (change : Change)
    (base : Option Entry) :
    (changes.record key change).find? key base = change.current? := by
  simp [find?, get?_record]

theorem find?_record_of_ne (changes : Changes) {key other : Key} (h : other ≠ key)
    (change : Change) (base : Option Entry) :
    (changes.record key change).find? other base = changes.find? other base := by
  simp [find?, get?_record, h]

theorem find?_modify (changes : Changes) (key : Key) (base : Option Entry) (f : Entry → Entry) :
    (changes.modify key base f).find? key base = (changes.find? key base).map f := by
  unfold Changes.modify
  cases hknown : changes.get? key with
  | some known =>
    rw [find?_record, find?, hknown]
    exact Change.current?_modify f known
  | none =>
    cases base with
    | some entry =>
      rw [find?_record, find?, hknown]
      rfl
    | none => simp [find?, hknown]

theorem find?_modify_of_ne (changes : Changes) {key other : Key} (h : other ≠ key)
    (base base' : Option Entry) (f : Entry → Entry) :
    (changes.modify key base f).find? other base' = changes.find? other base' := by
  unfold Changes.modify
  cases changes.get? key with
  | some known => exact find?_record_of_ne _ h _ _
  | none =>
    cases base with
    | some entry => exact find?_record_of_ne _ h _ _
    | none => rfl

/-- An occupied key cannot be inserted, and nothing is done. -/
theorem insert_of_find?_eq_some {changes : Changes} {key : Key} {base : Option Entry}
    {old : Entry} (h : changes.find? key base = some old) (entry : Entry) :
    changes.insert key base entry = (.error (.entryExists key), changes) := by
  have hanswer : (changes.insert key base entry).1 = .error (.entryExists key) := by
    unfold find? at h
    unfold insert
    split at h
    · next known hknown =>
      rw [hknown]
      cases known with
      | created | updated => rfl
      | deleted => cases h
    · next hknown => rw [hknown, h]
  exact Prod.ext hanswer (insert_of_error hanswer)

/-- A free key takes the entry. -/
theorem insert_of_find?_eq_none {changes : Changes} {key : Key} {base : Option Entry}
    (h : changes.find? key base = none) (entry : Entry) :
    ∃ change, changes.insert key base entry = (.ok (), changes.record key change) ∧
      change.current? = some entry := by
  unfold find? at h
  unfold insert
  simp only [record_forget]
  split at h
  · next known hknown =>
    rw [hknown]
    cases known with
    | created | updated => cases h
    | deleted previous => exact ⟨_, rfl, rfl⟩
  · next hknown =>
    rw [hknown, h]
    exact ⟨_, rfl, rfl⟩

/-- A free key cannot be erased, and nothing is done. -/
theorem erase_of_find?_eq_none {changes : Changes} {key : Key} {base : Option Entry}
    (h : changes.find? key base = none) :
    changes.erase key base = (.error (.entryNotFound key), changes) := by
  have hanswer : (changes.erase key base).1 = .error (.entryNotFound key) := by
    unfold find? at h
    unfold erase
    split at h
    · next known hknown =>
      rw [hknown]
      cases known with
      | created | updated => cases h
      | deleted => rfl
    · next hknown => rw [hknown, h]
  exact Prod.ext hanswer (erase_of_error hanswer)

/-- Erasing gives the entry and frees its key, and no other. -/
theorem erase_of_find?_eq_some {changes : Changes} {base : Key → Option Entry}
    (hover : changes.IsOver base) {key : Key} {entry : Entry}
    (h : changes.find? key (base key) = some entry) :
    ∃ after, changes.erase key (base key) = (.ok entry, after) ∧
      after.find? key (base key) = none ∧
      ∀ other, other ≠ key →
        after.find? other (base other) = changes.find? other (base other) := by
  unfold find? at h
  unfold erase
  simp only [record_forget]
  split at h
  · next known hknown =>
    rw [hknown]
    cases known with
    | created current =>
      cases h
      refine ⟨_, rfl, ?_, fun other hother => ?_⟩
      · simp [find?, get?_forget, ← hover key _ hknown, Change.previous?]
      · simp [find?, get?_forget, hother]
    | updated previous current =>
      cases h
      exact ⟨_, rfl, find?_record _ _ _ _, fun other hother => find?_record_of_ne _ hother _ _⟩
    | deleted => cases h
  · next hknown =>
    rw [hknown, h]
    exact ⟨_, rfl, find?_record _ _ _ _, fun other hother => find?_record_of_ne _ hother _ _⟩

end Cosign.Changes
