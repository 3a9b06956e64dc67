-- SUMMARY: Drafts: a ledger with pending changes over it, to be committed or discarded.
import Cosign.Changes.Lemmas
import Cosign.Ledger

/-!
# Drafts

A draft is a view that shows a ledger as it would be after some changes and
leaves the ledger alone. Committing carries the changes over into the ledger;
discarding forgets them.
-/

namespace Cosign

structure Draft where
  base : Ledger
  changes : Changes
  /-- The changes are changes of the ledger. -/
  isOver : changes.IsOver (View.find? base)

namespace Draft

/-- The draft without changes. -/
def ofLedger (ledger : Ledger) : Draft := ⟨ledger, .empty, .empty _⟩

instance : View Draft where
  terms draft := draft.base.terms
  find? draft key := draft.changes.find? key (View.find? draft.base key)
  modify draft key change :=
    { draft with
      changes := draft.changes.modify key (View.find? draft.base key) change
      isOver := draft.isOver.modify key change }
  insert draft key entry :=
    let result := draft.changes.insert key (View.find? draft.base key) entry
    (result.1, { draft with changes := result.2, isOver := draft.isOver.insert key entry })
  erase draft key :=
    let result := draft.changes.erase key (View.find? draft.base key)
    (result.1, { draft with changes := result.2, isOver := draft.isOver.erase key })

theorem find?_eq (draft : Draft) (key : Key) :
    View.find? draft key = draft.changes.find? key (View.find? draft.base key) := rfl

/-- What an insertion comes to is what it comes to for the changes. -/
theorem insert_eq (draft : Draft) (key : Key) (entry : Entry) {answer : Except LedgerError Unit}
    {changes : Changes}
    (h : draft.changes.insert key (View.find? draft.base key) entry = (answer, changes)) :
    ∃ isOver, View.insert draft key entry = (answer, { draft with changes, isOver }) := by
  have hover := draft.isOver.insert key entry
  rw [h] at hover
  exact ⟨hover, by simp only [View.insert, h]⟩

theorem erase_eq (draft : Draft) (key : Key) {answer : Except LedgerError Entry}
    {changes : Changes}
    (h : draft.changes.erase key (View.find? draft.base key) = (answer, changes)) :
    ∃ isOver, View.erase draft key = (answer, { draft with changes, isOver }) := by
  have hover := draft.isOver.erase key
  rw [h] at hover
  exact ⟨hover, by simp only [View.erase, h]⟩

instance : LawfulView Draft where
  terms_modify _ _ _ := rfl
  find?_modify draft key change other := by
    by_cases h : other = key
    · subst h
      rw [if_pos rfl, find?_eq, find?_eq]
      exact Changes.find?_modify _ _ _ _
    · rw [if_neg h, find?_eq, find?_eq]
      exact Changes.find?_modify_of_ne _ h _ _ _
  insert_of_some draft key entry old h := by
    obtain ⟨_, hinsert⟩ := insert_eq draft key entry (Changes.insert_of_find?_eq_some h entry)
    exact hinsert
  insert_of_none draft key entry h := by
    obtain ⟨change, hchanges, hchange⟩ := Changes.insert_of_find?_eq_none h entry
    obtain ⟨_, hinsert⟩ := insert_eq draft key entry hchanges
    refine ⟨_, hinsert, rfl, fun other => ?_⟩
    by_cases hother : other = key
    · simp [find?_eq, hother, hchange]
    · rw [if_neg hother, find?_eq, find?_eq]
      exact Changes.find?_record_of_ne _ hother _ _
  erase_of_none draft key h := by
    obtain ⟨_, herase⟩ := erase_eq draft key (Changes.erase_of_find?_eq_none h)
    exact herase
  erase_of_some draft key entry h := by
    obtain ⟨after, hchanges, hkey, hothers⟩ := Changes.erase_of_find?_eq_some draft.isOver h
    obtain ⟨_, herase⟩ := erase_eq draft key hchanges
    refine ⟨_, herase, rfl, fun other => ?_⟩
    by_cases hother : other = key
    · simpa [find?_eq, hother] using hkey
    · rw [if_neg hother, find?_eq, find?_eq]
      exact hothers other hother

/-- A ledger with one change carried out. -/
def settle (ledger : Ledger) (key : Key) (change : Change) : Ledger :=
  match change.current? with
  | some entry => { ledger with entries := ledger.entries.insert key entry }
  | none => { ledger with entries := ledger.entries.erase key }

/-- The ledger with every change that makes a difference carried out, and their number. -/
def commit (draft : Draft) : Ledger × Nat :=
  (draft.changes.toList.foldl (fun ledger (key, change) => settle ledger key change) draft.base,
    draft.changes.size)

/-- The ledger without the changes. -/
def discard (draft : Draft) : Ledger := draft.base

end Draft

end Cosign
