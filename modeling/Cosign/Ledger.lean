-- SUMMARY: The ledger: entries by key under given terms, and how two ledgers differ.
import Cosign.View.Lawful

/-!
# Ledgers

A ledger maps keys to entries and carries its terms. It is itself a view: what
is done to it takes effect at once. Accounts are put into it directly; everything
else goes through the operations of a view.
-/

namespace Cosign

structure Ledger where
  entries : Std.ExtTreeMap Key Entry
  terms : Terms

namespace Ledger

/-- The ledger without entries. -/
def empty (terms : Terms) : Ledger := ⟨∅, terms⟩

def size (ledger : Ledger) : Nat := ledger.entries.size

/-- Keys and entries, in the order of keys. -/
def toList (ledger : Ledger) : List (Key × Entry) := ledger.entries.toList

instance : View Ledger where
  terms := Ledger.terms
  find? ledger key := ledger.entries[key]?
  modify ledger key change := { ledger with entries := ledger.entries.modify key change }
  insert ledger key entry :=
    if ledger.entries.contains key then (.error (.entryExists key), ledger)
    else (.ok (), { ledger with entries := ledger.entries.insert key entry })
  erase ledger key :=
    match ledger.entries[key]? with
    | some entry => (.ok entry, { ledger with entries := ledger.entries.erase key })
    | none => (.error (.entryNotFound key), ledger)

theorem find?_eq (ledger : Ledger) (key : Key) :
    View.find? ledger key = ledger.entries[key]? := rfl

instance : LawfulView Ledger where
  terms_modify _ _ _ := rfl
  find?_modify ledger key change other := by
    by_cases h : other = key
    · subst h
      simp [find?_eq, View.modify]
    · simp [find?_eq, View.modify, Std.ExtTreeMap.getElem?_modify, h, Ne.symm h]
  insert_of_some ledger key entry old h := by
    rw [find?_eq] at h
    simp [View.insert, Std.ExtTreeMap.contains_eq_isSome_getElem?, h]
  insert_of_none ledger key entry h := by
    rw [find?_eq] at h
    refine ⟨{ ledger with entries := ledger.entries.insert key entry }, ?_, rfl,
      fun other => ?_⟩
    · simp [View.insert, Std.ExtTreeMap.contains_eq_isSome_getElem?, h]
    · by_cases hother : other = key
      · simp [find?_eq, hother]
      · simp [find?_eq, Std.ExtTreeMap.getElem?_insert, hother, Ne.symm hother]
  erase_of_none ledger key h := by
    rw [find?_eq] at h
    simp [View.erase, h]
  erase_of_some ledger key entry h := by
    rw [find?_eq] at h
    refine ⟨{ ledger with entries := ledger.entries.erase key }, ?_, rfl, fun other => ?_⟩
    · simp [View.erase, h]
    · by_cases hother : other = key
      · simp [find?_eq, hother]
      · simp [find?_eq, Std.ExtTreeMap.getElem?_erase, hother, Ne.symm hother]

/-- The ledger with an account's root stored in its slot, whatever was there before. -/
def putAccount (ledger : Ledger) (root : AccountRoot) : Ledger :=
  { ledger with
    entries := ledger.entries.insert (Slot.account root.account).key (.accountRoot root) }

def setRules (ledger : Ledger) (rules : Rules) : Ledger :=
  { ledger with terms := { ledger.terms with rules := rules } }

def setFees (ledger : Ledger) (fees : Fees) : Ledger :=
  { ledger with terms := { ledger.terms with fees := fees } }

/-- The keys at which two ledgers hold different entries, one of them possibly none, in order. -/
def changedKeys (before after : Ledger) : List Key :=
  (before.entries.insertMany after.entries.toList).keys.filter fun key =>
    before.entries[key]? != after.entries[key]?

end Ledger

end Cosign
