-- SUMMARY: Pending changes against a base: one change a key, coalesced as operations follow.
import Cosign.LedgerError

/-!
# Changes

A set of changes says, for some keys, how their entries differ from those of a
base ledger. Further operations on the same key fold into its one change:
creating and erasing leaves nothing, erasing and inserting is an update of what
was there, and an update keeps the first previous entry. An update may end up
where it started; `toList` and `size` leave such changes out.

Each operation is given the base's entry at its key, which matters only the
first time the key is met. Inserting and erasing take the change at the key out
before they look at it. If they fail they put it back.
-/

namespace Cosign

/-- How the entry at one key differs from the base. -/
inductive Change where
  | created (current : Entry)
  | updated (previous current : Entry)
  | deleted (previous : Entry)
deriving DecidableEq

namespace Change

def current? : Change → Option Entry
  | created current => some current
  | updated _ current => some current
  | deleted _ => none

def previous? : Change → Option Entry
  | created _ => none
  | updated previous _ => some previous
  | deleted previous => some previous

/-- The change that also changes the current entry. -/
def modify (change : Entry → Entry) : Change → Change
  | created current => created (change current)
  | updated previous current => updated previous (change current)
  | deleted previous => deleted previous

theorem previous?_modify (f : Entry → Entry) (change : Change) :
    (change.modify f).previous? = change.previous? := by
  cases change <;> rfl

theorem current?_modify (f : Entry → Entry) (change : Change) :
    (change.modify f).current? = change.current?.map f := by
  cases change <;> rfl

/-- The entry is what it was. -/
def isIdle (change : Change) : Bool := change.previous? == change.current?

end Change

structure Changes where
  recorded : Std.ExtTreeMap Key Change

namespace Changes

def empty : Changes := ⟨∅⟩

def get? (changes : Changes) (key : Key) : Option Change := changes.recorded[key]?

/-- The key has been met, though its entry may be what it was. -/
def contains (changes : Changes) (key : Key) : Bool := changes.recorded.contains key

/-- The changes with the one at a key replaced. -/
def record (changes : Changes) (key : Key) (change : Change) : Changes :=
  ⟨changes.recorded.insert key change⟩

/-- The changes without the one at a key. -/
def forget (changes : Changes) (key : Key) : Changes := ⟨changes.recorded.erase key⟩

/-- The entry at a key after the changes. -/
def find? (changes : Changes) (key : Key) (base : Option Entry) : Option Entry :=
  match changes.get? key with
  | some change => change.current?
  | none => base

/-- The changes after the entry at a key is modified, if there is one. -/
def modify (changes : Changes) (key : Key) (base : Option Entry) (change : Entry → Entry) :
    Changes :=
  match changes.get? key with
  | some known => changes.record key (known.modify change)
  | none =>
    match base with
    | some entry => changes.record key (.updated entry (change entry))
    | none => changes

/-- Puts an entry at a free key. -/
def insert (changes : Changes) (key : Key) (base : Option Entry) (entry : Entry) :
    Except LedgerError Unit × Changes :=
  let rest := changes.forget key
  match changes.get? key with
  | some (.deleted previous) => (.ok (), rest.record key (.updated previous entry))
  | some known => (.error (.entryExists key), rest.record key known)
  | none =>
    match base with
    | some _ => (.error (.entryExists key), rest)
    | none => (.ok (), rest.record key (.created entry))

/-- Erases the entry at an occupied key, and gives it. -/
def erase (changes : Changes) (key : Key) (base : Option Entry) :
    Except LedgerError Entry × Changes :=
  let rest := changes.forget key
  match changes.get? key with
  | some (.created current) => (.ok current, rest)
  | some (.updated previous current) => (.ok current, rest.record key (.deleted previous))
  | some (.deleted previous) => (.error (.entryNotFound key), rest.record key (.deleted previous))
  | none =>
    match base with
    | some entry => (.ok entry, rest.record key (.deleted entry))
    | none => (.error (.entryNotFound key), rest)

/-! ## Listing -/

/-- The changes that make a difference, in the order of keys. -/
def toList (changes : Changes) : List (Key × Change) :=
  changes.recorded.toList.filter fun (_, change) => !change.isIdle

/-- The number of changes that make a difference. -/
def size (changes : Changes) : Nat := changes.toList.length

def isEmpty (changes : Changes) : Bool := changes.size == 0

/-- Every change starts from the entry that the base has at its key. -/
def IsOver (changes : Changes) (base : Key → Option Entry) : Prop :=
  ∀ key change, changes.get? key = some change → change.previous? = base key

end Changes

end Cosign
