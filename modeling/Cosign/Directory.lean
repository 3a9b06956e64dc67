-- SUMMARY: Directories: paged lists of keys, with insertion at the end and removal by page number.
import Cosign.Procedure

/-!
# Directories

A directory lists keys on numbered pages that are linked into a ring:

    root (page 0) → page 1 → page 2 → back to the root

New keys go to the end of the last page. A full last page gets a successor whose
number is one higher. Whoever inserts a key is told its page and gives that page
back to remove the key; a page that does not hold the key is an error, and no
other page is searched. A page that runs empty is unlinked and erased, and so is
the root once nothing else is left, unless the caller wants to keep it.
-/

namespace Cosign

namespace Directory

/-! ## Pages -/

/-- A page that the directory's links lead to. -/
def page (root : Key) (index : UInt64) : Procedure LedgerError DirectoryPage := do
  let found ← Procedure.find? (Slot.page root index).key
  Procedure.ofOption (.brokenDirectoryLink root index) (found.bind Entry.directoryPage?)

/-- Changes a page that the directory's links lead to. -/
def modifyPage (root : Key) (index : UInt64) (change : DirectoryPage → DirectoryPage) :
    Procedure LedgerError Unit := do
  let found ← Procedure.update (Slot.page root index).key (Entry.mapDirectoryPage change)
  let _ ← Procedure.ofOption (.brokenDirectoryLink root index) (found.bind Entry.directoryPage?)

/-- The number after `index`, if there is one below the limit. -/
def successor? (limits : Limits) (index : UInt64) : Option UInt64 :=
  if index.toNat + 1 < limits.pages.toNat then some (index + 1) else none

/-! ## Insertion -/

/-- Appends a page that holds `key` after the last one. -/
def appendPage (root : Key) (owner : Option AccountId) (last fresh : UInt64) (key : Key) :
    Procedure LedgerError UInt64 := do
  modifyPage root last fun page => { page with next := fresh }
  modifyPage root 0 fun page => { page with previous := fresh }
  Procedure.insertNew (Slot.page root fresh).key
    (.directoryPage { root, owner, keys := [key], previous := last })
  return fresh

/-- Adds `key` at the end of the directory and gives the page it went to.

New pages belong to `owner`. -/
def insert (root : Key) (owner : Option AccountId) (key : Key) :
    Procedure LedgerError UInt64 := do
  let limits := (← Procedure.getTerms).limits
  match ← Procedure.find? root with
  | none =>
    Procedure.insertNew root (.directoryPage { root, owner, keys := [key] })
    return 0
  | some entry =>
    let first ← Procedure.ofOption (.brokenDirectoryLink root 0) entry.directoryPage?
    let last := first.previous
    let tail ← page root last
    if tail.keys.length < limits.keysPerPage.toNat then
      modifyPage root last (·.push key)
      return last
    else
      match successor? limits last with
      | some fresh => appendPage root owner last fresh key
      | none => .fail (.directoryFull root)

/-! ## Removal -/

/-- Puts the root away, which has run empty.

Alone it is erased; with a single other page that is empty too, both are. -/
def retireRoot (root : Key) (previous next : UInt64) (keepRoot : Bool) :
    Procedure LedgerError Unit := do
  if previous = 0 ∧ next = 0 then
    unless keepRoot do
      let _ ← Procedure.remove root
  else if previous = next then
    let other ← page root previous
    if other.keys.isEmpty then
      let _ ← Procedure.remove (Slot.page root previous).key
      modifyPage root 0 fun page => { page with next := 0, previous := 0 }
      unless keepRoot do
        let _ ← Procedure.remove root

/-- Unlinks and erases a page that has run empty and is not the root.

An empty root that is left alone goes with it. -/
def retirePage (root : Key) (index previous next : UInt64) (keepRoot : Bool) :
    Procedure LedgerError Unit := do
  if previous = index ∨ next = index then
    .fail (.brokenDirectoryLink root index)
  modifyPage root previous fun page => { page with next := next }
  modifyPage root next fun page => { page with previous := previous }
  let _ ← Procedure.remove (Slot.page root index).key
  if !keepRoot ∧ previous = 0 ∧ next = 0 then
    match (← Procedure.find? root).bind Entry.directoryPage? with
    | some first =>
      if first.keys.isEmpty then
        let _ ← Procedure.remove root
    | none => return

/-- Removes the first occurrence of `key` on page `index`. -/
def remove (root : Key) (index : UInt64) (key : Key) (keepRoot : Bool) :
    Procedure LedgerError Unit := do
  let found ← Procedure.update (Slot.page root index).key (Entry.mapDirectoryPage (·.drop key))
  match found.bind Entry.directoryPage? with
  | none => .fail (.directoryEntryMissing index key)
  | some page =>
    if key ∉ page.keys then
      .fail (.directoryEntryMissing index key)
    else if (page.drop key).keys.isEmpty then
      if index = 0 then
        retireRoot root page.previous page.next keepRoot
      else
        retirePage root index page.previous page.next keepRoot

/-! ## Listing -/

/-- The pages from one on that lead back to the root, after those met in reverse.

At most `budget` more may be read. -/
def pagesFrom (root : Key) :
    (budget : Nat) → (met : List DirectoryPage) → DirectoryPage →
      Procedure LedgerError (List DirectoryPage)
  | 0, met, current =>
    if current.next = 0 then return (current :: met).reverse
    else .fail (.brokenDirectoryLink root current.next)
  | budget + 1, met, current =>
    if current.next = 0 then return (current :: met).reverse
    else do
      let following ← page root current.next
      pagesFrom root budget (current :: met) following

/-- All keys in the order of pages. A directory without a root page has none. -/
def keys (root : Key) : Procedure LedgerError (List Key) := do
  let limits := (← Procedure.getTerms).limits
  match (← Procedure.find? root).bind Entry.directoryPage? with
  | none => return []
  | some first =>
    let pages ← pagesFrom root (limits.pages.toNat - 1) [] first
    return pages.flatMap (·.keys)

end Directory

/-! ## Owner directories -/

/-! The directory of everything an account owns. -/

namespace OwnerDirectory

def insert (owner : AccountId) (key : Key) : Procedure LedgerError UInt64 :=
  Directory.insert (ownerDirectoryKey owner) (some owner) key

def remove (owner : AccountId) (index : UInt64) (key : Key) : Procedure LedgerError Unit :=
  Directory.remove (ownerDirectoryKey owner) index key false

def keys (owner : AccountId) : Procedure LedgerError (List Key) :=
  Directory.keys (ownerDirectoryKey owner)

end OwnerDirectory

end Cosign
