-- SUMMARY: The audit of a ledger: whether counts, directories and signer lists agree.
import Cosign.Ledger
import Cosign.Directory

/-!
# Audit

The audit takes every account to own nothing but its signer list and checks that

- the owner count is what the list was charged,
- the directory can be read and names only entries that exist,
- the list is named exactly once, on the page it remembers, and
- its signers ascend.

It reports what it finds account by account, in the order of their keys.
-/

namespace Cosign

inductive Violation where
  | ownerCountMismatch (account : AccountId) (expected actual : UInt32)
  /-- The directory does not name the list exactly once. -/
  | directoryEntryCount (account : AccountId) (occurrences : Nat)
  | wrongPageHint (account : AccountId) (page : UInt64)
  /-- The directory names a key without entry. -/
  | danglingDirectoryEntry (account : AccountId) (key : Key)
  | unsortedSigners (account : AccountId)
  | unreadableDirectory (account : AccountId) (cause : LedgerError)
deriving DecidableEq

namespace Audit

/-- A finding, if there is reason for it. -/
def finding (reason : Bool) (violation : Violation) : List Violation :=
  if reason then [violation] else []

/-- Neighbours stand in strictly ascending order of account. -/
def ascends : List Signer → Bool
  | a :: b :: rest => a.account < b.account && ascends (b :: rest)
  | _ => true

/-- The owner count against the units of the list. -/
def checkCount (root : AccountRoot) (list? : Option SignerList) : List Violation :=
  let expected := (list?.map SignerList.units).getD 0
  finding (expected != root.ownerCount)
    (.ownerCountMismatch root.account expected root.ownerCount)

/-- The list against the keys of its owner's directory. -/
def checkList (ledger : Ledger) (owner : AccountId) (keys : List Key) (list : SignerList) :
    List Violation :=
  let occurrences := keys.count (signersKey owner)
  let hinted := (View.page? ledger (ownerDirectoryKey owner) list.page).any
    fun page => page.keys.contains (signersKey owner)
  finding (occurrences != 1) (.directoryEntryCount owner occurrences) ++
    finding (!hinted) (.wrongPageHint owner list.page) ++
    finding (!ascends list.signers) (.unsortedSigners owner)

/-- What is wrong with an account's directory, or else with the list it should name. -/
def checkDirectory (ledger : Ledger) (owner : AccountId) (list? : Option SignerList) :
    List Violation :=
  match ((OwnerDirectory.keys owner).run ledger).1 with
  | .error cause => [.unreadableDirectory owner cause]
  | .ok keys =>
    (keys.filter fun key => (View.find? ledger key).isNone).map
        (.danglingDirectoryEntry owner) ++
      list?.elim [] (checkList ledger owner keys)

def checkAccount (ledger : Ledger) (root : AccountRoot) : List Violation :=
  let list? := View.signerList? ledger root.account
  checkCount root list? ++ checkDirectory ledger root.account list?

end Audit

/-- Everything the audit finds. -/
def audit (ledger : Ledger) : List Violation :=
  (ledger.toList.filterMap fun (_, entry) => entry.accountRoot?).flatMap
    (Audit.checkAccount ledger)

end Cosign
