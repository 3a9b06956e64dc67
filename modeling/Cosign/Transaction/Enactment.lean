-- SUMMARY: Carrying requests out: replacing, destroying and removing signer lists on a view.
import Cosign.Directory
import Cosign.Transaction.Request

/-!
# Enactment

Storing a list costs its owner units; removing one gives back exactly what the
list says it was charged, whatever the rules are by then. A replacement removes
the old list first, so that the reserve is asked for the new count alone.

A procedure that fails here leaves its changes behind. Whoever runs it works on
a draft and discards it.
-/

namespace Cosign

/-- What a transaction did to the ledger. -/
inductive Effect where
  | replaced (accounting : Accounting) (charged refunded : UInt32) (page : UInt64)
      (ownerCount : UInt32)
  | destroyed (refunded : UInt32)
deriving DecidableEq

namespace SignerList

/-! ## Removal -/

/-- Removes the signer list of an account, if it has one, and gives the units refunded. -/
def remove (owner : AccountId) : Procedure Rejection UInt32 := do
  match ← Procedure.signerList? owner with
  | none => return 0
  | some list =>
    (OwnerDirectory.remove owner list.page (signersKey owner)).mapError fun cause =>
      .internal (.directoryRemove owner cause)
    let _ ← (Procedure.adjustOwnerCount owner (-Int64.ofNat list.units.toNat)).mapError fun _ =>
      Rejection.internal (.accountMissing owner)
    let _ ← (Procedure.remove (signersKey owner)).mapError Rejection.ofLedgerError
    return list.units

/-- Removes the list at its owner's request, which takes another way to sign. -/
def destroy (owner : AccountId) : Procedure Rejection Effect := do
  let root ← Procedure.ofOption (.internal (.accountMissing owner)) (← Procedure.account? owner)
  if root.hasAlternativeKey then
    return .destroyed (← remove owner)
  else
    .fail (.claimed (.noAlternativeKey owner))

/-! ## Storage -/

/-- A directory without room is refused; any other failure means it is broken. -/
def rejectInsertion (owner : AccountId) : LedgerError → Rejection
  | .directoryFull _ => .claimed (.directoryFull owner)
  | cause => .ofLedgerError cause

/-- Stores a new list for an account that has none, and gives its page and the new owner count. -/
def store (owner : AccountId) (payload : Payload) (accounting : Accounting) :
    Procedure Rejection (UInt64 × UInt32) := do
  let key := signersKey owner
  let page ← (OwnerDirectory.insert owner key).mapError (rejectInsertion owner)
  let list : SignerList :=
    { quorum := payload.quorum, signers := payload.signers, accounting, page }
  (Procedure.insertNew key (.signerList list)).mapError Rejection.ofLedgerError
  let ownerCount ← (Procedure.adjustOwnerCount owner (Int64.ofNat list.units.toNat)).mapError
    fun _ => Rejection.internal (.accountMissing owner)
  return (page, ownerCount)

/-- Stores a list in place of any the account has, if its balance covers the reserve. -/
def replace (owner : AccountId) (priorBalance : UInt64) (payload : Payload) :
    Procedure Rejection Effect := do
  let refunded ← remove owner
  let root ← Procedure.ofOption (.internal (.accountMissing owner)) (← Procedure.account? owner)
  let terms ← Procedure.getTerms
  let accounting := terms.rules.accounting
  let charged := accounting.units payload.signers.length
  let required := terms.fees.accountReserve (Saturating.add32 root.ownerCount charged)
  if priorBalance < required then
    .fail (.claimed (.insufficientReserve priorBalance required))
  else
    let (page, ownerCount) ← store owner payload accounting
    return .replaced accounting charged refunded page ownerCount

end SignerList

/-! ## Requests and transactions -/

/-- Carries a checked request out. -/
def Request.enact (request : Request) : Procedure Rejection Effect :=
  match request.action with
  | .replace payload => SignerList.replace request.account request.priorBalance payload
  | .destroy => SignerList.destroy request.account

/-- Checks a transaction and carries it out. -/
def Transaction.enact (tx : Transaction) : Procedure Rejection Effect :=
  match tx.preflight with
  | .ok request => request.enact
  | .error cause => .fail (.malformed cause)

end Cosign
