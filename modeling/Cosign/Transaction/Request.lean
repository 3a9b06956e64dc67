-- SUMMARY: Requests: transactions whose operation is known, and the checks on a new list.
import Cosign.Transaction.Basic

/-!
# Requests

A transaction that asks for something definite is a request to replace or to
destroy the owner's list. The list of a replacement is checked without the
ledger, in a fixed order: the number of signers, duplicates, weights, the owner
among the signers, and whether the quorum can be reached. `preflight` does both
and is the whole judgement before the ledger is consulted.
-/

namespace Cosign

/-! ## Checks -/

def leastSigners : Nat := 1

def mostSigners : Nat := 8

/-- The first of two equal neighbours. -/
def repeated? : List AccountId → Option AccountId
  | a :: b :: rest => if a = b then some a else repeated? (b :: rest)
  | _ => none

namespace Payload

def checkCount (payload : Payload) : Except Malformed Unit :=
  let count := payload.signers.length
  if leastSigners ≤ count ∧ count ≤ mostSigners then .ok ()
  else .error (.signerCount count leastSigners mostSigners)

/-- The signers may be given in any order; a duplicate is the smallest account that occurs twice. -/
def checkDistinct (payload : Payload) : Except Malformed Unit :=
  match repeated? (arrange id (payload.signers.map (·.account))) with
  | some account => .error (.duplicateSigner account)
  | none => .ok ()

def checkWeights (payload : Payload) : Except Malformed Unit :=
  match payload.signers.find? (·.weight == 0) with
  | some signer => .error (.zeroWeight signer.account)
  | none => .ok ()

def checkOwner (payload : Payload) (owner : AccountId) : Except Malformed Unit :=
  if owner ∈ payload.signers.map (·.account) then .error (.selfReference owner) else .ok ()

def checkQuorum (payload : Payload) : Except Malformed Unit :=
  let weight := totalWeight payload.signers
  if payload.quorum = 0 ∨ weight < payload.quorum.toNat then
    .error (.quorumUnreachable payload.quorum weight)
  else .ok ()

/-- Whether the list can be stored for `owner`; the first check that fails decides. -/
def check (payload : Payload) (owner : AccountId) : Except Malformed Unit := do
  payload.checkCount
  payload.checkDistinct
  payload.checkWeights
  payload.checkOwner owner
  payload.checkQuorum

end Payload

/-! ## Requests -/

inductive Action where
  | replace (payload : Payload)
  | destroy
deriving DecidableEq

structure Request where
  account : AccountId
  priorBalance : UInt64
  action : Action
deriving DecidableEq

/-- A destruction has nothing to check. -/
def Request.check (request : Request) : Except Malformed Unit :=
  match request.action with
  | .replace payload => payload.check request.account
  | .destroy => .ok ()

namespace Transaction

/-- The request a transaction makes, if its fields make sense. -/
def request (tx : Transaction) : Except Malformed Request := do
  match ← tx.operation with
  | .set payload => return ⟨tx.account, tx.priorBalance, .replace payload⟩
  | .destroy => return ⟨tx.account, tx.priorBalance, .destroy⟩
  | .invalid => .error .unknownOperation

/-- The request a transaction makes, if it passes every check that needs no ledger. -/
def preflight (tx : Transaction) : Except Malformed Request := do
  let request ← tx.request
  request.check
  return request

end Transaction

end Cosign
