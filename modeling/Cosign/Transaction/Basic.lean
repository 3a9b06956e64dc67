-- SUMMARY: Signer list transactions as they are submitted, and what their fields ask for.
import Cosign.Arrangement
import Cosign.Rejection

/-!
# Transactions

A transaction sets or destroys the signer list of an account. Its fields may be
missing, so it has to be read first:

    quorum      signers    operation
    not zero    given      set
    zero        absent     destroy
    otherwise              invalid

A signer without account or weight is an error of its own, which comes before
the question of the operation. The signers of a set are put in order of their
accounts.
-/

namespace Cosign

/-- A signer as submitted. -/
structure RawSigner where
  account : Option AccountId := none
  weight : Option UInt16 := none
deriving DecidableEq

def RawSigner.ofSigner (signer : Signer) : RawSigner :=
  ⟨some signer.account, some signer.weight⟩

/-- The signer, if both its fields are given. -/
def RawSigner.complete? (raw : RawSigner) : Option Signer := do
  return ⟨← raw.account, ← raw.weight⟩

structure Transaction where
  account : AccountId
  quorum : UInt32 := 0
  signers : Option (List RawSigner) := none
  /-- The account's balance before the fee of this transaction. -/
  priorBalance : UInt64 := 0
deriving DecidableEq

/-- The list a transaction asks to store. -/
structure Payload where
  quorum : UInt32
  signers : List Signer
deriving DecidableEq

/-- What the fields of a transaction ask for. -/
inductive Operation where
  | set (payload : Payload)
  | destroy
  | invalid
deriving DecidableEq

namespace Transaction

/-- The transaction that sets a signer list. -/
def set (account : AccountId) (quorum : UInt32) (signers : List Signer) (priorBalance : UInt64) :
    Transaction :=
  { account, quorum, signers := some (signers.map .ofSigner), priorBalance }

/-- The transaction that destroys the signer list. -/
def destroy (account : AccountId) (priorBalance : UInt64) : Transaction :=
  { account, priorBalance }

/-- The signers, the first of them at `index`, unless one is incomplete. -/
def completeSigners (index : Nat) : List RawSigner → Except Malformed (List Signer)
  | [] => .ok []
  | raw :: rest =>
    match raw.complete? with
    | some signer => return signer :: (← completeSigners (index + 1) rest)
    | none => .error (.signerFormat index)

/-- Reads the operation off the fields. -/
def operation (tx : Transaction) : Except Malformed Operation :=
  match tx.signers with
  | none => .ok (if tx.quorum = 0 then .destroy else .invalid)
  | some raw => do
    let signers ← completeSigners 0 raw
    return if tx.quorum = 0 then .invalid
      else .set ⟨tx.quorum, arrange (·.account) signers⟩

end Transaction

end Cosign
