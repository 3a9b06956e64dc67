-- SUMMARY: Signer lists: who may sign together for an account, and what holding the list costs.
import Cosign.Identifier
import Cosign.Saturating

/-!
# Signer lists

A signer list names accounts with weights; together they can sign for the
owner once their weights reach the quorum. Holding a list counts against the
owner's reserve: lists of the older accounting cost two units and one for each
signer, lists of the current accounting one unit in all. A list remembers under
which accounting it was stored.
-/

namespace Cosign

structure Signer where
  account : AccountId
  weight : UInt16
deriving DecidableEq

/-! ## Accounting -/

/-- How a list was charged when it was stored. -/
inductive Accounting where
  | legacy
  | current
deriving DecidableEq

namespace Accounting

/-- The flag of a list that counts as a single unit. -/
def oneUnitFlag : UInt32 := 0x00010000

def flags : Accounting → UInt32
  | legacy => 0
  | current => oneUnitFlag

def ofFlags (flags : UInt32) : Accounting :=
  if flags &&& oneUnitFlag != 0 then current else legacy

/-- Owner-count units of a list with `count` signers. -/
def units (mode : Accounting) (count : Nat) : UInt32 :=
  match mode with
  | legacy => Saturating.add32 2 (Saturating.word32 count)
  | current => 1

end Accounting

/-! ## Lists -/

/-- The sum of some signers' weights. -/
def totalWeight (signers : List Signer) : Nat :=
  signers.foldr (fun signer total => signer.weight.toNat + total) 0

structure SignerList where
  quorum : UInt32
  listId : UInt32 := 0
  signers : List Signer
  accounting : Accounting
  /-- The page of the owner's directory that names the list. -/
  page : UInt64 := 0
deriving DecidableEq

namespace SignerList

def flags (list : SignerList) : UInt32 := list.accounting.flags

/-- The units the owner was charged for the list. -/
def units (list : SignerList) : UInt32 := list.accounting.units list.signers.length

end SignerList

end Cosign
