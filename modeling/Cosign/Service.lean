-- SUMMARY: The service that applies transactions to a ledger, all or nothing, and counts them.
import Cosign.Config
import Cosign.Draft
import Cosign.Transaction.Enactment

/-!
# Service

A service applies transactions one at a time. Each is carried out on a draft,
which is committed if the transaction succeeds and discarded otherwise. The
service tallies how transactions end and, if so configured, halts at the first
internal rejection; it then refuses to apply anything until it is resumed.
-/

namespace Cosign

/-! ## Reports -/

/-- How the application of a transaction ended. -/
structure Report where
  code : ResultCode
  /-- What was done; present just in case of success. -/
  effect? : Option Effect
  /-- The number of entries changed. -/
  changes : Nat
  /-- Why nothing was done. -/
  rejection? : Option Rejection
deriving DecidableEq

namespace Report

def success (effect : Effect) (changes : Nat) : Report := ⟨.success, some effect, changes, none⟩

def rejected (rejection : Rejection) : Report := ⟨rejection.code, none, 0, some rejection⟩

end Report

/-- The number of transactions that ended in each way, modulo `2 ^ 64`. -/
structure Tally where
  applied : UInt64 := 0
  malformed : UInt64 := 0
  claimed : UInt64 := 0
  internal : UInt64 := 0
deriving DecidableEq

namespace Tally

/-- The tally with one more transaction counted. What is of no class tested for counts as claimed. -/
def count (tally : Tally) (code : ResultCode) : Tally :=
  if code.isSuccess then { tally with applied := tally.applied + 1 }
  else if code.isMalformed then { tally with malformed := tally.malformed + 1 }
  else if code.isInternal then { tally with internal := tally.internal + 1 }
  else { tally with claimed := tally.claimed + 1 }

/-- A code counts for its own class and for no other. -/
theorem count_eq (tally : Tally) (code : ResultCode) :
    tally.count code =
      ⟨tally.applied + code.isSuccess.toUInt64, tally.malformed + code.isMalformed.toUInt64,
        tally.claimed + code.claimsFee.toUInt64, tally.internal + code.isInternal.toUInt64⟩ := by
  have hone := code.one_class
  unfold count
  rw [code.claimsFee_eq] at hone ⊢
  -- No two of the tests hold, so that it does not matter in which order they are made.
  revert hone
  cases code.isSuccess <;> cases code.isMalformed <;> cases code.isInternal <;>
    simp [Bool.toUInt64]

end Tally

/-! ## Drafted runs -/

/-- Runs a procedure on a draft of the ledger, which is committed if the procedure succeeds.

The value then comes with the number of changes. -/
def Procedure.transact {ε α : Type} (procedure : Procedure ε α) (ledger : Ledger) :
    Except ε (α × Nat) × Ledger :=
  match procedure.run (Draft.ofLedger ledger) with
  | (.ok value, draft) =>
    let (committed, changes) := draft.commit
    (.ok (value, changes), committed)
  | (.error error, draft) => (.error error, draft.discard)

/-- Applies a transaction to a ledger, all or nothing. -/
def Transaction.apply (tx : Transaction) (ledger : Ledger) : Report × Ledger :=
  match tx.enact.transact ledger with
  | (.ok (effect, changes), changed) => (.success effect changes, changed)
  | (.error rejection, unchanged) => (.rejected rejection, unchanged)

/-! ## The service -/

/-- A halted service, with the code it halted on, applies nothing. -/
structure Halted where
  code : ResultCode
deriving DecidableEq

def Halted.message (halted : Halted) : String :=
  s!"Signer list service halted after internal failure: {halted.code.token}"

structure Service where
  config : Config := {}
  halted? : Option Halted := none
  tally : Tally := {}

namespace Service

def ofConfig (config : Config) : Service := { config }

def isHalted (service : Service) : Bool := service.halted?.isSome

/-- The service, ready to apply again. -/
def resume (service : Service) : Service := { service with halted? := none }

/-- The service after a report: the tally counts it, and an internal one may halt the service. -/
def note (service : Service) (report : Report) : Service :=
  { service with
    tally := service.tally.count report.code
    halted? :=
      if report.code.isInternal && service.config.haltOnInternal then
        some ⟨report.code⟩
      else service.halted? }

/-- Whether a transaction would be refused without looking at a ledger. -/
def preflight (tx : Transaction) : Except Malformed Unit := do
  let _ ← tx.preflight

/-- Applies a transaction, unless the service has halted. -/
def apply (service : Service) (ledger : Ledger) (tx : Transaction) :
    Except Halted (Report × Service × Ledger) :=
  match service.halted? with
  | some halted => .error halted
  | none =>
    let (report, changed) := tx.apply ledger
    .ok (report, service.note report, changed)

end Service

end Cosign
