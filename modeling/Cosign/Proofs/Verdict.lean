-- SUMMARY: Whether a transaction is malformed is decided without the ledger, and the same way at all times.
import Cosign.Proofs.Conduct
import Cosign.Proofs.System

/-!
# Verdicts

The checks that need no ledger are made twice, before a transaction is accepted and
again when it is applied. The second time they come out as the first
(`Transaction.refused_or_admitted`): what is refused at first is refused for the same
cause wherever it is applied, and nothing is touched; what is admitted may still
fail for whatever the ledger holds, but is never said to be malformed.
-/

namespace Cosign

/-- The code of a rejection tells whether the ledger had to do with it. -/
theorem Rejection.IsOfLedger.isMalformed_code {rejection : Rejection} (h : rejection.IsOfLedger) :
    rejection.code.isMalformed = false := by
  cases rejection with
  | malformed cause => exact absurd rfl (h cause)
  | claimed cause => exact ResultCode.isMalformed_of_claimsFee cause.claimsFee_code
  | internal cause => exact ResultCode.isMalformed_of_isInternal cause.isInternal_code

namespace Service

variable {tx : Transaction}

theorem preflight_error {cause : Malformed} (h : tx.preflight = .error cause) :
    preflight tx = .error cause := by
  unfold preflight
  rw [h]
  rfl

theorem preflight_ok {request : Request} (h : tx.preflight = .ok request) :
    preflight tx = .ok () := by
  unfold preflight
  rw [h]
  rfl

end Service

namespace Transaction

/-- The transaction is refused for a cause, by itself and everywhere. -/
structure Refused (tx : Transaction) (cause : Malformed) : Prop where
  preflight : Service.preflight tx = .error cause
  isMalformed : cause.code.isMalformed = true
  /-- A service that applies it, whatever it has been through and whatever the ledger holds, names
  the cause and its code and changes nothing. -/
  apply : ∀ (service : Service) (ledger : Ledger), service.halted? = none →
    service.apply ledger tx =
      .ok (⟨cause.code, none, 0, some (.malformed cause)⟩,
        service.note ⟨cause.code, none, 0, some (.malformed cause)⟩, ledger)
  /-- Carried out on any view, lawful or not, it leaves the view as it is. -/
  enact : ∀ {σ : Type} [View σ] (view : σ), tx.enact.run view = (.error (.malformed cause), view)

/-- The transaction is admitted, and nowhere refused as malformed. -/
structure Admitted (tx : Transaction) : Prop where
  preflight : Service.preflight tx = .ok ()
  apply : ∀ (service service' : Service) (ledger ledger' : Ledger) (report : Report),
    service.apply ledger tx = .ok (report, service', ledger') →
      report.code.isMalformed = false ∧ ∀ cause, report.rejection? ≠ some (.malformed cause)
  enact : ∀ {σ : Type} [View σ] (view : σ) (cause : Malformed),
    (tx.enact.run view).1 ≠ .error (.malformed cause)

theorem refused_of_error {tx : Transaction} {cause : Malformed} (h : tx.preflight = .error cause) :
    tx.Refused cause := by
  have henact : tx.enact = .fail (.malformed cause) := by
    unfold Transaction.enact
    rw [h]
  constructor
  · exact Service.preflight_error h
  · exact cause.isMalformed_code
  · intro service ledger hready
    rw [Service.apply_of_ready hready, Transaction.apply_eq, henact]
    rfl
  · intro σ _ view
    rw [henact]
    rfl

theorem admitted_of_ok {tx : Transaction} {request : Request} (h : tx.preflight = .ok request) :
    tx.Admitted := by
  have hconforms := conforms_enact h
  constructor
  · exact Service.preflight_ok h
  · intro service service' ledger ledger' report happly
    rw [(Service.apply_eq_ok happly).1]
    rcases tx.report_apply ledger with ⟨effect, changes, hreport⟩ | ⟨rejection, after, hrun, hreport⟩
    · rw [hreport]
      exact ⟨rfl, nofun⟩
    · have hledger := hconforms.error_run hrun
      rw [hreport]
      refine ⟨hledger.isMalformed_code, fun cause heq => ?_⟩
      exact hledger cause (Option.some.inj heq)
  · intro σ _ view cause herror
    exact hconforms.error_run (Prod.ext herror rfl) cause rfl

/-- Any transaction is refused once and for all, or admitted once and for all. -/
theorem refused_or_admitted (tx : Transaction) : (∃ cause, tx.Refused cause) ∨ tx.Admitted := by
  cases hpreflight : tx.preflight with
  | error cause => exact .inl ⟨cause, refused_of_error hpreflight⟩
  | ok request => exact .inr (admitted_of_ok hpreflight)

end Transaction

end Cosign
