-- SUMMARY: Destroying the list of an account that has none.
import Cosign.Proofs.Replay

/-!
# Destruction

Whether an account may destroy its list is decided before the list is looked for. So
for an account without a list destruction is no more than that question: one that can
sign without a list succeeds and nothing is done, and one that cannot is refused, though
it had no list to lose (`Service.apply_destroy_of_none`). The ledger stays as it was
either way.
-/

namespace Cosign

/-- An account signs with its master key, unless that is disabled, or with the regular key it has set. -/
theorem AccountRoot.hasAlternativeKey_iff {root : AccountRoot} :
    root.hasAlternativeKey = true ↔
      root.flags &&& disableMasterFlag = 0 ∨ root.regularKey ≠ none := by
  unfold hasAlternativeKey masterDisabled hasFlag
  simp [Option.isSome_iff_ne_none]

/-- An account that cannot sign without a list is refused whether it has one or not. -/
theorem SignerList.run_destroy_of_locked {owner : AccountId} {root : AccountRoot}
    {contents : Contents} (hroot : View.account? contents owner = some root)
    (hkey : root.hasAlternativeKey = false) :
    (destroy owner).run contents = (.error (.claimed (.noAlternativeKey owner)), contents) := by
  rw [run_destroy hroot, hkey]
  rfl

/-- A destruction has nothing to check. -/
theorem Transaction.preflight_destroy (id : AccountId) (balance : UInt64) :
    (destroy id balance).preflight = .ok ⟨id, balance, .destroy⟩ := rfl

/-- Destroying the list of an account that has none succeeds and changes nothing if the account
has a key to sign with; otherwise it is refused, which changes nothing either. -/
theorem Service.apply_destroy_of_none {service : Service} {ledger : Ledger} {id : AccountId}
    {root : AccountRoot} (hready : service.halted? = none)
    (hroot : View.account? ledger id = some root) (hlist : View.signerList? ledger id = none)
    (balance : UInt64) :
    (root.flags &&& disableMasterFlag = 0 ∨ root.regularKey ≠ none →
      let report : Report := ⟨.success, some (.destroyed 0), 0, none⟩
      service.apply ledger (.destroy id balance) = .ok (report, service.note report, ledger)) ∧
    (root.flags &&& disableMasterFlag ≠ 0 ∧ root.regularKey = none →
      let report : Report := ⟨.noAlternativeKey, none, 0, some (.claimed (.noAlternativeKey id))⟩
      service.apply ledger (.destroy id balance) = .ok (report, service.note report, ledger)) := by
  have hrun := Transaction.run_enact_of_preflight (Transaction.preflight_destroy id balance)
    (View.contents ledger)
  have hroot : View.account? (View.contents ledger) id = some root := hroot
  have hlist : View.signerList? (View.contents ledger) id = none := hlist
  rw [Service.apply_of_ready hready]
  constructor
  · intro hkey report
    have hdestroy := SignerList.run_destroy_of_none hroot (AccountRoot.hasAlternativeKey_iff.2 hkey)
      hlist
    rw [Transaction.apply_idle (hrun.trans hdestroy)]
    rfl
  · intro hlocked report
    have hkey : ¬root.hasAlternativeKey = true := by
      rw [AccountRoot.hasAlternativeKey_iff, not_or, not_not]
      exact hlocked
    have hdestroy := SignerList.run_destroy_of_locked hroot (Bool.eq_false_iff.2 hkey)
    rw [Transaction.apply_error (hrun.trans hdestroy)]
    rfl

/-- An account with a disabled master key succeeds if it has set a regular key, and one without is
refused. -/
theorem Service.apply_destroy_of_none_disabled :
    let root : AccountRoot :=
      { account := .ofLow 1, balance := 50, ownerCount := 2, flags := disableMasterFlag }
    let other : AccountRoot := { root with account := .ofLow 2, regularKey := some (.ofLow 3) }
    let ledger := ((Ledger.empty {}).putAccount root).putAccount other
    let service := Service.ofConfig {}
    let refused := Report.rejected (.claimed (.noAlternativeKey (.ofLow 1)))
    service.apply ledger (.destroy (.ofLow 1) 50) = .ok (refused, service.note refused, ledger) ∧
      service.apply ledger (.destroy (.ofLow 2) 50) =
        .ok (.success (.destroyed 0) 0, service.note (.success (.destroyed 0) 0), ledger) := by
  intro root other ledger service refused
  obtain ⟨hroot, hother, hlist, hlist'⟩ : View.account? ledger (.ofLow 1) = some root ∧
      View.account? ledger (.ofLow 2) = some other ∧
      View.signerList? ledger (.ofLow 1) = none ∧ View.signerList? ledger (.ofLow 2) = none := by
    decide +kernel
  constructor
  · exact (apply_destroy_of_none rfl hroot hlist 50).2 ⟨by decide, rfl⟩
  · exact (apply_destroy_of_none rfl hother hlist' 50).1 (.inr nofun)

/-- So having no list is not enough for an account to be told that its list is gone. -/
theorem Service.destroy_of_none_refused :
    let ledger := (Ledger.empty {}).putAccount
      { account := .ofLow 1, balance := 50, ownerCount := 2, flags := disableMasterFlag }
    let service := Service.ofConfig {}
    service.halted? = none ∧ (View.account? ledger (.ofLow 1)).isSome ∧
      View.signerList? ledger (.ofLow 1) = none ∧
      ¬∃ service' ledger', service.apply ledger (.destroy (.ofLow 1) 50) =
        .ok (⟨.success, some (.destroyed 0), 0, none⟩, service', ledger') := by
  intro ledger service
  obtain ⟨hroot, hlist, hcode⟩ : (View.account? ledger (.ofLow 1)).isSome ∧
      View.signerList? ledger (.ofLow 1) = none ∧
      ((Transaction.destroy (.ofLow 1) 50).apply ledger).1.code = .noAlternativeKey := by
    decide +kernel
  refine ⟨rfl, hroot, hlist, ?_⟩
  rintro ⟨service', ledger', happly⟩
  rw [← (Service.apply_eq_ok happly).1] at hcode
  cases hcode

end Cosign
