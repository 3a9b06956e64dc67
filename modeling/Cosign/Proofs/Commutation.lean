-- SUMMARY: Transactions of accounts that share no key can be applied in either order.
import Cosign.Proofs.Footprint
import Cosign.Proofs.System

/-!
# Commutation

What a transaction comes to is decided by the entries that it meets, and it
leaves the others alone (`Transaction.apply_of_agree`,
`Transaction.find?_apply_of_not_met`). Two transactions that meet no key in common
therefore do not notice which of them comes first, and neither does the service
as long as it does not halt (`System.apply_comm`).
-/

namespace Cosign

/-- As many keys change between two ledgers as between two others, if they are the same keys. -/
theorem Ledger.length_changedKeys_eq {before after before' after' : Ledger}
    (h : ∀ key, View.find? before' key = View.find? after' key ↔
      View.find? before key = View.find? after key) :
    (before'.changedKeys after').length = (before.changedKeys after).length := by
  apply List.Perm.length_eq
  rw [List.perm_ext_iff_of_nodup (nodup_changedKeys _ _) (nodup_changedKeys _ _)]
  intro key
  rw [mem_changedKeys, mem_changedKeys, ne_eq, ne_eq, h]

namespace Transaction

variable {tx tx' : Transaction} {ledger other : Ledger}

/-! ## Application by footprint -/

/-- An application changes no entry that the transaction does not meet. -/
theorem find?_apply_of_not_met {key : Key} (h : key ∉ tx.enact.met ledger) :
    View.find? (tx.apply ledger).2 key = View.find? ledger key := by
  refine ledger_apply (P := fun changed => View.find? changed key = View.find? ledger key) rfl
    fun effect changed hrun => ?_
  have hframe := tx.enact.find?_run_of_not_met ledger h
  rwa [hrun] at hframe

theorem terms_apply (tx : Transaction) (ledger : Ledger) :
    (tx.apply ledger).2.terms = ledger.terms :=
  ledger_apply (P := fun changed => changed.terms = ledger.terms) rfl
    fun _ _ hrun => Procedure.terms_eq_of_run hrun

/-- On a ledger with the same entries at the keys met, a transaction meets with the same report and
makes the same changes. -/
theorem apply_of_agree (tx : Transaction) (hterms : other.terms = ledger.terms)
    (h : ∀ key ∈ tx.enact.met ledger, View.find? other key = View.find? ledger key) :
    tx.enact.met other = tx.enact.met ledger ∧ (tx.apply other).1 = (tx.apply ledger).1 ∧
      ∀ key ∈ tx.enact.met ledger,
        View.find? (tx.apply other).2 key = View.find? (tx.apply ledger).2 key := by
  obtain ⟨hmet, hresult, hafter⟩ := tx.enact.run_of_agree hterms h
  have hframe : ∀ key ∉ tx.enact.met ledger,
      View.find? (tx.enact.run ledger).2 key = View.find? ledger key :=
    fun _ => tx.enact.find?_run_of_not_met ledger
  have hframe' : ∀ key ∉ tx.enact.met ledger,
      View.find? (tx.enact.run other).2 key = View.find? other key :=
    fun _ hkey => tx.enact.find?_run_of_not_met other (hmet ▸ hkey)
  refine ⟨hmet, ?_⟩
  rw [apply_eq, apply_eq]
  rcases hrun : tx.enact.run ledger with ⟨result, changed⟩
  rcases hrun' : tx.enact.run other with ⟨result', changed'⟩
  rw [hrun, hrun'] at hresult hafter
  rw [hrun] at hframe
  rw [hrun'] at hframe'
  obtain rfl : result' = result := hresult
  cases result' with
  | error rejection => exact ⟨rfl, h⟩
  | ok effect =>
      refine ⟨congrArg (Report.success effect) (Ledger.length_changedKeys_eq fun key => ?_),
        fun key hkey => hafter key (h key hkey)⟩
      rcases Decidable.em (key ∈ tx.enact.met ledger) with hkey | hkey
      · rw [h key hkey, hafter key (h key hkey)]
      · exact iff_of_true (hframe' key hkey).symm (hframe key hkey).symm

/-! ## Two transactions -/

/-- After a transaction that it has no key in common with, another one does what it would have done
before. -/
theorem apply_after (hapart : ∀ key ∈ tx.enact.met ledger, key ∉ tx'.enact.met ledger) :
    (tx'.apply (tx.apply ledger).2).1 = (tx'.apply ledger).1 ∧
      ∀ key, View.find? (tx'.apply (tx.apply ledger).2).2 key =
        if key ∈ tx'.enact.met ledger then View.find? (tx'.apply ledger).2 key
        else View.find? (tx.apply ledger).2 key := by
  obtain ⟨hmet, hreport, hafter⟩ := tx'.apply_of_agree (tx.terms_apply ledger)
    fun key hkey => find?_apply_of_not_met fun hkey' => hapart key hkey' hkey
  refine ⟨hreport, fun key => ?_⟩
  split
  · next hkey => exact hafter key hkey
  · next hkey => exact find?_apply_of_not_met (by rwa [hmet])

/-- Transactions that meet no key in common leave the same ledger in either order. -/
theorem apply_apply_comm (hapart : ∀ key ∈ tx.enact.met ledger, key ∉ tx'.enact.met ledger) :
    (tx'.apply (tx.apply ledger).2).2 = (tx.apply (tx'.apply ledger).2).2 := by
  have hapart' : ∀ key ∈ tx'.enact.met ledger, key ∉ tx.enact.met ledger :=
    fun key hkey' hkey => hapart key hkey hkey'
  apply Ledger.ext_contents
  refine Contents.ext ?_ (funext fun key => ?_)
  · change Ledger.terms _ = Ledger.terms _
    rw [terms_apply, terms_apply, terms_apply, terms_apply]
  · change View.find? _ key = View.find? _ key
    rw [(apply_after hapart).2, (apply_after hapart').2]
    split
    · next hkey => rw [if_neg (hapart' key hkey)]
    · next hkey =>
      split
      · rfl
      · next hkey' => rw [find?_apply_of_not_met hkey, find?_apply_of_not_met hkey']

end Transaction

/-! ## Systems -/

theorem Tally.count_comm (tally : Tally) (code code' : ResultCode) :
    (tally.count code).count code' = (tally.count code').count code := by
  have hcomm (a b c : UInt64) : a + b + c = a + c + b := by
    rw [UInt64.add_assoc, UInt64.add_comm b, ← UInt64.add_assoc]
  simp only [Tally.count_eq, hcomm]

namespace Service

variable {service : Service}

/-- A service that does not halt only counts its reports. -/
theorem note_of_not_halting (h : service.config.haltOnInternal = false) (report : Report) :
    service.note report = { service with tally := service.tally.count report.code } := by
  unfold note
  rw [h]
  simp

theorem note_comm (h : service.config.haltOnInternal = false) (report report' : Report) :
    (service.note report).note report' = (service.note report').note report := by
  rw [note_of_not_halting h, note_of_not_halting h, note_of_not_halting, note_of_not_halting,
    Tally.count_comm]
  · exact h
  · exact h

end Service

namespace System

variable {system : System} {tx tx' : Transaction}

/-- Transactions of two accounts whose families have no key in common can be exchanged: each meets with
the same report in either order, and the service and the ledger end the same. A key that the families do
have in common does no harm unless both transactions meet it. -/
theorem apply_comm (hconfig : system.service.config.haltOnInternal = false)
    (hapart : ∀ key ∈ family tx.account, key ∈ family tx'.account →
      key ∉ tx.enact.met system.ledger ∨ key ∉ tx'.enact.met system.ledger) :
    ((system.apply tx').2.apply tx).1 = (system.apply tx).1 ∧
      ((system.apply tx).2.apply tx').1 = (system.apply tx').1 ∧
      ((system.apply tx).2.apply tx').2 = ((system.apply tx').2.apply tx).2 := by
  have hmet : ∀ key ∈ tx.enact.met system.ledger, key ∉ tx'.enact.met system.ledger := by
    intro key hkey hkey'
    rcases hapart key (tx.within_enact.met_subset _ key hkey)
      (tx'.within_enact.met_subset _ key hkey') with h | h
    · exact h hkey
    · exact h hkey'
  have hmet' : ∀ key ∈ tx'.enact.met system.ledger, key ∉ tx.enact.met system.ledger :=
    fun key hkey' hkey => hmet key hkey hkey'
  cases hhalted : system.service.halted? with
  | some halted =>
      simp only [apply_of_halted hhalted, and_self]
  | none =>
      -- The service is as ready for the second transaction as it was for the first.
      have hready : ∀ report, (system.service.note report).halted? = none := by
        intro report
        rw [Service.note_of_not_halting hconfig]
        exact hhalted
      rw [apply_of_ready hhalted, apply_of_ready hhalted]
      simp only
      rw [apply_of_ready (hready _), apply_of_ready (hready _)]
      simp only
      rw [(Transaction.apply_after hmet).1, (Transaction.apply_after hmet').1,
        Transaction.apply_apply_comm hmet, Service.note_comm hconfig]
      exact ⟨rfl, rfl, rfl⟩

/-- One account sets a list on the first page of its directory. The other one is missing, which is an
internal failure; as the service does not halt, both orders have room for both. -/
theorem apply_comm_missing :
    let start : System := ⟨{ config := { haltOnInternal := false } },
      (Ledger.empty {}).putAccount { account := .zero, balance := 100000000 }⟩
    let tx := Transaction.set .zero 1 [⟨.ofLow 1, 1⟩] 100000000
    let tx' := Transaction.destroy (.ofLow 9) 100000000
    ((start.apply tx).1.toOption.map Report.code = some .success ∧
      (start.apply tx').1.toOption.bind Report.rejection? =
        some (.internal (.accountMissing (.ofLow 9)))) ∧
      ((start.apply tx').2.apply tx).1 = (start.apply tx).1 ∧
      ((start.apply tx).2.apply tx').1 = (start.apply tx').1 ∧
      ((start.apply tx).2.apply tx').2 = ((start.apply tx').2.apply tx).2 := by
  intro start tx tx'
  have hmet : ∀ key ∈ tx.enact.met start.ledger, key ∉ tx'.enact.met start.ledger := by
    decide +kernel
  refine ⟨by decide +kernel, apply_comm rfl fun key _ _ => ?_⟩
  rcases Decidable.em (key ∈ tx.enact.met start.ledger) with hkey | hkey
  · exact .inr (hmet key hkey)
  · exact .inl hkey

end System

end Cosign
