-- SUMMARY: A service with its ledger: what one application does to both, and what becomes of them over time.
import Cosign.Proofs.Commit

/-!
# Systems

A service and the ledger it works on make up a system. One application either
does nothing because the service has halted, or carries its transaction out and
counts the entries that differ, or leaves the ledger alone and says why
(`System.apply_all_or_nothing`). In between, rules and fees may change and a
halted service may be resumed; `History` has every system that this can lead to,
with the reports made on the way.
-/

namespace Cosign

/-! ## Applying a transaction to a ledger -/

theorem Rejection.code_ne_success (rejection : Rejection) : rejection.code ≠ .success := by
  cases rejection with
  | malformed cause => cases cause <;> exact nofun
  | claimed cause => cases cause <;> exact nofun
  | internal cause => cases cause <;> exact nofun

/-- A transaction is applied as it would be carried out on the ledger at once, unless that fails. -/
theorem Transaction.apply_eq (tx : Transaction) (ledger : Ledger) :
    tx.apply ledger =
      match tx.enact.run ledger with
      | (.ok effect, changed) => (.success effect (ledger.changedKeys changed).length, changed)
      | (.error rejection, _) => (.rejected rejection, ledger) := by
  unfold Transaction.apply
  rw [Procedure.transact_eq]
  rcases tx.enact.run ledger with ⟨_ | _, _⟩ <;> rfl

/-- A transaction that succeeds on what a ledger shows makes the same of the ledger. -/
theorem Transaction.apply_ok {tx : Transaction} {ledger : Ledger} {effect : Effect}
    {after : Contents} (h : tx.enact.run (View.contents ledger) = (.ok effect, after)) :
    ∃ changes changed, tx.apply ledger = (.success effect changes, changed) ∧
      View.contents changed = after := by
  obtain ⟨changes, changed, htransact, hchanged⟩ := Procedure.transact_ok h
  unfold Transaction.apply
  rw [htransact]
  exact ⟨changes, changed, rfl, hchanged⟩

/-- Transactions that run alike on what a ledger shows are alike to the ledger. -/
theorem Transaction.apply_congr {tx tx' : Transaction} {ledger : Ledger}
    (h : tx.enact.run (View.contents ledger) = tx'.enact.run (View.contents ledger)) :
    tx.apply ledger = tx'.apply ledger := by
  obtain ⟨hresult, hafter⟩ := tx.enact.run_contents ledger
  obtain ⟨hresult', hafter'⟩ := tx'.enact.run_contents ledger
  rw [h] at hresult hafter
  have hdirect : tx.enact.run ledger = tx'.enact.run ledger :=
    Prod.ext (hresult.trans hresult'.symm) (Ledger.ext_contents (hafter.trans hafter'.symm))
  rw [apply_eq, apply_eq, hdirect]

/-- One that fails leaves the ledger as it was. -/
theorem Transaction.apply_error {tx : Transaction} {ledger : Ledger} {rejection : Rejection}
    {after : Contents} (h : tx.enact.run (View.contents ledger) = (.error rejection, after)) :
    tx.apply ledger = (.rejected rejection, ledger) := by
  unfold Transaction.apply
  rw [Procedure.transact_error h]

/-- A report that tells of an effect is of a run that had it. -/
theorem Transaction.run_of_effect? {tx : Transaction} {ledger : Ledger} {effect : Effect}
    (h : (tx.apply ledger).1.effect? = some effect) :
    tx.enact.run (View.contents ledger) = (.ok effect, View.contents (tx.apply ledger).2) := by
  rcases hrun : tx.enact.run (View.contents ledger) with ⟨rejection | effect', after⟩
  · rw [apply_error hrun] at h
    cases h
  · obtain ⟨changes, changed, happly, rfl⟩ := apply_ok hrun
    rw [happly] at h ⊢
    cases h
    rfl

/-- A report tells of success, or of how the transaction fails on the ledger. -/
theorem Transaction.report_apply (tx : Transaction) (ledger : Ledger) :
    (∃ effect changes, (tx.apply ledger).1 = .success effect changes) ∨
      ∃ rejection after, tx.enact.run ledger = (.error rejection, after) ∧
        (tx.apply ledger).1 = .rejected rejection := by
  rw [apply_eq]
  rcases tx.enact.run ledger with ⟨rejection | effect, after⟩
  · exact .inr ⟨rejection, after, rfl, rfl⟩
  · exact .inl ⟨effect, _, rfl⟩

/-- A transaction that succeeds and leaves all that a ledger shows leaves the ledger. -/
theorem Transaction.apply_idle {tx : Transaction} {ledger : Ledger} {effect : Effect}
    (h : tx.enact.run (View.contents ledger) = (.ok effect, View.contents ledger)) :
    tx.apply ledger = (.success effect 0, ledger) := by
  obtain ⟨hresult, hafter⟩ := tx.enact.run_contents ledger
  rw [h] at hresult hafter
  have hdirect : tx.enact.run ledger = (.ok effect, ledger) :=
    Prod.ext hresult (Ledger.ext_contents hafter)
  rw [apply_eq, hdirect]
  simp only
  rw [Ledger.changedKeys_self]
  rfl

/-- What holds of a ledger and of all that a successful run makes of it holds after the application. -/
theorem Transaction.ledger_apply {tx : Transaction} {ledger : Ledger} {P : Ledger → Prop}
    (h : P ledger) (hrun : ∀ effect changed, tx.enact.run ledger = (.ok effect, changed) → P changed) :
    P (tx.apply ledger).2 := by
  rw [apply_eq]
  rcases hdirect : tx.enact.run ledger with ⟨rejection | effect, changed⟩
  · exact h
  · exact hrun effect changed hdirect

/-- A service that has not halted applies whatever it is given. -/
theorem Service.apply_of_ready {service : Service} (h : service.halted? = none) (ledger : Ledger)
    (tx : Transaction) :
    service.apply ledger tx =
      .ok ((tx.apply ledger).1, service.note (tx.apply ledger).1, (tx.apply ledger).2) := by
  unfold Service.apply
  rw [h]

theorem Service.apply_of_halted {service : Service} {halted : Halted}
    (h : service.halted? = some halted) (ledger : Ledger) (tx : Transaction) :
    service.apply ledger tx = .error halted := by
  unfold Service.apply
  rw [h]

theorem Service.apply_eq_ok {service service' : Service} {ledger ledger' : Ledger}
    {tx : Transaction} {report : Report}
    (h : service.apply ledger tx = .ok (report, service', ledger')) :
    report = (tx.apply ledger).1 ∧ ledger' = (tx.apply ledger).2 := by
  unfold Service.apply at h
  split at h
  · cases h
  · cases h
    exact ⟨rfl, rfl⟩

/-- A success does not halt the service. -/
theorem Service.halted?_note_success {service : Service} (h : service.halted? = none)
    (effect : Effect) (changes : Nat) :
    (service.note (.success effect changes)).halted? = none := by
  have hcode : (Report.success effect changes).code.isInternal = false := rfl
  unfold Service.note
  simp [hcode, h]

/-! ## Systems -/

/-- A service and the ledger it works on. -/
structure System where
  service : Service
  ledger : Ledger

namespace System

def setRules (system : System) (rules : Rules) : System :=
  { system with ledger := system.ledger.setRules rules }

def setFees (system : System) (fees : Fees) : System :=
  { system with ledger := system.ledger.setFees fees }

def resume (system : System) : System := { system with service := system.service.resume }

/-- What the service answers when it is given a transaction, and the system after it. -/
def apply (system : System) (tx : Transaction) : Except Halted Report × System :=
  match system.service.apply system.ledger tx with
  | .ok (report, service, ledger) => (.ok report, ⟨service, ledger⟩)
  | .error halted => (.error halted, system)

variable {system : System} {tx : Transaction}

theorem apply_of_ready (h : system.service.halted? = none) (tx : Transaction) :
    system.apply tx =
      (.ok (tx.apply system.ledger).1,
        ⟨system.service.note (tx.apply system.ledger).1, (tx.apply system.ledger).2⟩) := by
  unfold System.apply
  rw [Service.apply_of_ready h]

theorem apply_of_halted {halted : Halted} (h : system.service.halted? = some halted)
    (tx : Transaction) : system.apply tx = (.error halted, system) := by
  unfold System.apply
  rw [Service.apply_of_halted h]

/-- The same for a system, whose service may have halted. -/
theorem ledger_apply {P : Ledger → Prop} (h : P system.ledger)
    (hrun : ∀ effect changed, tx.enact.run system.ledger = (.ok effect, changed) → P changed) :
    P (system.apply tx).2.ledger := by
  cases hhalted : system.service.halted? with
  | some halted =>
      rw [apply_of_halted hhalted]
      exact h
  | none =>
      rw [apply_of_ready hhalted]
      exact Transaction.ledger_apply h hrun

/-! ## All or nothing -/

/-- The three ways an application ends. What `enact` gives is what the transaction comes to when it
is carried out on the ledger directly. -/
inductive AllOrNothing (system : System) (tx : Transaction) :
    Except Halted Report × System → Prop
  | halted {halted : Halted} (h : system.service.halted? = some halted) :
      AllOrNothing system tx (.error halted, system)
  /-- The ledger of the direct run is kept, and `keys` are those where it differs. -/
  | applied {effect : Effect} {ledger : Ledger} {keys : List Key}
      (hready : system.service.halted? = none)
      (hdirect : tx.enact.run system.ledger = (.ok effect, ledger))
      (hterms : ledger.terms = system.ledger.terms)
      (hdistinct : keys.Nodup)
      (hkeys : ∀ key, key ∈ keys ↔ View.find? system.ledger key ≠ View.find? ledger key) :
      AllOrNothing system tx
        (.ok ⟨.success, some effect, keys.length, none⟩,
          ⟨system.service.note ⟨.success, some effect, keys.length, none⟩, ledger⟩)
  /-- Whatever the direct run leaves is dropped. -/
  | rejected {rejection : Rejection} {direct : Ledger}
      (hready : system.service.halted? = none)
      (hdirect : tx.enact.run system.ledger = (.error rejection, direct))
      (hcode : rejection.code ≠ .success) :
      AllOrNothing system tx
        (.ok ⟨rejection.code, none, 0, some rejection⟩,
          ⟨system.service.note ⟨rejection.code, none, 0, some rejection⟩, system.ledger⟩)

/-- Whatever the ledger holds and the service has been through, a transaction is carried out as a
whole or not at all, and the report says which. -/
theorem apply_all_or_nothing (system : System) (tx : Transaction) :
    AllOrNothing system tx (system.apply tx) := by
  cases hhalted : system.service.halted? with
  | some halted =>
      rw [apply_of_halted hhalted]
      exact .halted hhalted
  | none =>
      rw [apply_of_ready hhalted, Transaction.apply_eq]
      rcases hdirect : tx.enact.run system.ledger with ⟨rejection | effect, changed⟩
      · exact .rejected hhalted hdirect rejection.code_ne_success
      · have hterms := Procedure.terms_run tx.enact system.ledger
        rw [hdirect] at hterms
        exact .applied hhalted hdirect hterms (Ledger.nodup_changedKeys _ _)
          fun _ => Ledger.mem_changedKeys

/-! ## Histories -/

/-- The transaction with its report, unless the service has halted. -/
def record (system : System) (tx : Transaction) : List (Transaction × Report) :=
  match (system.apply tx).1 with
  | .ok report => [(tx, report)]
  | .error _ => []

theorem record_of_ready (h : system.service.halted? = none) (tx : Transaction) :
    system.record tx = [(tx, (tx.apply system.ledger).1)] := by
  unfold record
  rw [apply_of_ready h]

theorem record_of_halted {halted : Halted} (h : system.service.halted? = some halted)
    (tx : Transaction) : system.record tx = [] := by
  unfold record
  rw [apply_of_halted h]

end System

/-- What can become of a system, with the transactions applied since its start and their reports. -/
inductive History (start : System) : List (Transaction × Report) → System → Prop
  | start : History start [] start
  | setRules {records : List (Transaction × Report)} {now : System}
      (h : History start records now) (rules : Rules) : History start records (now.setRules rules)
  | setFees {records : List (Transaction × Report)} {now : System}
      (h : History start records now) (fees : Fees) : History start records (now.setFees fees)
  | resume {records : List (Transaction × Report)} {now : System}
      (h : History start records now) : History start records now.resume
  | apply {records : List (Transaction × Report)} {now : System}
      (h : History start records now) (tx : Transaction) :
      History start (records ++ now.record tx) (now.apply tx).2

end Cosign
