-- SUMMARY: The balance from which on a list can be stored: below it nothing is done, above it the balance no longer matters.
import Cosign.Proofs.Conduct
import Cosign.Proofs.Replacement

/-!
# Thresholds

Whether a list can be stored depends on the account's balance, but in one way only. Whatever the
ledger holds, either it is found to be inconsistent, with any balance, or there is a threshold:
below it the reserve is not covered, and from it on one and the same thing happens
(`Transaction.apply_threshold`). The threshold is computed from the fees, the owner count, what the
old list was charged and the number of signers, each sum and product cut off where its word ends
(`Fees.threshold`). It does not fall when any of them rises but the old charge.
-/

namespace Cosign

/-- The transaction, had its account another balance. -/
def Transaction.withBalance (tx : Transaction) (balance : UInt64) : Transaction :=
  { tx with priorBalance := balance }

/-! ## The amount -/

/-- The balance required of an account that owns `count` objects to store a list of so many signers,
when a list that was charged `held` units goes first. -/
def Fees.threshold (fees : Fees) (accounting : Accounting) (count held : UInt32) (signers : Nat) :
    Nat :=
  min 18446744073709551615 (fees.reserve.toNat + fees.increment.toNat *
    min 4294967295 (count.toNat - held.toNat + (accounting.units signers).toNat))

theorem Accounting.toNat_units_le (accounting : Accounting) {signers signers' : Nat}
    (h : signers ≤ signers') :
    (accounting.units signers).toNat ≤ (accounting.units signers').toNat := by
  cases accounting with
  | legacy =>
      unfold units
      simp only [Saturating.toNat_add32, Saturating.toNat_word32]
      omega
  | current => exact Nat.le_refl _

theorem Fees.threshold_le {fees fees' : Fees} {count count' : UInt32} {signers signers' : Nat}
    (hreserve : fees.reserve ≤ fees'.reserve) (hincrement : fees.increment ≤ fees'.increment)
    (hcount : count ≤ count') (hsigners : signers ≤ signers') (accounting : Accounting)
    (held : UInt32) :
    fees.threshold accounting count held signers ≤
      fees'.threshold accounting count' held signers' := by
  have hunits := accounting.toNat_units_le hsigners
  have hleft := UInt32.le_iff_toNat_le.1 hcount
  have htotal : min 4294967295 (count.toNat - held.toNat + (accounting.units signers).toNat) ≤
      min 4294967295 (count'.toNat - held.toNat + (accounting.units signers').toNat) := by
    omega
  have hproduct := Nat.mul_le_mul (UInt64.le_iff_toNat_le.1 hincrement) htotal
  have hsum := Nat.add_le_add (UInt64.le_iff_toNat_le.1 hreserve) hproduct
  unfold threshold
  omega

/-! ## The removal of the old list -/

namespace SignerList

variable {owner : AccountId} {contents cleared : Contents} {root : AccountRoot}

/-- If an account has a root when its list has been removed, it had one before, with a count that was
higher by what the list was charged. -/
theorem exists_root_of_run_remove {refunded : UInt32}
    (h : (remove owner).run contents = (.ok refunded, cleared))
    (hroot : View.account? cleared owner = some root) :
    refunded = held (View.signerList? contents owner) ∧
      ∃ before, View.account? contents owner = some before ∧
        root.ownerCount.toNat = before.ownerCount.toNat - refunded.toNat := by
  rcases run_remove_eq_ok h with ⟨hnone, rfl, rfl⟩ | ⟨list, directory, before, hlist, rfl, hrun,
    hbefore, rfl⟩
  · rw [hnone]
    exact ⟨rfl, root, hroot, rfl⟩
  · rw [hlist]
    refine ⟨rfl, before, ?_, ?_⟩
    · rw [← Contents.account?_eq_of_others (OwnerDirectory.others_of_run_remove hrun) owner]
      exact View.account?_of_entries hbefore
    · -- Where the list was there is nothing now, so the root is somewhere else.
      have hne : (Slot.account owner).key ≠ signersKey owner := by
        intro heq
        simp only [View.account?, View.find?, Contents.entries_set, if_pos heq] at hroot
        cases hroot
      simp only [View.account?, View.find?, Contents.entries_set_of_ne _ hne,
        Contents.entries_set_self] at hroot
      cases hroot
      exact before.toNat_adjustOwnerCount_sub list.units

/-- What is asked for after the removal is the threshold. -/
theorem toNat_required_eq_threshold {before : AccountRoot} {held : UInt32}
    (hcount : root.ownerCount.toNat = before.ownerCount.toNat - held.toNat) (terms : Terms)
    (payload : Payload) :
    (required terms root payload).toNat = terms.fees.threshold terms.rules.accounting
      before.ownerCount held payload.signers.length := by
  have hsum : (Saturating.add32 root.ownerCount
      (terms.rules.accounting.units payload.signers.length)).toNat =
        min 4294967295 (root.ownerCount.toNat +
          (terms.rules.accounting.units payload.signers.length).toNat) := by
    rw [Saturating.toNat_add32, Nat.min_comm]
  rw [toNat_required _ _ _ hsum, hsum, hcount]
  rfl

end SignerList

/-! ## Transactions -/

/-- How a transaction can end that does not lack the reserve for its list. -/
inductive Transaction.Afforded (id : AccountId) (ledger : Ledger) (accounting : Accounting)
    (charged refunded : UInt32) : Report × Ledger → Prop
  | replaced (page : UInt64) (ownerCount : UInt32) (changes : Nat) (after : Ledger) :
      Afforded id ledger accounting charged refunded
        (.success (.replaced accounting charged refunded page ownerCount) changes, after)
  | full : Afforded id ledger accounting charged refunded
      (.rejected (.claimed (.directoryFull id)), ledger)
  | internal (cause : Internal) : Afforded id ledger accounting charged refunded
      (.rejected (.internal cause), ledger)

namespace Transaction

variable {tx : Transaction} {payload : Payload}

/-- What a transaction asks for, and whether it may, does not depend on the balance. -/
theorem preflight_withBalance (tx : Transaction) (balance : UInt64) :
    (tx.withBalance balance).preflight =
      tx.preflight.map fun request => { request with priorBalance := balance } := by
  have hoperation : (tx.withBalance balance).operation = tx.operation := rfl
  unfold preflight request
  rw [hoperation]
  cases tx.operation with
  | error cause => rfl
  | ok operation =>
      cases operation with
      | set payload =>
          simp only [bind, Except.bind, pure, Except.pure, Request.check, withBalance]
          cases payload.check tx.account <;> rfl
      | destroy => rfl
      | invalid => rfl

theorem run_enact_withBalance
    (h : tx.preflight = .ok ⟨tx.account, tx.priorBalance, .replace payload⟩) (balance : UInt64)
    (contents : Contents) :
    (tx.withBalance balance).enact.run contents =
      (SignerList.replace tx.account balance payload).run contents := by
  have hpreflight : (tx.withBalance balance).preflight =
      .ok ⟨tx.account, balance, .replace payload⟩ := by
    rw [preflight_withBalance, h]
    rfl
  exact run_enact_of_preflight hpreflight contents

/-- A transaction of which nothing is left to do but to store its list. -/
theorem afforded_apply {ledger : Ledger} {cleared : Contents} {accounting : Accounting}
    {charged refunded : UInt32}
    (hrun : tx.enact.run (View.contents ledger) =
      ((SignerList.store tx.account payload accounting).bind fun (page, ownerCount) =>
        .done (.replaced accounting charged refunded page ownerCount)).run cleared) :
    Afforded tx.account ledger accounting charged refunded (tx.apply ledger) := by
  rw [Procedure.run_bind] at hrun
  rcases hstore : (SignerList.store tx.account payload accounting).run cleared with
    ⟨rejection | ⟨page, ownerCount⟩, after⟩
  · rw [hstore] at hrun
    rw [apply_error hrun]
    exact (SignerList.conforms_store tx.account
      (F := fun rejection =>
        Afforded tx.account ledger accounting charged refunded (.rejected rejection, ledger))
      .internal .full payload accounting).error_run hstore
  · rw [hstore] at hrun
    obtain ⟨changes, changed, happly, -⟩ := apply_ok hrun
    rw [happly]
    exact .replaced page ownerCount changes changed

/-- Whatever the ledger holds, the balance matters to the storing of a list in one way at most. Either
the ledger is found to be inconsistent, with one result for every balance, or there is a threshold: a
balance below it is rejected for the reserve, and with any other balance the transaction ends in one
and the same way. For a given accounting the threshold never falls when there are more signers, when
the account owns more, or when the fees rise. -/
theorem apply_threshold (h : tx.preflight = .ok ⟨tx.account, tx.priorBalance, .replace payload⟩)
    (ledger : Ledger) :
    ((∃ cause, ∀ balance,
        (tx.withBalance balance).apply ledger = (.rejected (.internal cause), ledger)) ∨
      ∃ (root : AccountRoot) (required : UInt64) (outcome : Report × Ledger),
        View.account? ledger tx.account = some root ∧
        required.toNat = ledger.terms.fees.threshold ledger.terms.rules.accounting root.ownerCount
          (SignerList.held (View.signerList? ledger tx.account)) payload.signers.length ∧
        Afforded tx.account ledger ledger.terms.rules.accounting
          (ledger.terms.rules.accounting.units payload.signers.length)
          (SignerList.held (View.signerList? ledger tx.account)) outcome ∧
        (∀ balance, balance < required → (tx.withBalance balance).apply ledger =
          (.rejected (.claimed (.insufficientReserve balance required)), ledger)) ∧
        ∀ balance, required ≤ balance → (tx.withBalance balance).apply ledger = outcome) ∧
    ∀ (fees fees' : Fees) (accounting : Accounting) (count count' held : UInt32)
      (signers signers' : Nat), fees.reserve ≤ fees'.reserve → fees.increment ≤ fees'.increment →
      count ≤ count' → signers ≤ signers' →
      fees.threshold accounting count held signers ≤
        fees'.threshold accounting count' held signers' := by
  refine ⟨?_, fun fees fees' accounting count count' held signers signers' hreserve hincrement
    hcount hsigners => Fees.threshold_le hreserve hincrement hcount hsigners accounting held⟩
  have hrun (balance : UInt64) := run_enact_withBalance h balance (View.contents ledger)
  rcases hremove : (SignerList.remove tx.account).run (View.contents ledger) with
    ⟨rejection | refunded, cleared⟩
  · obtain ⟨cause, rfl⟩ := (SignerList.conforms_remove tx.account
      (F := fun rejection => ∃ cause, rejection = .internal cause)
      fun cause => ⟨cause, rfl⟩).error_run hremove
    exact .inl ⟨cause, fun balance => apply_error ((hrun balance).trans
      (SignerList.run_replace_of_error balance payload hremove))⟩
  · cases hroot : View.account? cleared tx.account with
    | none =>
        exact .inl ⟨_, fun balance => apply_error ((hrun balance).trans
          (SignerList.run_replace_of_missing balance payload hremove hroot))⟩
    | some root =>
        obtain ⟨rfl, before, hbefore, hcount⟩ := SignerList.exists_root_of_run_remove hremove hroot
        have hterms : cleared.terms = ledger.terms := Procedure.terms_eq_of_run hremove
        let required := SignerList.required cleared.terms root payload
        have hpoor (balance : UInt64) (hlt : balance < required) :
            (tx.withBalance balance).enact.run (View.contents ledger) =
              (.error (.claimed (.insufficientReserve balance required)), cleared) := by
          rw [hrun, SignerList.run_replace hremove hroot]
          exact if_pos hlt
        -- The threshold is one of the balances that suffice, so its outcome is that of all of them.
        have hrich (balance : UInt64) (hle : required ≤ balance) :=
          ((hrun balance).trans (SignerList.run_replace hremove hroot)).trans
            (if_neg (UInt64.not_lt.2 hle))
        have hexact := hrich required (UInt64.le_refl _)
        refine .inr ⟨before, required, (tx.withBalance required).apply ledger, hbefore, ?_,
          hterms ▸ afforded_apply hexact, fun balance hlt => apply_error (hpoor balance hlt),
          fun balance hle => apply_congr ((hrich balance hle).trans hexact.symm)⟩
        exact (SignerList.toNat_required_eq_threshold hcount cleared.terms payload).trans
          (by rw [hterms]; rfl)

/-- The count is stopped at the end of its range, gives back what the old list was charged and is
stopped there again. -/
theorem apply_threshold_stopped :
    let ledger := ((Transaction.set .zero 1 [⟨.ofLow 1, 1⟩] 30000000000).apply
      ((Ledger.empty { fees := { reserve := 20, increment := 5 } }).putAccount
        { account := .zero, balance := 30000000000, ownerCount := 4294967294 })).2
    let tx := Transaction.set .zero 2 [⟨.ofLow 2, 1⟩, ⟨.ofLow 1, 1⟩] 0
    (∀ balance, balance < 21474836495 → (tx.withBalance balance).apply ledger =
      (.rejected (.claimed (.insufficientReserve balance 21474836495)), ledger)) ∧
      ∃ after, ∀ balance, 21474836495 ≤ balance → (tx.withBalance balance).apply ledger =
        (.success (.replaced .legacy 4 3 0 4294967295) 1, after) := by
  intro ledger tx
  let payload : Payload := ⟨2, [⟨.ofLow 1, 1⟩, ⟨.ofLow 2, 1⟩]⟩
  obtain ⟨hcount, hheld, hfees, hrules, hpoor, hrich⟩ :
      (View.account? ledger .zero).map (·.ownerCount) = some 4294967295 ∧
      SignerList.held (View.signerList? ledger .zero) = 3 ∧
      ledger.terms.fees = { reserve := 20, increment := 5 } ∧
      ledger.terms.rules.accounting = .legacy ∧
      ((tx.withBalance 0).apply ledger).1.code = .insufficientReserve ∧
      ((tx.withBalance 21474836495).apply ledger).1 =
        .success (.replaced .legacy 4 3 0 4294967295) 1 := by
    decide +kernel
  have hpreflight : tx.preflight = .ok ⟨tx.account, tx.priorBalance, .replace payload⟩ := by
    decide
  rcases (apply_threshold hpreflight ledger).1 with ⟨cause, hinternal⟩ |
    ⟨root, required, outcome, hroot, hrequired, -, hbelow, habove⟩
  · rw [hinternal] at hpoor
    cases cause <;> cases hpoor
  · have haccount : View.account? ledger .zero = some root := hroot
    rw [haccount] at hcount
    replace hcount : root.ownerCount = 4294967295 := Option.some_inj.1 hcount
    have hheld : SignerList.held (View.signerList? ledger tx.account) = 3 := hheld
    have hamount : required.toNat = 21474836495 := by
      rw [hrequired, hfees, hrules, hcount, hheld]
      decide
    obtain rfl : required = 21474836495 := UInt64.toNat_inj.1 hamount
    rw [habove _ (UInt64.le_refl _)] at hrich
    exact ⟨hbelow, outcome.2, fun balance hle =>
      (habove balance hle).trans (Prod.ext hrich rfl)⟩

end Transaction

end Cosign
