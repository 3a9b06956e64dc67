-- SUMMARY: An account that can authorize goes on being able to, whatever transactions are applied.
import Cosign.Proofs.Profile
import Cosign.Proofs.System

/-!
# Authority

An account can authorize if it has a root and, to sign with, a key of its own or a
signer list. No transaction takes that away (`Transaction.canAuthorize_run`). The
keys of an account are part of its profile, which stays, and of lists none but the
sender's is written: a replacement that succeeds leaves a list behind, and a
destruction succeeds only for a sender with a key of its own. This holds of every
ledger, since accounts do not sign with directories, however broken these are.
-/

namespace Cosign

namespace View

variable {σ : Type} [View σ]

/-- Whether the account has a key of its own, if it has a root. -/
def ownKey? (view : σ) (id : AccountId) : Option Bool :=
  (account? view id).map AccountRoot.hasAlternativeKey

/-- The account has a root, and a key or a list to sign with. -/
def canAuthorize (view : σ) (id : AccountId) : Bool :=
  (account? view id).any fun root => root.hasAlternativeKey || (signerList? view id).isSome

/-- The key of its own is part of an account's profile. -/
theorem ownKey?_eq_of_profile? {view view' : σ} {id : AccountId}
    (h : profile? view' id = profile? view id) : ownKey? view' id = ownKey? view id := by
  have hkey : ∀ view : σ, ownKey? view id = (profile? view id).map AccountRoot.hasAlternativeKey := by
    intro view
    unfold ownKey? profile?
    rw [Option.map_map]
    rfl
  rw [hkey, hkey, h]

theorem canAuthorize_eq (view : σ) (id : AccountId) :
    canAuthorize view id = (ownKey? view id).any (· || (signerList? view id).isSome) := by
  unfold canAuthorize ownKey?
  rw [Option.any_map]

/-- An account of which just the list changes can still authorize if a list takes the place of the
old one or there is a key of its own. -/
theorem canAuthorize_of_ownKey?_eq {view view' : σ} {id : AccountId}
    (hkey : ownKey? view' id = ownKey? view id)
    (hlist : (signerList? view id).isSome →
      (signerList? view' id).isSome ∨ ownKey? view id = some true)
    (h : canAuthorize view id) : canAuthorize view' id := by
  rw [canAuthorize_eq] at h ⊢
  rw [hkey]
  cases hown : ownKey? view id with
  | none =>
      rw [hown] at h
      cases h
  | some own =>
      rw [hown] at h hlist
      cases own with
      | true => rfl
      | false =>
          rcases hlist h with hlist | htrue
          · exact hlist
          · cases htrue

end View

/-! ## Writes -/

namespace Contents

variable {contents : Contents} {key : Key}

theorem signerList?_set_of_ne {id : AccountId} (hne : signersKey id ≠ key) (entry : Option Entry) :
    View.signerList? (contents.set key entry) id = View.signerList? contents id := by
  simp only [View.signerList?, View.find?, entries_set_of_ne _ hne]

theorem signerList?_set_self (id : AccountId) (list : SignerList) :
    View.signerList? (contents.set (signersKey id) (some (.signerList list))) id = some list := by
  simp only [View.signerList?, View.find?, entries_set_self]
  rfl

end Contents

/-! ## Operations -/

namespace SignerList

variable {owner : AccountId} {contents after : Contents}

/-- After a removal all accounts but the owner have the lists they had. -/
theorem signerList?_run_remove {units : UInt32}
    (h : (remove owner).run contents = (.ok units, after)) {id : AccountId}
    (hne : signersKey id ≠ signersKey owner) :
    View.signerList? after id = View.signerList? contents id := by
  rcases run_remove_eq_ok h with ⟨-, -, rfl⟩ | ⟨list, directory, root, -, -, hrun, hroot, rfl⟩
  · rfl
  · calc View.signerList? _ id
      _ = View.signerList? (directory.set (Slot.account owner).key _) id :=
        Contents.signerList?_set_of_ne hne none
      _ = View.signerList? directory id := Contents.signerList?_adjust hroot _ id
      _ = View.signerList? contents id :=
        Contents.signerList?_eq_of_others (OwnerDirectory.others_of_run_remove hrun) id

/-- The same after a list is stored, and then there is one. -/
theorem signerList?_run_store {payload : Payload} {accounting : Accounting} {page : UInt64}
    {count : UInt32} (h : (store owner payload accounting).run contents = (.ok (page, count), after))
    (id : AccountId) :
    (signersKey id ≠ signersKey owner →
        View.signerList? after id = View.signerList? contents id) ∧
      ∃ list, View.signerList? after owner = some list := by
  obtain ⟨list, directory, root, -, hrun, -, hroot, -, rfl⟩ := run_store_eq_ok h
  constructor
  · intro hne
    calc View.signerList? _ id
      _ = View.signerList? (directory.set (signersKey owner) _) id :=
        Contents.signerList?_adjust hroot _ id
      _ = View.signerList? directory id := Contents.signerList?_set_of_ne hne _
      _ = View.signerList? contents id :=
        Contents.signerList?_eq_of_others (OwnerDirectory.others_of_run_insert hrun) id
  · exact ⟨list, (Contents.signerList?_adjust hroot _ owner).trans
      (Contents.signerList?_set_self _ _)⟩

theorem canAuthorize_run_replace {priorBalance : UInt64} {payload : Payload} {effect : Effect}
    (h : (replace owner priorBalance payload).run contents = (.ok effect, after)) {id : AccountId}
    (hid : signersKey owner = signersKey id → owner = id) (hcan : View.canAuthorize contents id) :
    View.canAuthorize after id := by
  obtain ⟨refunded, cleared, root, page, count, hremove, -, -, hstore, -⟩ := run_replace_eq_ok h
  have hprofile := (profile?_run_store hstore id).trans (profile?_run_remove hremove id)
  obtain ⟨hlist, hstored⟩ := signerList?_run_store hstore id
  refine View.canAuthorize_of_ownKey?_eq (View.ownKey?_eq_of_profile? hprofile) ?_ hcan
  intro hheld
  left
  rcases eq_or_ne owner id with rfl | hne
  · exact Option.isSome_iff_exists.2 hstored
  · have hsigners : signersKey id ≠ signersKey owner := fun heq => hne (hid heq.symm)
    rwa [hlist hsigners, signerList?_run_remove hremove hsigners]

theorem canAuthorize_run_destroy {effect : Effect}
    (h : (destroy owner).run contents = (.ok effect, after)) {id : AccountId}
    (hid : signersKey owner = signersKey id → owner = id) (hcan : View.canAuthorize contents id) :
    View.canAuthorize after id := by
  obtain ⟨root, refunded, hroot, hown, hremove, -⟩ := run_destroy_eq_ok h
  have hprofile := profile?_run_remove hremove id
  refine View.canAuthorize_of_ownKey?_eq (View.ownKey?_eq_of_profile? hprofile) ?_ hcan
  intro hheld
  rcases eq_or_ne owner id with rfl | hne
  · right
    rw [View.ownKey?, hroot, Option.map_some, hown]
  · left
    rwa [signerList?_run_remove hremove fun heq => hne (hid heq.symm)]

end SignerList

/-! ## Transactions -/

/-- No transaction that succeeds takes an account's last way to authorize, its sender's or another's. -/
theorem Transaction.canAuthorize_run {tx : Transaction} {effect : Effect}
    {contents after : Contents} (h : tx.enact.run contents = (.ok effect, after)) {id : AccountId}
    (hid : signersKey tx.account = signersKey id → tx.account = id)
    (hcan : View.canAuthorize contents id) : View.canAuthorize after id := by
  rcases Transaction.run_enact_eq_ok h with ⟨payload, -, hreplace⟩ | ⟨-, hdestroy⟩
  · exact SignerList.canAuthorize_run_replace hreplace hid hcan
  · exact SignerList.canAuthorize_run_destroy hdestroy hid hcan

/-- Nor does any application of a transaction. -/
theorem System.canAuthorize_apply {system : System} {id : AccountId}
    (hcan : View.canAuthorize system.ledger id) (tx : Transaction)
    (hid : signersKey tx.account = signersKey id → tx.account = id) :
    View.canAuthorize (system.apply tx).2.ledger id := by
  refine System.ledger_apply (P := fun ledger => View.canAuthorize ledger id = true) hcan ?_
  intro effect changed hrun
  obtain ⟨hresult, hafter⟩ := Procedure.run_contents tx.enact system.ledger
  rw [hrun] at hresult hafter
  exact Transaction.canAuthorize_run (Prod.ext hresult.symm hafter.symm) hid hcan

/-! ## Histories -/

/-- An account that can authorize at first can do so ever after, if no sender in between has another
account's signer list key. -/
theorem History.canAuthorize {start now : System} {records : List (Transaction × Report)}
    (h : History start records now) {id : AccountId}
    (hkeys : ∀ record ∈ records,
      signersKey record.1.account = signersKey id → record.1.account = id)
    (hcan : View.canAuthorize start.ledger id) : View.canAuthorize now.ledger id := by
  induction h with
  | start => exact hcan
  | setRules h rules ih => exact ih hkeys
  | setFees h fees ih => exact ih hkeys
  | resume h ih => exact ih hkeys
  | @apply records now h tx ih =>
      have hbefore := ih fun record hrecord => hkeys record (List.mem_append_left _ hrecord)
      cases hhalted : now.service.halted? with
      | some halted =>
          rw [System.apply_of_halted hhalted]
          exact hbefore
      | none =>
          apply System.canAuthorize_apply hbefore tx
          rw [System.record_of_ready hhalted] at hkeys
          exact hkeys (tx, (tx.apply now.ledger).1) (by simp)

/-- An account without a key of its own, whose list can neither be replaced, for want of a reserve, nor
destroyed. -/
theorem History.canAuthorize_locked :
    View.canAuthorize
      (((System.mk {} ((Transaction.set .zero 1 [⟨.ofLow 1, 1⟩] 100000000).apply
          ((Ledger.empty {}).putAccount
            { account := .zero, balance := 0, flags := disableMasterFlag })).2).apply
        (.set .zero 1 [⟨.ofLow 2, 1⟩] 0)).2.apply (.destroy .zero 0)).2.ledger .zero := by
  apply ((History.start.apply (.set .zero 1 [⟨.ofLow 2, 1⟩] 0)).apply (.destroy .zero 0)).canAuthorize
  · decide +kernel
  · decide +kernel

end Cosign
