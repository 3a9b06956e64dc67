-- SUMMARY: How storing, removing, replacing and destroying a list run, given how its directory answers.
import Cosign.Proofs.Contents
import Cosign.Proofs.Preflight
import Cosign.Transaction.Enactment

/-!
# Enactment

What each operation on a signer list does to contents, step by step. How the
owner's directory takes or gives up the list's key is left to the hypotheses, so
the lemmas serve for directories of any shape. Given how the old list is removed,
there are three ways for a transaction to go on (`Transaction.run_enact_of_remove`).
-/

namespace Cosign

namespace SignerList

variable {owner : AccountId} {contents directory cleared : Contents} {root : AccountRoot}
  {list : SignerList}

/-- An account without a list is left as it is. -/
theorem run_remove_of_none (h : View.signerList? contents owner = none) :
    (remove owner).run contents = (.ok 0, contents) := by
  unfold remove
  rw [Procedure.run_bind_ok (Procedure.run_signerList? _ _), h]
  rfl

theorem run_remove_of_some (hlist : View.signerList? contents owner = some list)
    (hdirectory : (OwnerDirectory.remove owner list.page (signersKey owner)).run contents =
      (.ok (), directory))
    (hroot : directory.entries (Slot.account owner).key = some (.accountRoot root))
    {held : Entry} (hheld : directory.entries (signersKey owner) = some held)
    (hne : signersKey owner ≠ (Slot.account owner).key) :
    (remove owner).run contents =
      (.ok list.units,
        (directory.set (Slot.account owner).key
          (some (.accountRoot (root.adjustOwnerCount (-Int64.ofNat list.units.toNat))))).set
          (signersKey owner) none) := by
  unfold remove
  rw [Procedure.run_bind_ok (Procedure.run_signerList? _ _), hlist]
  simp only
  rw [Procedure.run_bind_ok (Procedure.run_mapError_ok hdirectory),
    Procedure.run_bind_ok (Procedure.run_mapError_ok (Procedure.run_adjustOwnerCount hroot _)),
    Procedure.run_bind_ok (Procedure.run_mapError_ok (Procedure.run_remove _))]
  · rfl
  · exact held
  · rw [Contents.entries_set_of_ne _ hne, hheld]

theorem run_store {payload : Payload} {accounting : Accounting} {page : UInt64}
    (hdirectory : (OwnerDirectory.insert owner (signersKey owner)).run contents =
      (.ok page, directory))
    (hfree : directory.entries (signersKey owner) = none)
    (hroot : directory.entries (Slot.account owner).key = some (.accountRoot root))
    (hlist : list = { quorum := payload.quorum, signers := payload.signers, accounting, page })
    (hne : signersKey owner ≠ (Slot.account owner).key) :
    (store owner payload accounting).run contents =
      (.ok (page, (root.adjustOwnerCount (Int64.ofNat list.units.toNat)).ownerCount),
        (directory.set (signersKey owner) (some (.signerList list))).set (Slot.account owner).key
          (some (.accountRoot (root.adjustOwnerCount (Int64.ofNat list.units.toNat))))) := by
  subst hlist
  unfold store
  simp only
  rw [Procedure.run_bind_ok (Procedure.run_mapError_ok hdirectory),
    Procedure.run_bind_ok (Procedure.run_mapError_ok (Procedure.run_insertNew hfree _)),
    Procedure.run_bind_ok (Procedure.run_mapError_ok (Procedure.run_adjustOwnerCount _ _))]
  · rfl
  · rw [Contents.entries_set_of_ne _ hne.symm, hroot]

/-- A list is not stored if the directory has no room for its key. -/
theorem run_store_of_full {root : Key} {after : Contents} (payload : Payload)
    (accounting : Accounting)
    (hfull : (OwnerDirectory.insert owner (signersKey owner)).run contents =
      (.error (.directoryFull root), after)) :
    (store owner payload accounting).run contents =
      (.error (.claimed (.directoryFull owner)), after) := by
  unfold store
  simp only
  rw [Procedure.run_bind_error (Procedure.run_mapError_error hfull)]
  rfl

/-- The balance that a new list asks of an account with a given root. -/
def required (terms : Terms) (root : AccountRoot) (payload : Payload) : UInt64 :=
  terms.fees.accountReserve
    (Saturating.add32 root.ownerCount (terms.rules.accounting.units payload.signers.length))

/-- The old list goes first, and then the reserve decides. -/
theorem run_replace {priorBalance : UInt64} {payload : Payload} {refunded : UInt32}
    (hremove : (remove owner).run contents = (.ok refunded, cleared))
    (hroot : View.account? cleared owner = some root) :
    (replace owner priorBalance payload).run contents =
      if priorBalance < required cleared.terms root payload then
        (.error (.claimed (.insufficientReserve priorBalance (required cleared.terms root payload))),
          cleared)
      else
        ((store owner payload cleared.terms.rules.accounting).bind fun (page, ownerCount) =>
          .done (.replaced cleared.terms.rules.accounting
            (cleared.terms.rules.accounting.units payload.signers.length) refunded page
            ownerCount)).run cleared := by
  unfold replace
  rw [Procedure.run_bind_ok hremove, Procedure.run_bind_ok (Procedure.run_account? _ _), hroot,
    Procedure.run_bind_ok (Procedure.run_ofOption_some _ root _),
    Procedure.run_bind_ok (Procedure.run_getTerms _)]
  change (if priorBalance < required cleared.terms root payload then _ else _ :
    Procedure Rejection Effect).run cleared = _
  split <;> rfl

theorem run_replace_of_missing (priorBalance : UInt64) (payload : Payload) {refunded : UInt32}
    (hremove : (remove owner).run contents = (.ok refunded, cleared))
    (hroot : View.account? cleared owner = none) :
    (replace owner priorBalance payload).run contents =
      (.error (.internal (.accountMissing owner)), cleared) := by
  unfold replace
  rw [Procedure.run_bind_ok hremove, Procedure.run_bind_ok (Procedure.run_account? _ _), hroot,
    Procedure.run_bind_error (Procedure.run_ofOption_none _ _)]

/-- If the old list cannot be removed, nothing else is asked. -/
theorem run_replace_of_error (priorBalance : UInt64) (payload : Payload) {rejection : Rejection}
    (hremove : (remove owner).run contents = (.error rejection, cleared)) :
    (replace owner priorBalance payload).run contents = (.error rejection, cleared) := by
  unfold replace
  exact Procedure.run_bind_error hremove

theorem run_destroy (hroot : View.account? contents owner = some root) :
    (destroy owner).run contents =
      (if root.hasAlternativeKey then (remove owner).bind fun refunded => .done (.destroyed refunded)
        else .fail (.claimed (.noAlternativeKey owner))).run contents := by
  unfold destroy
  rw [Procedure.run_bind_ok (Procedure.run_account? _ _), hroot,
    Procedure.run_bind_ok (Procedure.run_ofOption_some _ root _)]
  rfl

theorem run_destroy_of_missing (hroot : View.account? contents owner = none) :
    (destroy owner).run contents = (.error (.internal (.accountMissing owner)), contents) := by
  unfold destroy
  rw [Procedure.run_bind_ok (Procedure.run_account? _ _), hroot,
    Procedure.run_bind_error (Procedure.run_ofOption_none _ _)]

theorem run_destroy_of_error {rejection : Rejection}
    (hroot : View.account? contents owner = some root) (hkey : root.hasAlternativeKey = true)
    (hremove : (remove owner).run contents = (.error rejection, cleared)) :
    (destroy owner).run contents = (.error rejection, cleared) := by
  rw [run_destroy hroot, if_pos hkey]
  exact Procedure.run_bind_error hremove

/-! ## Successful runs -/

/-- A removal that succeeds finds no list, or has the directory give up the list's key and then gives
back what the list was charged. -/
theorem run_remove_eq_ok {units : UInt32} {after : Contents}
    (h : (remove owner).run contents = (.ok units, after)) :
    (View.signerList? contents owner = none ∧ units = 0 ∧ after = contents) ∨
      ∃ list directory root, View.signerList? contents owner = some list ∧ units = list.units ∧
        (OwnerDirectory.remove owner list.page (signersKey owner)).run contents =
          (.ok (), directory) ∧
        directory.entries (Slot.account owner).key = some (.accountRoot root) ∧
        after = (directory.set (Slot.account owner).key
          (some (.accountRoot (root.adjustOwnerCount (-Int64.ofNat list.units.toNat))))).set
          (signersKey owner) none := by
  unfold remove at h
  rw [Procedure.run_bind_ok (Procedure.run_signerList? _ _)] at h
  cases hlist : View.signerList? contents owner with
  | none =>
      rw [hlist] at h
      cases h
      exact .inl ⟨rfl, rfl, rfl⟩
  | some list =>
      rw [hlist] at h
      obtain ⟨_, directory, hdirectory, h⟩ := Procedure.run_bind_eq_ok h
      obtain ⟨_, _, hadjust, h⟩ := Procedure.run_bind_eq_ok h
      obtain ⟨_, _, herase, h⟩ := Procedure.run_bind_eq_ok h
      obtain ⟨root, hroot, -, rfl⟩ :=
        Procedure.run_adjustOwnerCount_eq_ok (Procedure.run_mapError_eq_ok hadjust)
      obtain ⟨-, rfl⟩ := Procedure.run_remove_eq_ok (Procedure.run_mapError_eq_ok herase)
      cases h
      exact .inr ⟨list, directory, root, rfl, rfl, Procedure.run_mapError_eq_ok hdirectory, hroot,
        rfl⟩

theorem run_store_eq_ok {payload : Payload} {accounting : Accounting} {page : UInt64}
    {count : UInt32} {after : Contents}
    (h : (store owner payload accounting).run contents = (.ok (page, count), after)) :
    ∃ list directory root,
      list = { quorum := payload.quorum, signers := payload.signers, accounting, page } ∧
        (OwnerDirectory.insert owner (signersKey owner)).run contents = (.ok page, directory) ∧
        directory.entries (signersKey owner) = none ∧
        (directory.set (signersKey owner) (some (.signerList list))).entries
          (Slot.account owner).key = some (.accountRoot root) ∧
        count = (root.adjustOwnerCount (Int64.ofNat list.units.toNat)).ownerCount ∧
        after = (directory.set (signersKey owner) (some (.signerList list))).set
          (Slot.account owner).key
          (some (.accountRoot (root.adjustOwnerCount (Int64.ofNat list.units.toNat)))) := by
  unfold store at h
  obtain ⟨page', directory, hdirectory, h⟩ := Procedure.run_bind_eq_ok h
  obtain ⟨_, _, hinsert, h⟩ := Procedure.run_bind_eq_ok h
  obtain ⟨_, _, hadjust, h⟩ := Procedure.run_bind_eq_ok h
  obtain ⟨hfree, rfl⟩ := Procedure.run_insertNew_eq_ok (Procedure.run_mapError_eq_ok hinsert)
  obtain ⟨root, hroot, rfl, rfl⟩ :=
    Procedure.run_adjustOwnerCount_eq_ok (Procedure.run_mapError_eq_ok hadjust)
  cases h
  exact ⟨_, directory, root, rfl, Procedure.run_mapError_eq_ok hdirectory, hfree, hroot, rfl, rfl⟩

theorem run_replace_eq_ok {priorBalance : UInt64} {payload : Payload} {effect : Effect}
    {after : Contents} (h : (replace owner priorBalance payload).run contents = (.ok effect, after)) :
    ∃ refunded cleared root page count,
      (remove owner).run contents = (.ok refunded, cleared) ∧
        View.account? cleared owner = some root ∧
        ¬ priorBalance < required cleared.terms root payload ∧
        (store owner payload cleared.terms.rules.accounting).run cleared =
          (.ok (page, count), after) ∧
        effect = .replaced cleared.terms.rules.accounting
          (cleared.terms.rules.accounting.units payload.signers.length) refunded page count := by
  obtain ⟨refunded, cleared, hremove, -⟩ := Procedure.run_bind_eq_ok h
  cases hroot : View.account? cleared owner with
  | none =>
      rw [run_replace_of_missing priorBalance payload hremove hroot] at h
      cases h
  | some root =>
      rw [run_replace hremove hroot] at h
      split at h
      · cases h
      · next hreserve =>
        obtain ⟨⟨page, count⟩, _, hstore, h⟩ := Procedure.run_bind_eq_ok h
        cases h
        exact ⟨refunded, cleared, root, page, count, hremove, hroot, hreserve, hstore, rfl⟩

theorem run_destroy_eq_ok {effect : Effect} {after : Contents}
    (h : (destroy owner).run contents = (.ok effect, after)) :
    ∃ root refunded, View.account? contents owner = some root ∧ root.hasAlternativeKey = true ∧
      (remove owner).run contents = (.ok refunded, after) ∧ effect = .destroyed refunded := by
  cases hroot : View.account? contents owner with
  | none =>
      rw [run_destroy_of_missing hroot] at h
      cases h
  | some root =>
      rw [run_destroy hroot] at h
      split at h
      · next hkey =>
        obtain ⟨refunded, _, hremove, h⟩ := Procedure.run_bind_eq_ok h
        cases h
        exact ⟨root, refunded, rfl, hkey, hremove, rfl⟩
      · cases h

end SignerList

/-! ## Transactions -/

namespace Transaction

/-- What a transaction does is what its request does. -/
theorem run_enact_of_preflight {tx : Transaction} {action : Action}
    (h : tx.preflight = .ok ⟨tx.account, tx.priorBalance, action⟩) (contents : Contents) :
    tx.enact.run contents =
      (match action with
      | .replace payload => SignerList.replace tx.account tx.priorBalance payload
      | .destroy => SignerList.destroy tx.account).run contents := by
  unfold Transaction.enact
  rw [h]
  cases action <;> rfl

theorem exists_action {tx : Transaction} {request : Request} (h : tx.preflight = .ok request) :
    ∃ action, request = ⟨tx.account, tx.priorBalance, action⟩ := by
  obtain ⟨haccount, hbalance, -⟩ := request_eq_ok (preflight_eq_ok h).1
  exact ⟨request.action, by rw [← haccount, ← hbalance]⟩

theorem run_enact_of_malformed {tx : Transaction} {cause : Malformed}
    (h : tx.preflight = .error cause) (contents : Contents) :
    tx.enact.run contents = (.error (.malformed cause), contents) := by
  unfold Transaction.enact
  rw [h]
  rfl

section Removal

variable {tx : Transaction} {contents cleared : Contents} {refunded : UInt32}
  {root root' : AccountRoot}

/-- Once it is known how the removal of the old list runs, a transaction is rejected for a reason
that the sender has to answer for, destroys the list, or goes on to store a new one. -/
theorem run_enact_of_remove
    (hremove : (SignerList.remove tx.account).run contents = (.ok refunded, cleared))
    (hroot : View.account? contents tx.account = some root)
    (hroot' : View.account? cleared tx.account = some root') :
    (∃ rejection after, tx.enact.run contents = (.error rejection, after) ∧
        rejection.code.isInternal = false) ∨
      (root.hasAlternativeKey = true ∧ tx.enact.run contents = (.ok (.destroyed refunded), cleared)) ∨
      ∃ payload, tx.preflight = .ok ⟨tx.account, tx.priorBalance, .replace payload⟩ ∧
        ¬ tx.priorBalance < SignerList.required cleared.terms root' payload ∧
        tx.enact.run contents =
          ((SignerList.store tx.account payload cleared.terms.rules.accounting).bind
            fun (page, ownerCount) =>
              .done (.replaced cleared.terms.rules.accounting
                (cleared.terms.rules.accounting.units payload.signers.length) refunded page
                ownerCount)).run cleared := by
  cases hpreflight : tx.preflight with
  | error cause =>
      refine .inl ⟨_, _, run_enact_of_malformed hpreflight contents, ?_⟩
      exact ResultCode.isInternal_of_isMalformed cause.isMalformed_code
  | ok request =>
      obtain ⟨action, rfl⟩ := exists_action hpreflight
      rw [run_enact_of_preflight hpreflight]
      cases action with
      | replace payload =>
          simp only
          rw [SignerList.run_replace hremove hroot']
          split
          · exact .inl ⟨_, _, rfl, rfl⟩
          · next hreserve => exact .inr (.inr ⟨payload, rfl, hreserve, rfl⟩)
      | destroy =>
          simp only
          rw [SignerList.run_destroy hroot]
          split
          · next hkey =>
            rw [Procedure.run_bind, hremove]
            exact .inr (.inl ⟨hkey, rfl⟩)
          · exact .inl ⟨_, _, rfl, rfl⟩

/-- Without an account every transaction fails. -/
theorem run_enact_of_missing
    (hremove : (SignerList.remove tx.account).run contents = (.ok refunded, cleared))
    (hroot : View.account? contents tx.account = none)
    (hroot' : View.account? cleared tx.account = none) :
    ∃ rejection after, tx.enact.run contents = (.error rejection, after) := by
  cases hpreflight : tx.preflight with
  | error cause => exact ⟨_, _, run_enact_of_malformed hpreflight contents⟩
  | ok request =>
      obtain ⟨action, rfl⟩ := exists_action hpreflight
      rw [run_enact_of_preflight hpreflight]
      cases action with
      | replace payload => exact ⟨_, _, SignerList.run_replace_of_missing _ payload hremove hroot'⟩
      | destroy => exact ⟨_, _, SignerList.run_destroy_of_missing hroot⟩

end Removal

/-- A transaction that succeeds has replaced its account's list or destroyed it. -/
theorem run_enact_eq_ok {tx : Transaction} {effect : Effect} {contents after : Contents}
    (h : tx.enact.run contents = (.ok effect, after)) :
    (∃ payload, tx.preflight = .ok ⟨tx.account, tx.priorBalance, .replace payload⟩ ∧
        (SignerList.replace tx.account tx.priorBalance payload).run contents =
          (.ok effect, after)) ∨
      (tx.preflight = .ok ⟨tx.account, tx.priorBalance, .destroy⟩ ∧
        (SignerList.destroy tx.account).run contents = (.ok effect, after)) := by
  cases hpreflight : tx.preflight with
  | error cause =>
      rw [run_enact_of_malformed hpreflight] at h
      cases h
  | ok request =>
      obtain ⟨action, rfl⟩ := exists_action hpreflight
      rw [run_enact_of_preflight hpreflight] at h
      cases action with
      | replace payload => exact .inl ⟨payload, rfl, h⟩
      | destroy => exact .inr ⟨rfl, h⟩

end Transaction

end Cosign
