-- SUMMARY: The owner count a view stores is the exact sum cut off at the ends of its word, and the reserve is asked for that same count.
import Cosign.Proofs.Directory.Others
import Cosign.Proofs.Enactment
import Cosign.Proofs.OwnerCount

/-!
# Counts and reserves

An owner count is computed in two ways. A root moves it by a signed step through a wider word;
the check of the reserve adds unsigned units to it. Both stop at the greatest count, so they
agree (`AccountRoot.ownerCount_adjust_add`), and a list is only stored if the balance covers
the reserve for the very count that is stored with it (`SignerList.run_replace_covered`).
Moving the count up and down again restores it unless it was stopped on the way up.
-/

namespace Cosign

namespace AccountRoot

/-- Only the count is moved. -/
theorem adjustOwnerCount_eq (root : AccountRoot) (delta : Int64) :
    root.adjustOwnerCount delta =
      { root with ownerCount := (root.adjustOwnerCount delta).ownerCount } := by
  unfold adjustOwnerCount
  simp only

/-- Moving the count up by units is adding them to it. -/
theorem ownerCount_adjust_add (root : AccountRoot) (units : UInt32) :
    (root.adjustOwnerCount (Int64.ofNat units.toNat)).ownerCount =
      Saturating.add32 root.ownerCount units := by
  apply UInt32.toNat_inj.1
  exact (root.toNat_adjustOwnerCount_add units).trans (Saturating.toNat_add32 _ _).symm

theorem ownerCount_adjust_add_sub_iff (root : AccountRoot) (units : UInt32) :
    ((root.adjustOwnerCount (Int64.ofNat units.toNat)).adjustOwnerCount
        (-Int64.ofNat units.toNat)).ownerCount = root.ownerCount ↔
      root.ownerCount.toNat + units.toNat ≤ 4294967295 := by
  constructor
  · intro hrestored
    have hunits := units.toNat_lt
    have hadd := root.toNat_adjustOwnerCount_add units
    have hsub := (root.adjustOwnerCount (Int64.ofNat units.toNat)).toNat_adjustOwnerCount_sub units
    rw [hrestored] at hsub
    omega
  · intro hfits
    exact congrArg ownerCount (adjustOwnerCount_add_sub (Nat.lt_succ_of_le hfits))

end AccountRoot

/-! ## Counts on views -/

section

variable {σ : Type} [View σ] [LawfulView σ] {view after : σ}

theorem Procedure.run_adjustOwnerCount_of_root {id : AccountId} {root : AccountRoot}
    (h : View.account? view id = some root) (delta : Int64) :
    ∃ changed, (adjustOwnerCount id delta).run view =
        (.ok (root.adjustOwnerCount delta).ownerCount, changed) ∧
      View.terms changed = View.terms view ∧
      ∀ key, View.find? changed key =
        if key = (Slot.account id).key then some (.accountRoot (root.adjustOwnerCount delta))
        else View.find? view key := by
  have hentry := @View.entries_of_account? (View.contents view) id root h
  obtain ⟨changed, hrun, hshown⟩ := run_of_contents (run_adjustOwnerCount hentry delta)
  exact ⟨changed, hrun, congrArg Contents.terms hshown,
    fun key => congrFun (congrArg Contents.entries hshown) key⟩

theorem View.account?_set_self (contents : Contents) (id : AccountId) (root : AccountRoot) :
    View.account? (contents.set (Slot.account id).key (some (.accountRoot root))) id = some root :=
  View.account?_of_entries (Contents.entries_set_self _ _ _)

namespace SignerList

/-- What is stored with a list is the count that a saturating addition gives. -/
theorem run_store_count {owner : AccountId} {payload : Payload} {accounting : Accounting}
    {page : UInt64} {count : UInt32} {cleared stored : Contents} {root : AccountRoot}
    (hroot : View.account? cleared owner = some root)
    (h : (store owner payload accounting).run cleared = (.ok (page, count), stored)) :
    count = Saturating.add32 root.ownerCount (accounting.units payload.signers.length) ∧
      (View.account? stored owner).map AccountRoot.ownerCount = some count := by
  obtain ⟨list, directory, before, rfl, hrun, hfree, hbefore, rfl, rfl⟩ := run_store_eq_ok h
  -- Where the new list is stored there was nothing, so the root is somewhere else.
  have hne : (Slot.account owner).key ≠ signersKey owner := by
    intro heq
    rw [heq, Contents.entries_set_self] at hbefore
    cases hbefore
  rw [Contents.entries_set_of_ne _ hne] at hbefore
  have hsame : View.account? directory owner = some root :=
    (Contents.account?_eq_of_others (OwnerDirectory.others_of_run_insert hrun) owner).trans hroot
  obtain rfl : root = before :=
    Option.some_inj.1 (hsame.symm.trans (View.account?_of_entries hbefore))
  exact ⟨root.ownerCount_adjust_add _,
    congrArg (Option.map AccountRoot.ownerCount) (View.account?_set_self _ _ _)⟩

/-- A list is stored only if the balance covers the reserve for the count that is stored with it. -/
theorem run_replace_covered {owner : AccountId} {priorBalance : UInt64} {payload : Payload}
    {accounting : Accounting} {charged refunded count : UInt32} {page : UInt64}
    (h : (replace owner priorBalance payload).run view =
      (.ok (.replaced accounting charged refunded page count), after)) :
    (View.terms view).fees.accountReserve count ≤ priorBalance ∧
      (View.account? after owner).map AccountRoot.ownerCount = some count := by
  obtain ⟨hresult, hafter⟩ := (replace owner priorBalance payload).run_contents view
  rw [h] at hresult hafter
  obtain ⟨refunded', cleared, root, page', count', hremove, hroot, hreserve, hstore, heffect⟩ :=
    run_replace_eq_ok (Prod.ext hresult.symm hafter.symm)
  cases heffect
  have hterms : cleared.terms = View.terms view := Procedure.terms_eq_of_run hremove
  obtain ⟨hcount, hstored⟩ := run_store_count hroot hstore
  refine ⟨?_, hstored⟩
  rw [← hterms, hcount]
  exact UInt64.not_lt.1 hreserve

end SignerList

/-- A step moves the owner count by the exact amount, cut off at zero and at the greatest count, and
moves nothing else; on a view the new count is both stored and given back. A step up and down again
restores the count unless the sum exceeds the greatest count. Steps up agree with the saturating sum
that the reserve is asked for, so that no list is stored under a count that the balance does not
cover. -/
theorem AccountRoot.ownerCount_clamped (root : AccountRoot) (delta : Int64) (units : UInt32) :
    (∃ count : UInt32,
      (count.toNat : Int) = min 4294967295 (max 0 (root.ownerCount.toNat + delta.toInt)) ∧
      root.adjustOwnerCount delta = { root with ownerCount := count } ∧
      ∀ (view : σ) (id : AccountId), View.account? view id = some root →
        ∃ changed, (Procedure.adjustOwnerCount id delta).run view = (.ok count, changed) ∧
          View.terms changed = View.terms view ∧
          ∀ key, View.find? changed key =
            if key = (Slot.account id).key then some (.accountRoot { root with ownerCount := count })
            else View.find? view key) ∧
      (((root.adjustOwnerCount (Int64.ofNat units.toNat)).adjustOwnerCount
          (-Int64.ofNat units.toNat)).ownerCount = root.ownerCount ↔
        root.ownerCount.toNat + units.toNat ≤ 4294967295) ∧
      Saturating.add32 root.ownerCount units =
        (root.adjustOwnerCount (Int64.ofNat units.toNat)).ownerCount ∧
      ∀ (view after : σ) (owner : AccountId) (priorBalance : UInt64) (payload : Payload)
        (accounting : Accounting) (charged refunded count : UInt32) (page : UInt64),
        (SignerList.replace owner priorBalance payload).run view =
            (.ok (.replaced accounting charged refunded page count), after) →
          (View.terms view).fees.accountReserve count ≤ priorBalance ∧
            (View.account? after owner).map AccountRoot.ownerCount = some count := by
  refine ⟨⟨(root.adjustOwnerCount delta).ownerCount, ?_, root.adjustOwnerCount_eq delta, ?_⟩,
    root.ownerCount_adjust_add_sub_iff units, (root.ownerCount_adjust_add units).symm, ?_⟩
  · have hstep := root.toNat_adjustOwnerCount delta
    omega
  · intro view id hroot
    exact Procedure.run_adjustOwnerCount_of_root hroot delta
  · intro view after owner priorBalance payload accounting charged refunded count page hrun
    exact SignerList.run_replace_covered hrun

end

/-- A count one short of the greatest is stopped there by the greatest step, and by the three units of
a list, for which the reserve is asked as if they had just fitted. -/
theorem AccountRoot.ownerCount_clamped_at_greatest :
    let root : AccountRoot :=
      { account := .zero, balance := 21474836495, ownerCount := 4294967294 }
    let ledger :=
      (Ledger.empty { fees := { reserve := 20, increment := 5 } }).putAccount root
    ∃ changed after : Ledger,
      (Procedure.adjustOwnerCount .zero 9223372036854775807).run ledger =
          (.ok 4294967295, changed) ∧
        View.account? changed .zero = some { root with ownerCount := 4294967295 } ∧
        (SignerList.replace .zero 21474836495 ⟨1, [⟨.ofLow 1, 1⟩]⟩).run ledger =
          (.ok (.replaced .legacy 3 0 0 4294967295), after) ∧
        ledger.terms.fees.accountReserve 4294967295 ≤ 21474836495 := by
  intro root ledger
  obtain ⟨hroot, hreplace⟩ : View.account? ledger .zero = some root ∧
      ((SignerList.replace .zero 21474836495 ⟨1, [⟨.ofLow 1, 1⟩]⟩).run ledger).1 =
        .ok (.replaced .legacy 3 0 0 4294967295) := by
    decide +kernel
  obtain ⟨⟨count, hcount, -, hstored⟩, -, -, hcovered⟩ :=
    @AccountRoot.ownerCount_clamped Ledger _ _ root 9223372036854775807 3
  obtain rfl : count = 4294967295 := by
    apply UInt32.toNat_inj.1
    have hgreatest : min 4294967295 (max 0 ((root.ownerCount.toNat : Int) +
        (9223372036854775807 : Int64).toInt)) = 4294967295 := by decide
    rw [hgreatest] at hcount
    exact Int.ofNat_inj.1 hcount
  obtain ⟨changed, hrun, -, hfound⟩ := hstored ledger .zero hroot
  rcases hafter : (SignerList.replace .zero 21474836495 ⟨1, [⟨.ofLow 1, 1⟩]⟩).run ledger with
    ⟨result, after⟩
  rw [hafter] at hreplace
  obtain rfl := hreplace
  refine ⟨changed, after, hrun, ?_, rfl, (hcovered _ _ _ _ _ _ _ _ _ _ hafter).1⟩
  unfold View.account?
  rw [hfound, if_pos rfl]
  rfl

end Cosign
