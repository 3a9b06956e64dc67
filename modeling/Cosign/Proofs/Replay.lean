-- SUMMARY: A transaction that has succeeded changes nothing when it is applied again.
import Cosign.Proofs.Upkeep

/-!
# Replays

A replacement looks at the past through one thing only: what the removal of the
old list leaves (`SignerList.run_replace_of_cleared`). After a list is stored,
removing it leaves what had been left before, for the units added to the owner
count are taken away again. So the same list is stored at the same place with the
same reserve, and all that has been erased and created in between cancels out:
a transaction that succeeds in a run can be applied again at once, with success
and without a change (`Run.apply_again`).
-/

namespace Cosign

/-- What a transaction has done at first and what it does once more: a list is exchanged for itself, and
of a list that is gone there is nothing left to destroy. -/
inductive Repeated (tx : Transaction) : Effect → Effect → Prop
  | replaced {payload : Payload}
      (hpreflight : tx.preflight = .ok ⟨tx.account, tx.priorBalance, .replace payload⟩)
      (accounting : Accounting) (charged refunded : UInt32) (page : UInt64) (ownerCount : UInt32) :
      Repeated tx (.replaced accounting charged refunded page ownerCount)
        (.replaced accounting charged charged page ownerCount)
  | destroyed (hpreflight : tx.preflight = .ok ⟨tx.account, tx.priorBalance, .destroy⟩)
      (refunded : UInt32) : Repeated tx (.destroyed refunded) (.destroyed 0)

namespace SignerList

variable {owner : AccountId} {contents contents' cleared after : Contents}
  {refunded refunded' : UInt32} {priorBalance : UInt64} {payload : Payload} {effect : Effect}

/-- A replacement that succeeds does so wherever the removal of the old list leaves the same. Only the
refund is that of the list removed. -/
theorem run_replace_of_cleared
    (h : (replace owner priorBalance payload).run contents = (.ok effect, after))
    (hremove : (remove owner).run contents = (.ok refunded, cleared))
    (hremove' : (remove owner).run contents' = (.ok refunded', cleared)) :
    ∃ page count,
      effect = .replaced cleared.terms.rules.accounting
        (cleared.terms.rules.accounting.units payload.signers.length) refunded page count ∧
      (replace owner priorBalance payload).run contents' =
        (.ok (.replaced cleared.terms.rules.accounting
          (cleared.terms.rules.accounting.units payload.signers.length) refunded' page count),
          after) := by
  obtain ⟨_, _, root, page, count, hfirst, hroot, hreserve, hstore, rfl⟩ := run_replace_eq_ok h
  cases hremove.symm.trans hfirst
  refine ⟨page, count, rfl, ?_⟩
  rw [run_replace hremove' hroot, if_neg hreserve, Procedure.run_bind, hstore]
  rfl

/-- Where there is no list, a destruction that is permitted does nothing. -/
theorem run_destroy_of_none {root : AccountRoot} (hroot : View.account? contents owner = some root)
    (hkey : root.hasAlternativeKey = true) (hlist : View.signerList? contents owner = none) :
    (destroy owner).run contents = (.ok (.destroyed 0), contents) := by
  rw [run_destroy hroot, if_pos hkey, Procedure.run_bind, run_remove_of_none hlist]
  rfl

end SignerList

/-! ## Estates -/

namespace Estate

variable {estate : Estate} {root : AccountRoot} {contents : Contents}

/-- A list that is stored and removed again leaves the estate of before, if the count has room. -/
theorem cleared_withList {list : SignerList}
    (hfits : root.ownerCount.toNat + list.units.toNat < 4294967296) :
    (withList root list).cleared = ⟨some root, none⟩ := by
  exact congrArg (fun root => Estate.mk (some root) none)
    (AccountRoot.adjustOwnerCount_add_sub hfits)

/-- What a transaction makes of an estate in order it makes of the result once more. -/
theorem Holds.run_enact_again {tx : Transaction} {effect : Effect} {after : Contents}
    (h : Holds contents tx.account estate) (hapart : Apart tx.account)
    (horderly : Orderly tx.account estate) (hrun : tx.enact.run contents = (.ok effect, after)) :
    ∃ again, Repeated tx effect again ∧ tx.enact.run after = (.ok again, after) := by
  rcases h.run_enact hapart horderly.toPlaced with
    ⟨effect', estate', hfirst, henacted⟩ | ⟨rejection, contents', hfirst, -⟩
  swap
  · cases hfirst.symm.trans hrun
  cases hfirst.symm.trans hrun
  have hafter := holds_put hapart contents estate'
  cases henacted with
  | @replaced payload root hpreflight hroot =>
      have hplaced := placed_withList root payload contents.terms.rules.accounting
      -- An account whose list is gone owns nothing, so the new units fit and can be taken away again.
      have hzero : root.ownerCount.toNat = 0 := by
        rw [horderly.cleared.count root hroot, Estate.units, list?_cleared]
        rfl
      have hsame : (withList root (stored payload contents.terms.rules.accounting)).cleared =
          estate.cleared := by
        rw [cleared_withList (by rw [hzero, Nat.zero_add]; exact UInt32.toNat_lt _), ← hroot,
          ← estate.list?_cleared]
      have hremove := h.run_remove hapart horderly.toPlaced
      have hremove' := hafter.run_remove hapart hplaced
      rw [hsame, put_put hapart] at hremove'
      rw [Transaction.run_enact_of_preflight hpreflight] at hrun ⊢
      obtain ⟨_, _, heffect, hagain⟩ := SignerList.run_replace_of_cleared hrun hremove hremove'
      cases heffect
      exact ⟨_, .replaced hpreflight _ _ _ _ _, hagain⟩
  | destroyed hroot hkey =>
      obtain ⟨root', hroot', hkey'⟩ := exists_root?_cleared hroot
      rcases Transaction.run_enact_eq_ok hrun with ⟨payload, -, hreplace⟩ | ⟨hpreflight, -⟩
      · obtain ⟨_, _, _, _, _, -, -, -, -, heffect⟩ := SignerList.run_replace_eq_ok hreplace
        cases heffect
      · rw [Transaction.run_enact_of_preflight hpreflight]
        exact ⟨_, .destroyed hpreflight _, SignerList.run_destroy_of_none
          (hafter.account?_eq.trans hroot') (hkey'.trans hkey)
          (hafter.signerList?_eq.trans estate.list?_cleared)⟩

end Estate

/-! ## Runs -/

namespace Run

variable {accounts : Set AccountId} {terms : Terms} {config : Config}
  {service service' : Service} {ledger ledger' : Ledger} {tx : Transaction} {report : Report}

/-- A transaction that has succeeded succeeds again if it is applied at once to what it has left. It
changes no entry, refunds what it has charged, or nothing if the list is gone, and comes to the same
page and owner count. -/
theorem apply_again (h : Run accounts terms config service ledger) (hapart : SlotsApart accounts)
    (hnamed : tx.account ∈ accounts) (happly : service.apply ledger tx = .ok (report, service', ledger'))
    (hsuccess : report.code = .success) :
    ∃ effect changes again, report = .success effect changes ∧ Repeated tx effect again ∧
      service'.apply ledger' tx =
        .ok (.success again 0, service'.note (.success again 0), ledger') := by
  cases hhalted : service.halted? with
  | some halted =>
      rw [Service.apply_of_halted hhalted] at happly
      cases happly
  | none =>
      rw [Service.apply_of_ready hhalted] at happly
      cases happly
      rcases tx.report_apply ledger with ⟨effect, changes, hreport⟩ | ⟨rejection, _, -, hreport⟩
      · obtain ⟨estate, hholds, horderly⟩ := (h.kept hapart).each tx.account hnamed
        have hrun := Transaction.run_of_effect? (congrArg Report.effect? hreport)
        obtain ⟨again, hrepeated, hagain⟩ :=
          hholds.run_enact_again (hapart.apart hnamed) horderly hrun
        have hready : (service.note (tx.apply ledger).1).halted? = none := by
          rw [hreport]
          exact Service.halted?_note_success hhalted effect changes
        refine ⟨effect, changes, again, hreport, hrepeated, ?_⟩
        rw [Service.apply_of_ready hready, Transaction.apply_idle hagain]
      · rw [hreport] at hsuccess
        exact absurd hsuccess rejection.code_ne_success

/-- The first list of an account that has been put is charged three units. Exchanged for itself it gives
them back and is charged them again. -/
theorem apply_again_set :
    let ledger := (Ledger.empty {}).putAccount { account := .zero, balance := 100000000 }
    let set := Transaction.set .zero 1 [⟨.ofLow 1, 1⟩] 100000000
    let service := (Service.ofConfig {}).note (set.apply ledger).1
    (set.apply ledger).1 = .success (.replaced .legacy 3 0 0 3) 3 ∧
      service.apply (set.apply ledger).2 set =
        .ok (.success (.replaced .legacy 3 3 0 3) 0,
          service.note (.success (.replaced .legacy 3 3 0 3) 0), (set.apply ledger).2) := by
  intro ledger set service
  have hapart : SlotsApart {AccountId.zero} := by
    rintro _ rfl _ rfl
    decide +kernel
  have hput : Run {AccountId.zero} {} {} (.ofConfig {}) ledger :=
    .putAccount .start _ rfl (by simp [View.account?, Ledger.find?_eq, Ledger.empty])
  have hreport : (set.apply ledger).1 = .success (.replaced .legacy 3 0 0 3) 3 := by
    decide +kernel
  have happly := Service.apply_of_ready (show (Service.ofConfig {}).halted? = none from rfl)
    ledger set
  have hnamed : set.account ∈ ({AccountId.zero} : Set AccountId) := rfl
  obtain ⟨_, _, _, hfirst, hrepeated, hagain⟩ :=
    hput.apply_again hapart hnamed happly (congrArg Report.code hreport)
  cases hreport.symm.trans hfirst
  cases hrepeated
  exact ⟨hreport, hagain⟩

end Run

end Cosign
