-- SUMMARY: Of account roots, operations on signer lists write nothing but the owner count.
import Cosign.Proofs.Directory.Others
import Cosign.Proofs.Enactment

/-!
# Profiles

The profile of an account is its root but for the owner count: balance, flags, keys
and sequence. No transaction that succeeds changes an account's profile, its
sender's or another's (`Transaction.profile?_run`). This holds of any contents: a
key that holds a root is never inserted or erased, whichever slots may share it.
-/

namespace Cosign

/-- The root of an account, if it has one, with its owner count left out. -/
def View.profile? {σ : Type} [View σ] (view : σ) (id : AccountId) : Option AccountRoot :=
  (account? view id).map fun root => { root with ownerCount := 0 }

/-- An account that keeps its profile has the root it had, but for the owner count. -/
theorem View.exists_count_of_profile? {contents contents' : Contents} {id : AccountId}
    {root : AccountRoot} (hprofile : profile? contents' id = profile? contents id)
    (hroot : View.find? contents (Slot.account id).key = some (.accountRoot root)) :
    ∃ count, View.find? contents' (Slot.account id).key =
      some (.accountRoot { root with ownerCount := count }) := by
  have hfound : account? contents id = some root := account?_of_entries hroot
  unfold profile? at hprofile
  rw [hfound] at hprofile
  obtain ⟨root', hroot', heq⟩ := Option.map_eq_some_iff.1 hprofile
  refine ⟨root'.ownerCount, (entries_of_account? hroot').trans ?_⟩
  refine congrArg (fun root => some (Entry.accountRoot root)) ?_
  calc root'
    _ = { { root' with ownerCount := 0 } with ownerCount := root'.ownerCount } := rfl
    _ = { root with ownerCount := root'.ownerCount } := by rw [heq]

/-! ## Writes -/

namespace Contents

variable {contents : Contents} {key : Key} {root : AccountRoot}

/-- Whoever's count it is that moves, nobody's profile changes. -/
theorem profile?_adjust (hroot : contents.entries key = some (.accountRoot root)) (delta : Int64)
    (id : AccountId) :
    View.profile? (contents.set key (some (.accountRoot (root.adjustOwnerCount delta)))) id =
      View.profile? contents id := by
  simp only [View.profile?, View.account?, View.find?, entries_set]
  split
  · next hkey =>
    rw [hkey, hroot]
    rfl
  · rfl

theorem signerList?_adjust (hroot : contents.entries key = some (.accountRoot root))
    (delta : Int64) (id : AccountId) :
    View.signerList? (contents.set key (some (.accountRoot (root.adjustOwnerCount delta)))) id =
      View.signerList? contents id := by
  simp only [View.signerList?, View.find?, entries_set]
  split
  · next hkey =>
    rw [hkey, hroot]
    rfl
  · rfl

/-- Where there is no root, lists come and go without touching one. -/
theorem profile?_set_list (hfree : (contents.entries key).bind Entry.accountRoot? = none)
    (list? : Option SignerList) (id : AccountId) :
    View.profile? (contents.set key (list?.map Entry.signerList)) id =
      View.profile? contents id := by
  simp only [View.profile?, View.account?, View.find?, entries_set]
  split
  · next hkey =>
    rw [hkey, hfree]
    cases list? <;> rfl
  · rfl

/-- There is no root where there is a list. -/
theorem accountRoot?_eq_none {id : AccountId} {list : SignerList}
    (h : View.signerList? contents id = some list) :
    (contents.entries (signersKey id)).bind Entry.accountRoot? = none := by
  rw [View.entries_of_signerList? h]
  rfl

theorem profile?_eq_of_others {contents' : Contents} (h : contents'.others = contents.others)
    (id : AccountId) : View.profile? contents' id = View.profile? contents id := by
  unfold View.profile?
  rw [account?_eq_of_others h]

end Contents

/-! ## Operations -/

namespace SignerList

variable {owner : AccountId} {contents after : Contents}

theorem profile?_run_remove {units : UInt32}
    (h : (remove owner).run contents = (.ok units, after)) (id : AccountId) :
    View.profile? after id = View.profile? contents id := by
  rcases run_remove_eq_ok h with ⟨-, -, rfl⟩ | ⟨list, directory, root, hlist, -, hrun, hroot, rfl⟩
  · rfl
  · have hothers := OwnerDirectory.others_of_run_remove hrun
    -- The list is still there when it is erased, so what is erased is not a root.
    have hheld := (Contents.signerList?_adjust hroot (-Int64.ofNat list.units.toNat) owner).trans
      ((Contents.signerList?_eq_of_others hothers owner).trans hlist)
    calc View.profile? _ id
      _ = View.profile? (directory.set (Slot.account owner).key _) id :=
        Contents.profile?_set_list (Contents.accountRoot?_eq_none hheld) none id
      _ = View.profile? directory id := Contents.profile?_adjust hroot _ id
      _ = View.profile? contents id := Contents.profile?_eq_of_others hothers id

theorem profile?_run_store {payload : Payload} {accounting : Accounting} {page : UInt64}
    {count : UInt32} (h : (store owner payload accounting).run contents = (.ok (page, count), after))
    (id : AccountId) : View.profile? after id = View.profile? contents id := by
  obtain ⟨list, directory, root, -, hrun, hfree, hroot, -, rfl⟩ := run_store_eq_ok h
  calc View.profile? _ id
    _ = View.profile? (directory.set (signersKey owner) _) id :=
      Contents.profile?_adjust hroot _ id
    _ = View.profile? directory id :=
      Contents.profile?_set_list (by rw [hfree]; rfl) (some list) id
    _ = View.profile? contents id :=
      Contents.profile?_eq_of_others (OwnerDirectory.others_of_run_insert hrun) id

end SignerList

/-- A transaction that succeeds leaves everybody's profile as it was. -/
theorem Transaction.profile?_run {tx : Transaction} {effect : Effect} {contents after : Contents}
    (h : tx.enact.run contents = (.ok effect, after)) (id : AccountId) :
    View.profile? after id = View.profile? contents id := by
  rcases Transaction.run_enact_eq_ok h with ⟨payload, -, hreplace⟩ | ⟨-, hdestroy⟩
  · obtain ⟨_, _, _, _, _, hremove, -, -, hstore, -⟩ := SignerList.run_replace_eq_ok hreplace
    exact (SignerList.profile?_run_store hstore id).trans (SignerList.profile?_run_remove hremove id)
  · obtain ⟨_, _, -, -, hremove, -⟩ := SignerList.run_destroy_eq_ok hdestroy
    exact SignerList.profile?_run_remove hremove id

end Cosign
