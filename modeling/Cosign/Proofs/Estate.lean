-- SUMMARY: What an account has to itself, and what operations on its signer list make of that.
import Cosign.Proofs.Directory.Run
import Cosign.Proofs.Enactment
import Cosign.Proofs.OwnerCount
import Cosign.Proofs.Preflight

/-!
# Estates

The estate of an account that owns nothing but its signer list is its root and
that list. It takes up three slots of a ledger: the account's, the list's and, as
long as there is a list, the root page of the owner's directory, which names the
list and nothing else. On contents that hold an estate every operation on signer
lists is an operation on the estate.
-/

namespace Cosign

structure Estate where
  root? : Option AccountRoot
  list? : Option SignerList

namespace Estate

variable {id : AccountId} {contents : Contents} {estate : Estate} {root : AccountRoot}
  {list : SignerList}

/-! ## Slots -/

/-- The three slots of an account's estate. -/
def slots (id : AccountId) : List Slot := [.account id, .ownerDirectory id, .signers id]

/-- The slots of an account have different keys. -/
structure Apart (id : AccountId) : Prop where
  directory_ne_account : ownerDirectoryKey id ≠ (Slot.account id).key
  signers_ne_account : signersKey id ≠ (Slot.account id).key
  signers_ne_directory : signersKey id ≠ ownerDirectoryKey id

/-- The only page of an owner's directory, which names the signer list. -/
def page (id : AccountId) : DirectoryPage :=
  { root := ownerDirectoryKey id, owner := some id, keys := [signersKey id] }

/-- The contents hold an estate in the slots of its account. -/
structure Holds (contents : Contents) (id : AccountId) (estate : Estate) : Prop where
  root : contents.entries (Slot.account id).key = estate.root?.map Entry.accountRoot
  directory : contents.entries (ownerDirectoryKey id) =
    estate.list?.map fun _ => .directoryPage (page id)
  list : contents.entries (signersKey id) = estate.list?.map Entry.signerList

/-- The contents with an estate put in the slots of its account. -/
def put (contents : Contents) (id : AccountId) (estate : Estate) : Contents :=
  ((contents.set (ownerDirectoryKey id) (estate.list?.map fun _ => .directoryPage (page id))).set
      (Slot.account id).key (estate.root?.map Entry.accountRoot)).set
    (signersKey id) (estate.list?.map Entry.signerList)

theorem holds_put (hapart : Apart id) (contents : Contents) (estate : Estate) :
    Holds (put contents id estate) id estate where
  root := by
    unfold put
    rw [Contents.entries_set_of_ne _ hapart.signers_ne_account.symm, Contents.entries_set_self]
  directory := by
    unfold put
    rw [Contents.entries_set_of_ne _ hapart.signers_ne_directory.symm,
      Contents.entries_set_of_ne _ hapart.directory_ne_account, Contents.entries_set_self]
  list := Contents.entries_set_self _ _ _

theorem entries_put_of_ne {key : Key} (h : ∀ slot ∈ slots id, key ≠ slot.key)
    (contents : Contents) (estate : Estate) :
    (put contents id estate).entries key = contents.entries key := by
  have hsigners : key ≠ signersKey id := h (.signers id) (by simp [slots])
  have haccount : key ≠ (Slot.account id).key := h (.account id) (by simp [slots])
  have hdirectory : key ≠ ownerDirectoryKey id := h (.ownerDirectory id) (by simp [slots])
  unfold put
  rw [Contents.entries_set_of_ne _ hsigners, Contents.entries_set_of_ne _ haccount,
    Contents.entries_set_of_ne _ hdirectory]

namespace Holds

theorem account?_eq (h : Holds contents id estate) : View.account? contents id = estate.root? :=
  View.account?_of_entries h.root

theorem signerList?_eq (h : Holds contents id estate) :
    View.signerList? contents id = estate.list? :=
  View.signerList?_of_entries h.list

/-- Contents that hold an estate are those with it put in. -/
theorem put_eq (h : Holds contents id estate) : put contents id estate = contents := by
  unfold put
  rw [Contents.set_eq_self h.directory, Contents.set_eq_self h.root, Contents.set_eq_self h.list]

end Holds

/-- Contents are the same if they hold the same estate and agree on all other keys. -/
theorem Holds.ext {contents' : Contents} (h : Holds contents id estate)
    (h' : Holds contents' id estate) (hterms : contents.terms = contents'.terms)
    (hother : ∀ key, (∀ slot ∈ slots id, key ≠ slot.key) →
      contents.entries key = contents'.entries key) : contents = contents' := by
  refine Contents.ext hterms (funext fun key => ?_)
  by_cases hkey : ∀ slot ∈ slots id, key ≠ slot.key
  · exact hother key hkey
  · push Not at hkey
    obtain ⟨slot, hslot, rfl⟩ := hkey
    simp only [slots, List.mem_cons, List.not_mem_nil, or_false] at hslot
    rcases hslot with rfl | rfl | rfl
    · rw [h.root, h'.root]
    · exact h.directory.trans h'.directory.symm
    · exact h.list.trans h'.list.symm

/-- Only the estate put last counts. -/
theorem put_put (hapart : Apart id) (contents : Contents) (first second : Estate) :
    put (put contents id first) id second = put contents id second := by
  refine Holds.ext (holds_put hapart _ second) (holds_put hapart _ second) rfl fun key hkey => ?_
  rw [entries_put_of_ne hkey, entries_put_of_ne hkey, entries_put_of_ne hkey]

/-! ## Operations -/

/-- The units charged for the list, if there is one. -/
def units (estate : Estate) : UInt32 := (estate.list?.map SignerList.units).getD 0

/-- The estate without its list, whose units are given back. -/
def cleared (estate : Estate) : Estate :=
  match estate.list? with
  | none => estate
  | some list =>
    { root? := estate.root?.map (·.adjustOwnerCount (-Int64.ofNat list.units.toNat))
      list? := none }

/-- The list that is stored for a payload, on the root page. -/
def stored (payload : Payload) (accounting : Accounting) : SignerList :=
  { quorum := payload.quorum, signers := payload.signers, accounting, page := 0 }

/-- The estate of an account with a given root once a list is stored and charged. -/
def withList (root : AccountRoot) (list : SignerList) : Estate where
  root? := some (root.adjustOwnerCount (Int64.ofNat list.units.toNat))
  list? := some list

/-- A list comes with the root of its account and is on the root page of the directory. -/
structure Placed (estate : Estate) : Prop where
  root : estate.root? = none → estate.list? = none
  page : ∀ list, estate.list? = some list → list.page = 0

theorem Holds.run_remove (h : Holds contents id estate) (hapart : Apart id)
    (hplaced : Placed estate) :
    (SignerList.remove id).run contents =
      (.ok estate.units, put contents id estate.cleared) := by
  obtain ⟨root?, list?⟩ := estate
  cases list? with
  | none =>
      rw [SignerList.run_remove_of_none h.signerList?_eq]
      exact congrArg (Prod.mk _) h.put_eq.symm
  | some list =>
      obtain ⟨root, rfl⟩ : ∃ root, root? = some root :=
        Option.ne_none_iff_exists'.1 fun hnone => nomatch hplaced.root hnone
      have hpage : list.page = 0 := hplaced.page list rfl
      have hdirectory : (OwnerDirectory.remove id list.page (signersKey id)).run contents =
          (.ok (), contents.set (ownerDirectoryKey id) none) := by
        rw [hpage]
        exact Directory.run_remove_only h.directory
      have hroot : (contents.set (ownerDirectoryKey id) none).entries (Slot.account id).key =
          some (.accountRoot root) := by
        rw [Contents.entries_set_of_ne _ hapart.directory_ne_account.symm, h.root]
        rfl
      have hheld : (contents.set (ownerDirectoryKey id) none).entries (signersKey id) =
          some (.signerList list) := by
        rw [Contents.entries_set_of_ne _ hapart.signers_ne_directory, h.list]
        rfl
      rw [SignerList.run_remove_of_some h.signerList?_eq hdirectory hroot hheld
        hapart.signers_ne_account]
      rfl

theorem Holds.run_store (h : Holds contents id ⟨some root, none⟩) (hapart : Apart id)
    (payload : Payload) (accounting : Accounting) :
    (SignerList.store id payload accounting).run contents =
      (.ok (0, (root.adjustOwnerCount
          (Int64.ofNat (stored payload accounting).units.toNat)).ownerCount),
        put contents id (withList root (stored payload accounting))) := by
  have hdirectory : (OwnerDirectory.insert id (signersKey id)).run contents =
      (.ok 0, contents.set (ownerDirectoryKey id) (some (.directoryPage (page id)))) :=
    Directory.run_insert_of_none h.directory (some id) (signersKey id)
  have hfree : (contents.set (ownerDirectoryKey id) (some (.directoryPage (page id)))).entries
      (signersKey id) = none := by
    rw [Contents.entries_set_of_ne _ hapart.signers_ne_directory, h.list]
    rfl
  have hroot : (contents.set (ownerDirectoryKey id) (some (.directoryPage (page id)))).entries
      (Slot.account id).key = some (.accountRoot root) := by
    rw [Contents.entries_set_of_ne _ hapart.directory_ne_account.symm, h.root]
    rfl
  rw [SignerList.run_store hdirectory hfree hroot (show stored payload accounting = _ from rfl)
    hapart.signers_ne_account]
  refine congrArg (Prod.mk _) ?_
  exact Contents.set_comm _ hapart.signers_ne_account _ _

theorem list?_cleared (estate : Estate) : estate.cleared.list? = none := by
  unfold cleared
  split
  · assumption
  · rfl

theorem Placed.cleared (_ : Placed estate) : Placed estate.cleared where
  root _ := estate.list?_cleared
  page _ hlist := nomatch estate.list?_cleared.symm.trans hlist

theorem placed_withList (root : AccountRoot) (payload : Payload) (accounting : Accounting) :
    Placed (withList root (stored payload accounting)) where
  root h := nomatch h
  page := by
    rintro list ⟨⟩
    rfl

end Estate

end Cosign
