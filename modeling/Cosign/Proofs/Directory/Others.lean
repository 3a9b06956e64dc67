-- SUMMARY: On any contents, directories insert and remove keys without touching entries of other kinds.
import Cosign.Proofs.Contents

/-!
# Other entries

Pages, links and keys of a directory may be broken in any way. Even then an
insertion or removal, whether it succeeds or fails, writes pages and erases pages
and nothing else: all entries of other kinds stay as they are
(`others_run_insert`, `others_run_remove`). Nothing needs to be known about keys
for that, since a key that holds another kind of entry is never written to.
-/

namespace Cosign

namespace Contents

/-- The entry at a key, unless it is a directory page. -/
def others (contents : Contents) (key : Key) : Option Entry :=
  (contents.entries key).filter (·.kind != .directoryPage)

/-- Writing a page, or nothing, where there is no other entry leaves the others alone. -/
theorem others_set {contents : Contents} {key : Key} (h : contents.others key = none)
    {entry : Option Entry} (hentry : entry.filter (·.kind != .directoryPage) = none) :
    (contents.set key entry).others = contents.others := by
  funext other
  by_cases hother : other = key
  · subst hother
    simp only [others] at h
    simp only [others, entries_set_self, hentry, h]
  · simp [others, entries_set_of_ne _ hother]

theorem others_eq_none {contents : Contents} {key : Key} {page : DirectoryPage}
    (h : (contents.entries key).bind Entry.directoryPage? = some page) :
    contents.others key = none := by
  obtain ⟨entry, hentry, hpage⟩ := Option.bind_eq_some_iff.1 h
  unfold others
  rw [hentry]
  cases entry <;> cases hpage
  rfl

theorem account?_eq_of_others {contents contents' : Contents}
    (h : contents'.others = contents.others) (id : AccountId) :
    View.account? contents' id = View.account? contents id := by
  have hroot : ∀ contents : Contents, View.account? contents id =
      (contents.others (Slot.account id).key).bind Entry.accountRoot? := by
    intro contents
    simp only [View.account?, View.find?, others]
    cases contents.entries (Slot.account id).key with
    | none => rfl
    | some entry => cases entry <;> rfl
  rw [hroot, hroot, h]

theorem signerList?_eq_of_others {contents contents' : Contents}
    (h : contents'.others = contents.others) (id : AccountId) :
    View.signerList? contents' id = View.signerList? contents id := by
  have hlist : ∀ contents : Contents, View.signerList? contents id =
      (contents.others (signersKey id)).bind Entry.signerList? := by
    intro contents
    simp only [View.signerList?, View.find?, others]
    cases contents.entries (signersKey id) with
    | none => rfl
    | some entry => cases entry <;> rfl
  rw [hlist, hlist, h]

end Contents

namespace Procedure

variable {α β : Type} {contents : Contents}

/-- What both parts of a composition leave alone, the whole does. -/
theorem others_run_bind {p : Procedure LedgerError α} {f : α → Procedure LedgerError β}
    (hp : (p.run contents).2.others = contents.others)
    (hf : ∀ value after, p.run contents = (.ok value, after) → after.others = contents.others →
      ((f value).run after).2.others = after.others) :
    ((p >>= f).run contents).2.others = contents.others := by
  rcases hrun : p.run contents with ⟨error | value, after⟩
  · rw [hrun] at hp
    rw [run_bind_error hrun]
    exact hp
  · rw [hrun] at hp
    rw [run_bind_ok hrun]
    exact (hf value after hrun hp).trans hp

theorem others_run_ofOption (error : LedgerError) (found : Option α) (contents : Contents) :
    ((ofOption error found).run contents).2.others = contents.others := by
  cases found <;> rfl

theorem others_run_insertNew (contents : Contents) (key : Key) (page : DirectoryPage) :
    ((insertNew key (.directoryPage page)).run contents).2.others = contents.others := by
  cases hkey : contents.entries key with
  | some old => simp [insertNew, run, Contents.insert_eq, hkey, ofExcept]
  | none =>
      rw [run_insertNew hkey]
      apply Contents.others_set
      · simp [Contents.others, hkey]
      · rfl

/-- A key may be erased if no other entry is there. -/
theorem others_run_erase {key : Key} (h : contents.others key = none) :
    ((remove key).run contents).2.others = contents.others := by
  cases hkey : contents.entries key with
  | none => simp [remove, run, Contents.erase_eq, hkey, ofExcept]
  | some entry =>
      rw [run_remove hkey]
      exact Contents.others_set h rfl

/-- Changing pages does nothing to an entry of another kind. -/
theorem others_run_update (contents : Contents) (key : Key)
    (change : DirectoryPage → DirectoryPage) :
    ((update key (Entry.mapDirectoryPage change) : Procedure LedgerError _).run
      contents).2.others = contents.others := by
  rw [run_update]
  funext other
  by_cases hother : other = key
  · subst hother
    simp only [Contents.others, Contents.entries_set_self]
    cases contents.entries other with
    | none => rfl
    | some entry => cases entry <;> rfl
  · simp [Contents.others, Contents.entries_set_of_ne _ hother]

end Procedure

namespace Directory

open Procedure (others_run_bind others_run_ofOption others_run_insertNew others_run_erase
  others_run_update)

variable {contents : Contents}

/-! ## Pages -/

theorem run_page_eq_ok {root : Key} {index : UInt64} {found : DirectoryPage} {after : Contents}
    (h : (page root index).run contents = (.ok found, after)) :
    (contents.entries (Slot.page root index).key).bind Entry.directoryPage? = some found ∧
      after = contents := by
  unfold page at h
  rw [Procedure.run_bind_ok (Procedure.run_find? _ _)] at h
  exact Procedure.run_ofOption_eq_ok h

theorem others_run_page (root : Key) (index : UInt64) (contents : Contents) :
    ((page root index).run contents).2.others = contents.others :=
  others_run_bind rfl fun _ _ _ _ => others_run_ofOption _ _ _

theorem others_run_modifyPage (root : Key) (index : UInt64)
    (change : DirectoryPage → DirectoryPage) (contents : Contents) :
    ((modifyPage root index change).run contents).2.others = contents.others := by
  unfold modifyPage
  refine others_run_bind (others_run_update _ _ _) fun found _ _ _ => ?_
  exact others_run_bind (others_run_ofOption _ _ _) fun _ _ _ _ => rfl

/-! ## Insertion -/

theorem others_run_insert (root : Key) (owner : Option AccountId) (key : Key)
    (contents : Contents) :
    ((insert root owner key).run contents).2.others = contents.others := by
  unfold insert
  refine others_run_bind rfl fun terms _ _ _ => ?_
  refine others_run_bind rfl fun found _ _ _ => ?_
  cases found with
  | none => exact others_run_bind (others_run_insertNew _ _ _) fun _ _ _ _ => rfl
  | some entry =>
      refine others_run_bind (others_run_ofOption _ _ _) fun first _ _ _ => ?_
      refine others_run_bind (others_run_page _ _ _) fun tail _ _ _ => ?_
      split
      · exact others_run_bind (others_run_modifyPage _ _ _ _) fun _ _ _ _ => rfl
      · split
        · refine others_run_bind (others_run_modifyPage _ _ _ _) fun _ _ _ _ => ?_
          refine others_run_bind (others_run_modifyPage _ _ _ _) fun _ _ _ _ => ?_
          exact others_run_bind (others_run_insertNew _ _ _) fun _ _ _ _ => rfl
        · rfl

/-! ## Removal -/

theorem others_run_retireRoot {root : Key} (h : contents.others root = none)
    (previous next : UInt64) (keepRoot : Bool) :
    ((retireRoot root previous next keepRoot).run contents).2.others = contents.others := by
  -- The root may go whenever no other entry is at its key.
  have hroot : ∀ contents : Contents, contents.others root = none →
      ((unless keepRoot do
        let _ ← Procedure.remove root : Procedure LedgerError Unit).run contents).2.others =
          contents.others := by
    intro contents h
    cases keepRoot with
    | true => rfl
    | false => exact others_run_bind (others_run_erase h) fun _ _ _ _ => rfl
  unfold retireRoot
  split
  · exact hroot contents h
  · split
    · refine others_run_bind (others_run_page _ _ _) fun other after hpage _ => ?_
      obtain ⟨hother, rfl⟩ := run_page_eq_ok hpage
      split
      · refine others_run_bind (others_run_erase (Contents.others_eq_none hother))
          fun _ _ _ herased => ?_
        refine others_run_bind (others_run_modifyPage _ _ _ _) fun _ _ _ hlinked => ?_
        apply hroot
        rw [hlinked, herased, h]
      · rfl
    · rfl

theorem others_run_retirePage {root : Key} {index : UInt64}
    (h : contents.others (Slot.page root index).key = none) (previous next : UInt64)
    (keepRoot : Bool) :
    ((retirePage root index previous next keepRoot).run contents).2.others = contents.others := by
  unfold retirePage
  by_cases hself : previous = index ∨ next = index
  · rw [if_pos hself]
    rfl
  · rw [if_neg hself]
    refine others_run_bind (others_run_modifyPage _ _ _ _) fun _ _ _ hprevious => ?_
    refine others_run_bind (others_run_modifyPage _ _ _ _) fun _ _ _ hnext => ?_
    refine others_run_bind (others_run_erase (by rw [hnext, hprevious, h])) fun _ _ _ _ => ?_
    split
    · refine others_run_bind rfl fun found after hfound _ => ?_
      cases hpage : found.bind Entry.directoryPage? with
      | none => rfl
      | some first =>
          simp only
          split
          · have hroot : after.others root = none := by
              rw [Procedure.run_find?] at hfound
              cases hfound
              exact Contents.others_eq_none hpage
            exact others_run_bind (others_run_erase hroot) fun _ _ _ _ => rfl
          · rfl
    · rfl

theorem others_run_remove (root : Key) (index : UInt64) (key : Key) (keepRoot : Bool)
    (contents : Contents) :
    ((remove root index key keepRoot).run contents).2.others = contents.others := by
  unfold remove
  refine others_run_bind (others_run_update _ _ _) fun found after hupdate hsame => ?_
  cases hpage : found.bind Entry.directoryPage? with
  | none => rfl
  | some page =>
      have hindex : after.others (Slot.page root index).key = none := by
        rw [Procedure.run_update] at hupdate
        cases hupdate
        rw [hsame]
        exact Contents.others_eq_none hpage
      simp only
      split
      · rfl
      · split
        · split
          · next hzero =>
            subst hzero
            exact others_run_retireRoot hindex _ _ _
          · exact others_run_retirePage hindex _ _ _
        · rfl

end Directory

namespace OwnerDirectory

theorem others_of_run_remove {owner : AccountId} {index : UInt64} {key : Key}
    {contents after : Contents}
    (h : (OwnerDirectory.remove owner index key).run contents = (.ok (), after)) :
    after.others = contents.others := by
  have hsame := Directory.others_run_remove (ownerDirectoryKey owner) index key false contents
  rwa [show Directory.remove _ _ _ _ = OwnerDirectory.remove owner index key from rfl, h] at hsame

theorem others_of_run_insert {owner : AccountId} {index : UInt64} {key : Key}
    {contents after : Contents}
    (h : (OwnerDirectory.insert owner key).run contents = (.ok index, after)) :
    after.others = contents.others := by
  have hsame := Directory.others_run_insert (ownerDirectoryKey owner) (some owner) key contents
  rwa [show Directory.insert _ _ _ = OwnerDirectory.insert owner key from rfl, h] at hsame

end OwnerDirectory

end Cosign
