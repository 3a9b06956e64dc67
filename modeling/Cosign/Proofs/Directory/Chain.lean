-- SUMMARY: Chains of linked pages, whatever the pages say besides, and that a removal undoes an insertion.
import Cosign.Proofs.Directory.Run

/-!
# Chains

A directory that is in order is a chain of pages, linked in both directions and
closed to a ring at the root (`Chain`). What its pages say about the directory and
its owner is left open, and so is how many keys they hold. An insertion writes to the
ends of the chain: the last page gets the key, or a page is appended that holds
nothing else (`run_insert_eq_ok`). Either is undone to the last link when the key is
removed from the page that it went to (`Without.undone`).
-/

namespace Cosign

namespace Directory

/-- Of the pages with numbers in `N` there are those in `pages`, in their order. Each is linked to the
one after it, the last to the root, and back again. Only the root may be empty. -/
structure Chain (root : Key) (N : Set UInt64) (pages : List UInt64) (contents : Contents) : Prop where
  starts : pages.head? = some 0
  increasing : pages.Pairwise (· < ·)
  within : ∀ number ∈ pages, number ∈ N
  stored : ∀ before number after, pages = before ++ number :: after →
    ∃ page : DirectoryPage,
      contents.entries (Slot.page root number).key = some (.directoryPage page) ∧
        page.next = after.headD 0 ∧
        page.previous = (if before = [] then after else before).getLastD 0 ∧
        (before ≠ [] → page.keys ≠ [])
  free : ∀ number ∈ N, number ∉ pages → contents.entries (Slot.page root number).key = none

/-- A key is on one of the pages. -/
def Names (root : Key) (pages : List UInt64) (contents : Contents) (key : Key) : Prop :=
  ∃ number ∈ pages, ∃ page : DirectoryPage,
    contents.entries (Slot.page root number).key = some (.directoryPage page) ∧ key ∈ page.keys

/-- The ends of a chain: the root, which names the last page as the one before it, and the last page,
which holds keys and is followed by the root. -/
structure Ends (root : Key) (contents : Contents) (first last : DirectoryPage) : Prop where
  stored_first : contents.entries root = some (.directoryPage first)
  stored_last : contents.entries (Slot.page root first.previous).key = some (.directoryPage last)
  closed : last.next = 0
  filled : last.keys ≠ []

variable {root : Key} {N : Set UInt64} {pages : List UInt64} {contents : Contents}

/-- The root and another page, linked to each other in both directions, are a chain. -/
theorem Chain.pair {number : UInt64} {first last : DirectoryPage} (hnumber : 0 < number)
    (hfirst : contents.entries root = some (.directoryPage first))
    (hlast : contents.entries (Slot.page root number).key = some (.directoryPage last))
    (hroot : first.next = number ∧ first.previous = number)
    (hother : last.next = 0 ∧ last.previous = 0) (hkeys : last.keys ≠ []) :
    Chain root { other | other ∈ [0, number] } [0, number] contents where
  starts := rfl
  increasing := by simpa using hnumber
  within := fun _ => id
  stored before other after hsplit := by
    rcases before with _ | ⟨zero, _ | ⟨one, rest⟩⟩
    · cases hsplit
      exact ⟨first, hfirst, hroot.1, hroot.2, absurd rfl⟩
    · cases hsplit
      exact ⟨last, hlast, hother.1, hother.2, fun _ => hkeys⟩
    · simp at hsplit
  free _ hused hunused := absurd hused hunused

/-- The ends of a chain that lists a key. -/
theorem Chain.ends (h : Chain root N pages contents) {key : Key}
    (hkey : Names root pages contents key) :
    ∃ first last, Ends root contents first last ∧ first.previous ∈ pages := by
  rcases List.eq_nil_or_concat' pages with rfl | ⟨front, number, rfl⟩
  · cases h.starts
  · obtain ⟨last, hlast, hnext, hprevious, hkeys⟩ := h.stored front number [] rfl
    cases front with
    | nil =>
        obtain rfl : number = 0 := by simpa using h.starts
        obtain ⟨number, hnumber, page, hpage, hmem⟩ := hkey
        obtain rfl : number = 0 := by simpa using hnumber
        cases hlast.symm.trans hpage
        have hprevious : last.previous = 0 := hprevious
        refine ⟨last, last, ⟨hlast, hprevious ▸ hlast, hnext, List.ne_nil_of_mem hmem⟩, ?_⟩
        simp [hprevious]
    | cons zero rest =>
        obtain rfl : zero = 0 := by simpa using h.starts
        obtain ⟨first, hfirst, -, hprevious, -⟩ := h.stored [] 0 (rest ++ [number]) rfl
        have hprevious : first.previous = number := by simpa using hprevious
        refine ⟨first, last, ⟨hfirst, hprevious ▸ hlast, hnext, hkeys (by simp)⟩, ?_⟩
        simp [hprevious]

/-- Relinking is undone by putting the former links back. -/
theorem entries_relink_relink {later : Contents} (hapart : KeysApart root N)
    {left right number : UInt64} (hleft : left ∈ N) (hright : right ∈ N) (hnumber : number ∈ N)
    {leftPage rightPage : DirectoryPage}
    (hleftPage : contents.entries (Slot.page root left).key = some (.directoryPage leftPage))
    (hrightPage : contents.entries (Slot.page root right).key = some (.directoryPage rightPage))
    {next previous : UInt64}
    (hlater : later.entries (Slot.page root number).key =
      (relink contents root left right next previous).entries (Slot.page root number).key) :
    (relink later root left right leftPage.next rightPage.previous).entries
        (Slot.page root number).key = contents.entries (Slot.page root number).key := by
  rcases Decidable.em (number = left ∨ number = right) with hend | hneither
  · obtain ⟨page, hpage⟩ : ∃ page, contents.entries (Slot.page root number).key =
        some (.directoryPage page) := by
      rcases hend with rfl | rfl
      · exact ⟨_, hleftPage⟩
      · exact ⟨_, hrightPage⟩
    have hnext : (if number = left then leftPage.next
        else if number = left then next else page.next) = page.next := by
      split
      · next heq =>
        subst heq
        cases hpage.symm.trans hleftPage
        rfl
      · rfl
    have hprevious : (if number = right then rightPage.previous
        else if number = right then previous else page.previous) = page.previous := by
      split
      · next heq =>
        subst heq
        cases hpage.symm.trans hrightPage
        rfl
      · rfl
    rw [entries_relink hapart hleft hright hnumber hpage] at hlater
    rw [entries_relink hapart hleft hright hnumber hlater, hpage, hnext, hprevious]
  · obtain ⟨hneleft, hneright⟩ := not_or.1 hneither
    rw [entries_relink_of_ne hapart hleft hright hnumber hneleft hneright, hlater,
      entries_relink_of_ne hapart hleft hright hnumber hneleft hneright]

/-! ## Insertion at the end -/

variable {first last : DirectoryPage} {owner : Option AccountId} {key : Key} {number : UInt64}
  {inserted : Contents}

/-- A key that has been inserted is at the end of the last page, or alone on a page after it. -/
theorem run_insert_eq_ok (h : Ends root contents first last) (hapart : KeysApart root N)
    (hzero : 0 ∈ N) (hlast : first.previous ∈ N)
    (hinsert : (insert root owner key).run contents = (.ok number, inserted)) :
    (number = first.previous ∧ inserted =
        contents.set (Slot.page root number).key (some (.directoryPage (last.push key)))) ∨
      (first.previous < number ∧
        (relink contents root first.previous 0 number number).entries
          (Slot.page root number).key = none ∧
        inserted = (relink contents root first.previous 0 number number).set
          (Slot.page root number).key
          (some (.directoryPage { root, owner, keys := [key], previous := first.previous }))) := by
  unfold insert at hinsert
  rw [Procedure.run_bind_ok (Procedure.run_getTerms _),
    Procedure.run_bind_ok (Procedure.run_find? _ _)] at hinsert
  simp only [View.find?, h.stored_first, Entry.directoryPage?] at hinsert
  rw [Procedure.run_bind_ok (Procedure.run_ofOption_some _ first _),
    Procedure.run_bind_ok (run_page h.stored_last)] at hinsert
  split at hinsert
  · rw [Procedure.run_bind_ok (run_modifyPage h.stored_last _), modifyAt_eq h.stored_last] at hinsert
    cases hinsert
    exact .inl ⟨rfl, rfl⟩
  · split at hinsert
    · next fresh hfresh =>
      unfold appendPage at hinsert
      rw [run_relink hapart hlast hzero h.stored_last h.stored_first] at hinsert
      obtain ⟨_, _, hnew, hdone⟩ := Procedure.run_bind_eq_ok hinsert
      obtain ⟨hfree, rfl⟩ := Procedure.run_insertNew_eq_ok hnew
      cases hdone
      exact .inr ⟨lt_of_successor? hfresh, hfree, rfl⟩
    · cases hinsert

/-! ## Removal from the end -/

theorem drop_push {page : DirectoryPage} {key : Key} (h : key ∉ page.keys) :
    (page.push key).drop key = page := by
  simp [DirectoryPage.push, DirectoryPage.drop, List.erase_append_right _ h]

/-- A page after the last one is unlinked and erased. The root stays, even if it is left alone, since
the last page holds keys. -/
theorem run_retirePage_end (hapart : KeysApart root N) {left number : UInt64} (hzero : 0 ∈ N)
    (hleft : left ∈ N) (hnumber : number ∈ N) (hne : number ≠ left) (hnezero : number ≠ 0)
    {first last : DirectoryPage} (hfirst : contents.entries root = some (.directoryPage first))
    (hlast : contents.entries (Slot.page root left).key = some (.directoryPage last))
    (hkeys : last.keys ≠ []) {held : Entry}
    (hheld : contents.entries (Slot.page root number).key = some held) :
    (retirePage root number left 0 false).run contents =
      (.ok (), (relink contents root left 0 0 left).set (Slot.page root number).key none) := by
  have hrelinked : (relink contents root left 0 0 left).entries (Slot.page root number).key =
      some held := by
    rw [entries_relink_of_ne hapart hleft hzero hnumber hne hnezero, hheld]
  unfold retirePage
  rw [if_neg (by rintro (heq | heq); exacts [hne heq.symm, hnezero heq.symm])]
  dsimp only
  rw [run_relink hapart hleft hzero hlast hfirst, Procedure.run_bind_ok (Procedure.run_remove hrelinked)]
  split
  · next halone =>
    -- The root is the last page, so it is not empty.
    obtain ⟨-, rfl, -⟩ := halone
    cases hfirst.symm.trans hlast
    have hroot : ((relink contents root 0 0 0 0).set (Slot.page root number).key none).entries root =
        some (.directoryPage { first with next := 0, previous := 0 }) :=
      (Contents.entries_set_of_ne _ (hapart.ne hzero hnumber hnezero.symm) _).trans
        (entries_relink hapart hzero hzero hzero hlast 0 0)
    rw [Procedure.run_bind_ok (Procedure.run_find? _ _)]
    simp only [View.find?, hroot, Option.bind_some, Entry.directoryPage?, List.isEmpty_iff, hkeys,
      if_false]
    rfl
  · rfl

/-- Where a key has been put at the end of the last page, its removal leaves what was there. -/
theorem run_remove_push {later : Contents} (hkeys : last.keys ≠ []) (hkey : key ∉ last.keys)
    (hlater : later.entries (Slot.page root number).key = some (.directoryPage (last.push key))) :
    (remove root number key false).run later =
      (.ok (), later.set (Slot.page root number).key (some (.directoryPage last))) := by
  rw [run_remove_of_mem false hlater (by simp [DirectoryPage.push]), drop_push hkey, if_neg hkeys]
  rfl

/-- Where a key has been put on a page of its own, its removal takes the page away again. -/
theorem run_remove_append {later : Contents} (hapart : KeysApart root N) {left : UInt64}
    (hzero : 0 ∈ N) (hleft : left ∈ N) (hnumber : number ∈ N) (hne : number ≠ left)
    (hnezero : number ≠ 0) (hfirst : later.entries root = some (.directoryPage first))
    (hlast : later.entries (Slot.page root left).key = some (.directoryPage last))
    (hkeys : last.keys ≠ [])
    (hpage : later.entries (Slot.page root number).key =
      some (.directoryPage { root, owner, keys := [key], previous := left })) :
    ∃ emptied, (remove root number key false).run later =
      (.ok (), (relink (later.set (Slot.page root number).key emptied) root left 0 0 left).set
        (Slot.page root number).key none) := by
  have hkept : ∀ {i entry}, i ∈ N → i ≠ number →
      (later.set (Slot.page root number).key entry).entries (Slot.page root i).key =
        later.entries (Slot.page root i).key :=
    fun hi hne => Contents.entries_set_of_ne _ (hapart.ne hi hnumber hne) _
  rw [run_remove_of_mem false hpage List.mem_cons_self,
    if_pos (by simp [DirectoryPage.drop]), if_neg hnezero]
  exact ⟨_, run_retirePage_end hapart hzero hleft hnumber hne hnezero
    ((hkept hzero hnezero.symm).trans hfirst) ((hkept hleft hne.symm).trans hlast) hkeys
    (Contents.entries_set_self _ _ _)⟩

/-! ## Removal after insertion -/

/-- The pages with numbers in `N` are the same. -/
def SamePages (root : Key) (N : Set UInt64) (contents contents' : Contents) : Prop :=
  ∀ number ∈ N, contents'.entries (Slot.page root number).key =
    contents.entries (Slot.page root number).key

/-- A key has been inserted, and from what is there later its removal brings back the pages that were
there before. Nothing else is touched either time. -/
structure Undone (root : Key) (N : Set UInt64) (key : Key) (number : UInt64)
    (before inserted later : Contents) : Prop where
  inserted : SameOutside root N before inserted
  removed : ∃ restored, (remove root number key false).run later = (.ok (), restored) ∧
    SameOutside root N later restored ∧ SamePages root N before restored

section

variable {later : Contents} (hapart : KeysApart root N) (hzero : 0 ∈ N)
include hapart hzero

theorem undone_start (hnone : contents.entries root = none)
    (hlater : SamePages root N
      (contents.set root (some (.directoryPage { root, owner, keys := [key] }))) later) :
    Undone root N key 0 contents
      (contents.set root (some (.directoryPage { root, owner, keys := [key] }))) later := by
  have hroot := (hlater 0 hzero).trans (Contents.entries_set_self _ _ _)
  refine ⟨.set (.refl _) hzero _, _, run_remove_only hroot, .set (.refl _) hzero _, fun i hi => ?_⟩
  rcases Decidable.em (i = 0) with rfl | hne
  · exact (Contents.entries_set_self _ _ _).trans hnone.symm
  · have hkey : (Slot.page root i).key ≠ root := hapart.ne hi hzero hne
    rw [Contents.entries_set_of_ne _ hkey, hlater i hi, Contents.entries_set_of_ne _ hkey]

omit hzero in
theorem Ends.undone_push (h : Ends root contents first last) (hlast : first.previous ∈ N)
    (hkey : key ∉ last.keys)
    (hlater : SamePages root N (contents.set (Slot.page root first.previous).key
      (some (.directoryPage (last.push key)))) later) :
    Undone root N key first.previous contents
      (contents.set (Slot.page root first.previous).key (some (.directoryPage (last.push key))))
      later := by
  have hpushed := (hlater _ hlast).trans (Contents.entries_set_self _ _ _)
  refine ⟨.set (.refl _) hlast _, _, run_remove_push h.filled hkey hpushed,
    .set (.refl _) hlast _, fun i hi => ?_⟩
  rcases Decidable.em (i = first.previous) with rfl | hne
  · rw [Contents.entries_set_self, h.stored_last]
  · rw [Contents.entries_set_of_ne _ (hapart.ne hi hlast hne), hlater i hi,
      Contents.entries_set_of_ne _ (hapart.ne hi hlast hne)]

theorem Ends.undone_append (h : Ends root contents first last) (hlast : first.previous ∈ N)
    (hnumber : number ∈ N) (hlt : first.previous < number)
    (hfree : (relink contents root first.previous 0 number number).entries
      (Slot.page root number).key = none)
    (hinserted : inserted = (relink contents root first.previous 0 number number).set
      (Slot.page root number).key
      (some (.directoryPage { root, owner, keys := [key], previous := first.previous })))
    (hlater : SamePages root N inserted later) :
    Undone root N key number contents inserted later := by
  subst hinserted
  have hne : number ≠ first.previous := (UInt64.ne_of_lt hlt).symm
  have hnezero : number ≠ 0 :=
    (UInt64.ne_of_lt (UInt64.lt_of_le_of_lt UInt64.zero_le hlt)).symm
  rw [entries_relink_of_ne hapart hlast hzero hnumber hne hnezero] at hfree
  -- Pages other than the new one have been relinked at most.
  have hkept : ∀ i ∈ N, i ≠ number → later.entries (Slot.page root i).key =
      (relink contents root first.previous 0 number number).entries (Slot.page root i).key := by
    intro i hi hne
    rw [hlater i hi, Contents.entries_set_of_ne _ (hapart.ne hi hnumber hne)]
  have hfirst := entries_relink hapart hlast hzero hzero h.stored_first number number
  have hleft := entries_relink hapart hlast hzero hlast h.stored_last number number
  obtain ⟨emptied, hrun⟩ := run_remove_append hapart hzero hlast hnumber hne hnezero
    ((hkept 0 hzero hnezero.symm).trans hfirst) ((hkept _ hlast hne.symm).trans hleft) h.filled
    ((hlater number hnumber).trans (Contents.entries_set_self _ _ _))
  refine ⟨.set (.relink (.refl _) hlast hzero _ _) hnumber _, _, hrun,
    .set (.relink (.set (.refl _) hnumber _) hlast hzero _ _) hnumber _, fun i hi => ?_⟩
  rcases Decidable.em (i = number) with rfl | hne
  · rw [Contents.entries_set_self, hfree]
  · have hback := entries_relink_relink hapart hlast hzero hi h.stored_last h.stored_first
      ((Contents.entries_set_of_ne later (hapart.ne hi hnumber hne) emptied).trans (hkept i hi hne))
    rw [h.closed] at hback
    rw [Contents.entries_set_of_ne _ (hapart.ne hi hnumber hne), hback]

end

/-- A directory that a key can be put into and taken out of again: there is none, or it is a chain that
lists other keys but not this one. -/
inductive Without (root : Key) (N : Set UInt64) (key : Key) (contents : Contents) : Prop
  | absent (h : contents.entries root = none)
  | chain {pages : List UInt64} {other : Key} (h : Chain root N pages contents)
      (hother : Names root pages contents other) (hkey : ¬ Names root pages contents key)

/-- An insertion that has come to anything is undone by a removal, whatever has become of entries
elsewhere by then. -/
theorem Without.undone (h : Without root N key contents) (hapart : KeysApart root N) (hzero : 0 ∈ N)
    (hinsert : (insert root owner key).run contents = (.ok number, inserted)) (hnumber : number ∈ N)
    {later : Contents} (hlater : SamePages root N inserted later) :
    Undone root N key number contents inserted later := by
  cases h with
  | absent hnone =>
      rw [run_insert_of_none hnone] at hinsert
      cases hinsert
      exact undone_start hapart hzero hnone hlater
  | chain h hother hkey =>
      obtain ⟨first, last, hends, hmem⟩ := h.ends hother
      have hlast : first.previous ∈ N := h.within _ hmem
      have hnew : key ∉ last.keys := fun hkey' => hkey ⟨_, hmem, last, hends.stored_last, hkey'⟩
      rcases run_insert_eq_ok hends hapart hzero hlast hinsert with
        ⟨rfl, rfl⟩ | ⟨hlt, hfree, hinserted⟩
      · exact hends.undone_push hapart hlast hnew hlater
      · exact hends.undone_append hapart hzero hlast hnumber hlt hfree hinserted hlater

end Directory

end Cosign
