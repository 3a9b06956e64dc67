-- SUMMARY: What inserting, removing and listing do to contents that hold a ring.
import Cosign.Proofs.Directory.Ring
import Cosign.Proofs.Directory.Trail
import Mathlib.Data.List.Perm.Subperm

/-!
# Running the operations of a directory

On contents that hold a ring of sheets, an insertion runs as an `Insertion` of
the sheets, a removal as a `Removal`, and listing gives the keys of the sheets.
Each leaves all keys alone that are not those of pages with numbers in `N`
(`SameOutside`), and a refusal leaves everything as it was.
-/

namespace Cosign

namespace Directory

/-! ## What is left alone -/

/-- Only pages with numbers in `N` differ. -/
structure SameOutside (root : Key) (N : Set UInt64) (contents contents' : Contents) : Prop where
  terms : contents'.terms = contents.terms
  entries : ∀ key, (∀ number ∈ N, key ≠ (Slot.page root number).key) →
    contents'.entries key = contents.entries key

namespace SameOutside

variable {root : Key} {N : Set UInt64} {contents contents' contents'' : Contents}

theorem refl (contents : Contents) : SameOutside root N contents contents := ⟨rfl, fun _ _ => rfl⟩

theorem trans (h : SameOutside root N contents contents')
    (h' : SameOutside root N contents' contents'') : SameOutside root N contents contents'' where
  terms := h'.terms.trans h.terms
  entries key hkey := (h'.entries key hkey).trans (h.entries key hkey)

theorem set (h : SameOutside root N contents contents') {number : UInt64} (hnumber : number ∈ N)
    (entry : Option Entry) :
    SameOutside root N contents (contents'.set (Slot.page root number).key entry) where
  terms := h.terms
  entries key hkey := by
    rw [Contents.entries_set_of_ne _ (hkey number hnumber)]
    exact h.entries key hkey

theorem relink (h : SameOutside root N contents contents') {left right : UInt64} (hleft : left ∈ N)
    (hright : right ∈ N) (next previous : UInt64) :
    SameOutside root N contents (relink contents' root left right next previous) :=
  (h.set hleft _).set hright _

end SameOutside

/-! ## Pages -/

variable {root : Key} {N : Set UInt64} {contents : Contents}

theorem run_page {number : UInt64} {found : DirectoryPage}
    (h : contents.entries (Slot.page root number).key = some (.directoryPage found)) :
    (page root number).run contents = (.ok found, contents) :=
  run_page_of_some (@View.page?_of_entries contents root number (some found) h)

theorem modifyAt_eq {number : UInt64} {found : DirectoryPage}
    (h : contents.entries (Slot.page root number).key = some (.directoryPage found))
    (change : DirectoryPage → DirectoryPage) :
    modifyAt contents root number change =
      contents.set (Slot.page root number).key (some (.directoryPage (change found))) := by
  unfold modifyAt
  rw [h]
  rfl

theorem run_modifyPage {number : UInt64} {found : DirectoryPage}
    (h : contents.entries (Slot.page root number).key = some (.directoryPage found))
    (change : DirectoryPage → DirectoryPage) :
    (modifyPage root number change).run contents =
      (.ok (), modifyAt contents root number change) := by
  unfold modifyPage
  rw [Procedure.run_bind_ok (Procedure.run_update _ _ _), modifyAt_eq h, h]
  rfl

/-- The two writes that link pages to each other. -/
theorem run_relink {α : Type} (hapart : KeysApart root N) {left right : UInt64} (hleft : left ∈ N)
    (hright : right ∈ N) {leftPage rightPage : DirectoryPage}
    (hleftPage : contents.entries (Slot.page root left).key = some (.directoryPage leftPage))
    (hrightPage : contents.entries (Slot.page root right).key = some (.directoryPage rightPage))
    (next previous : UInt64) (rest : Procedure LedgerError α) :
    (do
      modifyPage root left fun page => { page with next }
      modifyPage root right fun page => { page with previous }
      rest).run contents = rest.run (relink contents root left right next previous) := by
  rw [Procedure.run_bind_ok (run_modifyPage hleftPage _),
    Procedure.run_bind_ok (run_modifyPage (entries_modifyAt hapart hleft hright hrightPage _) _)]
  rfl

/-! ## Insertion -/

/-- Without a root page a directory starts with one. -/
theorem run_insert_of_none (h : contents.entries root = none) (owner : Option AccountId)
    (key : Key) :
    (insert root owner key).run contents =
      (.ok 0, contents.set root (some (.directoryPage { root, owner, keys := [key] }))) := by
  unfold insert
  rw [Procedure.run_bind_ok (Procedure.run_getTerms _),
    Procedure.run_bind_ok (Procedure.run_find? _ _)]
  simp only [View.find?, h]
  rw [Procedure.run_bind_ok (Procedure.run_insertNew h _)]
  rfl

namespace Ring

variable {sheets front : List Sheet} {tail : Sheet}

/-- A first page is put where there was none. -/
theorem start (h : Ring root N [] contents) (hapart : KeysApart root N) (hzero : 0 ∈ N)
    (owner : Option AccountId) (key : Key) :
    Ring root N [⟨0, owner, [key]⟩]
      (contents.set root (some (.directoryPage { root, owner, keys := [key] }))) := by
  constructor
  · exact (show Insertion {} owner key [] 0 _ from .first).ordered .nil
  · simpa using hzero
  · intro before sheet after hsplit
    obtain ⟨rfl, rfl, rfl⟩ : before = [] ∧ sheet = ⟨0, owner, [key]⟩ ∧ after = [] := by
      rcases List.singleton_eq_append_iff.1 hsplit with ⟨rfl, hcons⟩ | ⟨-, hcons⟩
      · simp only [List.cons.injEq] at hcons
        exact ⟨rfl, hcons⟩
      · cases hcons
    exact Contents.entries_set_self _ _ _
  · intro number hnumber hfree
    have hne : number ≠ 0 := by simpa using hfree
    have hkey : (Slot.page root number).key ≠ root := hapart.ne hnumber hzero hne
    rw [Contents.entries_set_of_ne _ hkey]
    exact h.free number hnumber (by simp)

/-- The root names the last page as the one before it. -/
theorem exists_root (h : Ring root N (front ++ [tail]) contents) :
    ∃ first : DirectoryPage, contents.entries root = some (.directoryPage first) ∧
      first.previous = tail.number := by
  have hstarts := h.ordered.starts
  cases front with
  | nil =>
      have hzero : tail.number = 0 := hstarts
      have hentry := h.stored [] tail [] rfl
      rw [hzero] at hentry
      exact ⟨_, hentry, by simp [Sheet.page, hzero]⟩
  | cons first rest =>
      have hzero : first.number = 0 := hstarts
      have hentry := h.stored [] first (rest ++ [tail]) rfl
      rw [hzero] at hentry
      exact ⟨_, hentry, by simp [Sheet.page]⟩

/-- The last page is linked back to the root. -/
theorem entries_last (h : Ring root N (front ++ [tail]) contents) :
    contents.entries (Slot.page root tail.number).key =
      some (.directoryPage (tail.page root (numbers front) [])) :=
  h.stored front tail [] rfl

theorem run_appendPage (h : Ring root N (front ++ [tail]) contents) (hapart : KeysApart root N)
    {fresh : UInt64} (hfresh : fresh ∈ N) (hlt : tail.number < fresh)
    (owner : Option AccountId) (key : Key) :
    ∃ contents', (appendPage root owner tail.number fresh key).run contents = (.ok fresh, contents') ∧
      Ring root N (front ++ [tail, ⟨fresh, owner, [key]⟩]) contents' ∧
      SameOutside root N contents contents' := by
  have htail : tail.number ∈ N := h.within _ (by simp)
  have hzeromem : 0 ∈ numbers (front ++ [tail]) := h.ordered.zero_mem (by simp)
  have hzero : 0 ∈ N := h.within 0 hzeromem
  have hunused : fresh ∉ numbers (front ++ [tail]) := h.ordered.notMem_of_lt hlt
  have hne : fresh ≠ tail.number := (UInt64.ne_of_lt hlt).symm
  have hnezero : fresh ≠ 0 := fun heq => hunused (heq ▸ hzeromem)
  obtain ⟨first, hfirst⟩ := h.exists_page hzeromem
  refine ⟨_, ?_, h.append hapart ⟨fresh, owner, [key]⟩ hfresh hlt (by simp),
    ((SameOutside.refl contents).relink htail hzero _ _).set hfresh _⟩
  unfold appendPage
  rw [run_relink hapart htail hzero h.entries_last hfirst,
    Procedure.run_bind_ok (Procedure.run_insertNew _ _)]
  · simp [Sheet.page]
  · rw [entries_relink_of_ne hapart htail hzero hfresh hne hnezero]
    exact h.free fresh hfresh hunused

/-- An insertion runs as one of the sheets, or the directory is full and stays as it was. -/
theorem run_insert (h : Ring root N sheets contents) (hapart : KeysApart root N) (hzero : 0 ∈ N)
    (owner : Option AccountId) (key : Key)
    (htarget : ∀ number sheets',
      Insertion contents.terms.limits owner key sheets number sheets' → number ∈ N) :
    (∃ number sheets' contents',
      Insertion contents.terms.limits owner key sheets number sheets' ∧
        (insert root owner key).run contents = (.ok number, contents') ∧
        Ring root N sheets' contents' ∧ SameOutside root N contents contents') ∨
      (Full contents.terms.limits sheets ∧
        (insert root owner key).run contents = (.error (.directoryFull root), contents)) := by
  rcases List.eq_nil_or_concat' sheets with rfl | ⟨front, tail, rfl⟩
  · have hnone : contents.entries root = none := h.free 0 hzero (by simp)
    exact .inl ⟨0, _, _, .first, run_insert_of_none hnone owner key,
      h.start hapart hzero owner key, .set (.refl contents) hzero _⟩
  · obtain ⟨first, hfirst, hprevious⟩ := h.exists_root
    have hlast := h.entries_last
    have htail : tail.number ∈ N := h.within _ (by simp)
    unfold insert
    rw [Procedure.run_bind_ok (Procedure.run_getTerms _),
      Procedure.run_bind_ok (Procedure.run_find? _ _)]
    simp only [View.find?, View.terms, hfirst, Entry.directoryPage?]
    rw [Procedure.run_bind_ok (Procedure.run_ofOption_some _ first _), hprevious,
      Procedure.run_bind_ok (run_page hlast), Sheet.keys_page]
    by_cases hroom : tail.keys.length < contents.terms.limits.keysPerPage.toNat
    · have hinsertion : Insertion contents.terms.limits owner key (front ++ [tail]) tail.number _ :=
        .push hroom
      refine .inl ⟨tail.number, _, _, hinsertion, ?_,
        h.replace hapart rfl (hinsertion.ordered h.ordered),
        (SameOutside.refl contents).set htail _⟩
      rw [if_pos hroom, Procedure.run_bind_ok (run_modifyPage hlast _), modifyAt_eq hlast]
      rfl
    · rw [if_neg hroom]
      cases hnext : successor? contents.terms.limits tail.number with
      | none =>
          exact .inr ⟨⟨front, tail, rfl, Nat.le_of_not_lt hroom, hnext⟩, rfl⟩
      | some fresh =>
          have hinsertion : Insertion contents.terms.limits owner key (front ++ [tail]) fresh _ :=
            .append (Nat.le_of_not_lt hroom) hnext
          obtain ⟨contents', hrun, hring, hsame⟩ :=
            h.run_appendPage hapart (htarget _ _ hinsertion) (lt_of_successor? hnext) owner key
          exact .inl ⟨fresh, _, contents', hinsertion, hrun, hring, hsame⟩

end Ring

/-! ## Removal -/

namespace Ring

variable {sheets front after : List Sheet} {left sheet : Sheet}

/-- The only page is taken away. -/
theorem clear (h : Ring root N [sheet] contents) (hapart : KeysApart root N) :
    Ring root N [] (contents.set root none) := by
  have hnumber : sheet.number = 0 := h.ordered.starts
  have hzero : 0 ∈ N := h.within 0 (h.ordered.zero_mem (by simp))
  apply Ring.nil
  intro number hmem
  by_cases hroot : number = 0
  · rw [hroot]
    exact Contents.entries_set_self _ _ _
  · have hkey : (Slot.page root number).key ≠ root := hapart.ne hmem hzero hroot
    rw [Contents.entries_set_of_ne _ hkey]
    exact h.free number hmem (by simpa [hnumber] using hroot)

theorem entries_root (h : Ring root N (sheet :: after) contents) :
    contents.entries root = some (.directoryPage (sheet.page root [] (numbers after))) := by
  have hentry := h.stored [] sheet after rfl
  rwa [show sheet.number = 0 from h.ordered.starts] at hentry

theorem run_retireRoot (h : Ring root N (sheet :: after) contents) (hapart : KeysApart root N)
    (keepRoot : Bool) :
    ∃ contents',
      (retireRoot root ((numbers after).getLastD 0) ((numbers after).headD 0) keepRoot).run contents =
          (.ok (), contents') ∧
        Ring root N (if after = [] ∧ keepRoot = false then [] else sheet :: after) contents' ∧
        SameOutside root N contents contents' := by
  have hzero : 0 ∈ N := h.within 0 (h.ordered.zero_mem (by simp))
  unfold retireRoot
  rcases List.eq_nil_or_concat' after with rfl | ⟨middle, last, rfl⟩
  · cases keepRoot with
    | true => exact ⟨contents, rfl, by simpa using h, .refl _⟩
    | false =>
        refine ⟨_, ?_, by simpa using h.clear hapart, (SameOutside.refl contents).set hzero none⟩
        simp only [numbers_nil, List.getLastD_nil, List.headD_nil, and_self, if_true]
        rw [if_neg (by decide), Procedure.run_bind_ok (Procedure.run_remove h.entries_root)]
        rfl
  · -- The last page is not the root, so it holds keys and the root stays.
    have hentry : contents.entries (Slot.page root last.number).key =
        some (.directoryPage (last.page root (numbers (sheet :: middle)) [])) :=
      h.stored (sheet :: middle) last [] (by simp)
    have hne : last.number ≠ 0 :=
      (show Ordered ([] ++ sheet :: (middle ++ [last])) from h.ordered).ne_zero_of_mem (by simp)
    have hkeys : last.keys ≠ [] := h.ordered.filled last (by simp) hne
    refine ⟨contents, ?_, by simpa using h, .refl _⟩
    have hprevious : (numbers (middle ++ [last])).getLastD 0 = last.number := by simp
    rw [hprevious, if_neg (fun hboth => hne hboth.1)]
    by_cases hsame : last.number = (numbers (middle ++ [last])).headD 0
    · rw [if_pos hsame, Procedure.run_bind_ok (run_page hentry), Sheet.keys_page,
        if_neg (by simpa using hkeys)]
      rfl
    · rw [if_neg hsame]
      rfl

/-- The three writes that take a page out of the ring, whatever the page was left as. -/
theorem run_unlink (h : Ring root N (front ++ left :: sheet :: after) contents)
    (hapart : KeysApart root N) {next : UInt64} (hnext : next = (numbers after).headD 0)
    (held : Entry) :
    ∃ contents',
      (∀ rest : Procedure LedgerError Unit,
        (do
          modifyPage root left.number fun page => { page with next := next }
          modifyPage root next fun page => { page with previous := left.number }
          let _ ← Procedure.remove (Slot.page root sheet.number).key
          rest).run (contents.set (Slot.page root sheet.number).key (some held)) =
            rest.run contents') ∧
        Ring root N (front ++ left :: after) contents' ∧ SameOutside root N contents contents' := by
  have hring := h.unlink hapart hnext (some held)
  have hordered : Ordered (front ++ left :: after) := hring.ordered
  have hsplit : Ordered ((front ++ [left]) ++ sheet :: after) := by simpa using h.ordered
  have hnextmem : next ∈ numbers (front ++ left :: after) := hnext ▸ hordered.next_mem
  have hsheetN : sheet.number ∈ N := h.within _ (by simp)
  have hleftN : left.number ∈ N := h.within _ (by simp)
  have hnextN : next ∈ N := hring.within next hnextmem
  have hneleft : left.number ≠ sheet.number := hsplit.ne_of_mem (by simp)
  have hnenext : next ≠ sheet.number := hsplit.ne_of_mem (List.append_cons .. ▸ hnextmem)
  have hsame : SameOutside root N contents _ := .set (.refl contents) hsheetN (some held)
  generalize hstart : contents.set (Slot.page root sheet.number).key (some held) = start
    at hring hsame ⊢
  obtain ⟨leftPage, hleft⟩ : ∃ page, start.entries (Slot.page root left.number).key =
      some (.directoryPage page) := by
    rw [← hstart, Contents.entries_set_of_ne _ (hapart.ne hleftN hsheetN hneleft)]
    exact h.exists_page (by simp)
  obtain ⟨nextPage, hnext⟩ : ∃ page, start.entries (Slot.page root next).key =
      some (.directoryPage page) := by
    rw [← hstart, Contents.entries_set_of_ne _ (hapart.ne hnextN hsheetN hnenext)]
    rw [List.append_cons] at hnextmem
    exact h.exists_page (by simpa using mem_numbers_of_unlinked sheet hnextmem)
  have hheld : start.entries (Slot.page root sheet.number).key = some held := by
    rw [← hstart, Contents.entries_set_self]
  refine ⟨_, fun rest => ?_, hring, (hsame.relink hleftN hnextN _ _).set hsheetN none⟩
  rw [run_relink hapart hleftN hnextN hleft hnext,
    Procedure.run_bind_ok (Procedure.run_remove (show Contents.entries _ _ = some held from ?_))]
  rw [entries_relink_of_ne hapart hleftN hnextN hsheetN hneleft.symm hnenext.symm, hheld]

/-- What retiring a page does once its key is gone. -/
theorem run_retirePage (h : Ring root N (front ++ left :: sheet :: after) contents)
    (hapart : KeysApart root N) (keepRoot : Bool) (held : Entry) :
    ∃ contents',
      (retirePage root sheet.number left.number ((numbers after).headD 0) keepRoot).run
          (contents.set (Slot.page root sheet.number).key (some held)) = (.ok (), contents') ∧
        Ring root N
          (if keepRoot = false ∧ listing (front ++ left :: after) = [] then []
            else front ++ left :: after) contents' ∧
        SameOutside root N contents contents' := by
  generalize hnext : (numbers after).headD 0 = next
  obtain ⟨unlinked, hrun, hring, hsame⟩ := h.run_unlink hapart hnext.symm held
  have hordered : Ordered (front ++ left :: after) := hring.ordered
  have hsplit : Ordered ((front ++ [left]) ++ sheet :: after) := by simpa using h.ordered
  have hneleft : left.number ≠ sheet.number := hsplit.ne_of_mem (by simp)
  have hnenext : next ≠ sheet.number := by
    rw [← hnext]
    exact hsplit.ne_of_mem (List.append_cons .. ▸ hordered.next_mem)
  unfold retirePage
  rw [if_neg (by rintro (heq | heq); exacts [hneleft heq, hnenext heq])]
  simp only [hrun]
  have hzeroN : 0 ∈ N := h.within 0 (h.ordered.zero_mem (by simp))
  by_cases hgone : keepRoot = false ∧ listing (front ++ left :: after) = []
  · -- Only the empty root is left, and goes.
    obtain ⟨hkeep, hempty⟩ := hgone
    obtain ⟨rfl, hleft, hkeys, rfl⟩ := hordered.alone_of_listing_eq_nil hempty
    obtain rfl : 0 = next := hnext
    rw [if_pos ⟨by simp [hkeep], hleft, rfl⟩, if_pos ⟨hkeep, hempty⟩,
      Procedure.run_bind_ok (Procedure.run_find? _ _)]
    simp only [View.find?, hring.entries_root, Option.bind_some, Entry.directoryPage?,
      Sheet.keys_page, hkeys, List.isEmpty_nil, if_true]
    rw [Procedure.run_bind_ok (Procedure.run_remove hring.entries_root)]
    exact ⟨_, rfl, hring.clear hapart, hsame.set hzeroN none⟩
  · rw [if_neg hgone]
    refine ⟨unlinked, ?_, hring, hsame⟩
    by_cases halone : (!keepRoot) = true ∧ left.number = 0 ∧ next = 0
    · -- The root is left alone, but holds keys.
      rw [if_pos halone, Procedure.run_bind_ok (Procedure.run_find? _ _)]
      obtain ⟨hkeep, hleft, rfl⟩ := halone
      obtain rfl : front = [] := hordered.number_eq_zero_iff.1 hleft
      obtain rfl : after = [] := by
        cases after with
        | nil => rfl
        | cons right rest => exact absurd hnext (hordered.ne_zero_of_mem (by simp))
      have hkeys : left.keys ≠ [] := by
        intro hnone
        exact hgone ⟨by simpa using hkeep, by simp [hnone]⟩
      simp only [View.find?, hring.entries_root, Option.bind_some, Entry.directoryPage?,
        Sheet.keys_page, List.isEmpty_iff, hkeys, if_false]
      rfl
    · rw [if_neg halone]
      rfl

end Ring

/-- A key is looked for on one page only, and if that is missing, is no directory page or does not
list the key, nothing is changed. -/
theorem run_remove_of_unlisted {index : UInt64} {key : Key}
    (h : ∀ found, View.page? contents root index = some found → key ∉ found.keys)
    (keepRoot : Bool) :
    (remove root index key keepRoot).run contents =
      (.error (.directoryEntryMissing index key), contents) := by
  have hsame : contents.set (Slot.page root index).key
      ((contents.entries (Slot.page root index).key).map (Entry.mapDirectoryPage (·.drop key))) =
        contents := by
    apply Contents.set_eq_self
    cases hentry : contents.entries (Slot.page root index).key with
    | none => rfl
    | some entry =>
        cases entry with
        | directoryPage found =>
            have hfound : View.page? contents root index = some found :=
              View.page?_of_entries hentry
            simp [Entry.mapDirectoryPage, DirectoryPage.drop,
              List.erase_of_not_mem (h found hfound)]
        | _ => rfl
  unfold remove
  rw [Procedure.run_bind_ok (Procedure.run_update _ _ _), hsame]
  cases hpage : View.page? contents root index with
  | none =>
      have hfound : (contents.entries (Slot.page root index).key).bind Entry.directoryPage? = none :=
        hpage
      rw [hfound]
      rfl
  | some found =>
      have hfound : (contents.entries (Slot.page root index).key).bind Entry.directoryPage? =
          some found := hpage
      rw [hfound]
      simp only
      rw [if_pos (h found hpage)]
      rfl

theorem run_remove_of_mem {index : UInt64} {found : DirectoryPage} {key : Key} (keepRoot : Bool)
    (h : contents.entries (Slot.page root index).key = some (.directoryPage found))
    (hkey : key ∈ found.keys) :
    (remove root index key keepRoot).run contents =
      (if (found.drop key).keys = [] then
        if index = 0 then retireRoot root found.previous found.next keepRoot
        else retirePage root index found.previous found.next keepRoot
      else pure () : Procedure LedgerError Unit).run
        (contents.set (Slot.page root index).key (some (.directoryPage (found.drop key)))) := by
  unfold remove
  rw [Procedure.run_bind_ok (Procedure.run_update _ _ _)]
  simp [h, Entry.directoryPage?, Entry.mapDirectoryPage, hkey]

/-- The only key of a directory goes, and its page with it. -/
theorem run_remove_only {owner : Option AccountId} {key : Key}
    (h : contents.entries root = some (.directoryPage { root, owner, keys := [key] })) :
    (remove root 0 key false).run contents = (.ok (), contents.set root none) := by
  have hpage : contents.entries (Slot.page root 0).key =
      some (.directoryPage { root, owner, keys := [key] }) := h
  rw [run_remove_of_mem false hpage (by simp)]
  have hgone : (contents.set root
      (some (.directoryPage { root, owner, keys := [key].erase key }))).entries root =
        some (.directoryPage { root, owner, keys := [key].erase key }) :=
    Contents.entries_set_self _ _ _
  simp only [DirectoryPage.drop, List.erase_cons_head, if_true, retireRoot, and_self,
    key_page_zero] at hgone ⊢
  rw [if_neg (by decide), Procedure.run_bind_ok (Procedure.run_remove hgone), Contents.set_set]
  rfl

namespace Ring

variable {sheets front before after : List Sheet} {left sheet : Sheet}

theorem drop_page (sheet : Sheet) (root : Key) (before after : List UInt64) (key : Key) :
    (sheet.page root before after).drop key = (sheet.drop key).page root before after := rfl

/-- The last key of the root is removed. -/
theorem run_remove_root (h : Ring root N (sheet :: after) contents) (hapart : KeysApart root N)
    {key : Key} (hkey : key ∈ sheet.keys) (hempty : (sheet.drop key).keys = []) (keepRoot : Bool) :
    ∃ sheets' contents', Removal key sheet.number keepRoot (sheet :: after) sheets' ∧
      (remove root sheet.number key keepRoot).run contents = (.ok (), contents') ∧
      Ring root N sheets' contents' ∧ SameOutside root N contents contents' := by
  have hroot : sheet.number = 0 := h.ordered.starts
  have hordered : Ordered ([] ++ sheet.drop key :: after) :=
    (show Ordered ([] ++ sheet :: after) from h.ordered).replace rfl (absurd rfl)
  have hdropped : Ring root N (sheet.drop key :: after) _ :=
    (show Ring root N ([] ++ sheet :: after) contents from h).replace hapart rfl hordered
  obtain ⟨contents', hrun, hring, hsame⟩ := hdropped.run_retireRoot hapart keepRoot
  refine ⟨_, contents', ?_, ?_, hring, .trans (.set (.refl _) (h.within _ (by simp)) _) hsame⟩
  · by_cases hgone : after = [] ∧ keepRoot = false
    · obtain ⟨rfl, hkeep⟩ := hgone
      rw [if_pos ⟨rfl, hkeep⟩]
      exact .retireRoot rfl hkey hempty hkeep
    · rw [if_neg hgone]
      have hstays : after ≠ [] ∨ keepRoot = true := by
        by_contra hneither
        push Not at hneither
        exact hgone ⟨hneither.1, by simpa using hneither.2⟩
      exact .drop rfl hkey (.inr ⟨rfl, hstays⟩)
  · rw [run_remove_of_mem keepRoot (h.stored [] sheet after rfl) hkey, drop_page,
      if_pos (by exact hempty),
      if_pos hroot]
    exact hrun

/-- The last key of a page that is not the root is removed. -/
theorem run_remove_page (h : Ring root N (front ++ left :: sheet :: after) contents)
    (hapart : KeysApart root N) {key : Key} (hkey : key ∈ sheet.keys)
    (hempty : (sheet.drop key).keys = []) (keepRoot : Bool) :
    ∃ sheets' contents',
      Removal key sheet.number keepRoot (front ++ left :: sheet :: after) sheets' ∧
      (remove root sheet.number key keepRoot).run contents = (.ok (), contents') ∧
      Ring root N sheets' contents' ∧ SameOutside root N contents contents' := by
  have hentry := h.stored (front ++ [left]) sheet after (by simp)
  have hsplit : Ordered ((front ++ [left]) ++ sheet :: after) := by simpa using h.ordered
  have hroot : sheet.number ≠ 0 := fun hzero => by simpa using hsplit.number_eq_zero_iff.1 hzero
  obtain ⟨contents', hrun, hring, hsame⟩ := h.run_retirePage hapart keepRoot
    (.directoryPage ((sheet.drop key).page root (numbers (front ++ [left])) (numbers after)))
  refine ⟨_, contents', ?_, ?_, hring, hsame⟩
  · by_cases hgone : keepRoot = false ∧ listing (front ++ left :: after) = []
    · obtain ⟨hkeep, hnone⟩ := hgone
      obtain ⟨rfl, -, hfirst, rfl⟩ := h.ordered.unlink_after.alone_of_listing_eq_nil hnone
      rw [if_pos ⟨hkeep, hnone⟩]
      exact .retireBoth rfl hkey hempty hfirst hkeep
    · rw [if_neg hgone]
      have hstays : keepRoot = true ∨ listing ((front ++ [left]) ++ after) ≠ [] := by
        cases keepRoot with
        | true => exact .inl rfl
        | false => exact .inr fun hnone => hgone ⟨rfl, by simpa using hnone⟩
      have hremoval : Removal key sheet.number keepRoot ((front ++ [left]) ++ sheet :: after)
          ((front ++ [left]) ++ after) := .retirePage rfl hkey hempty (by simp) hstays
      simpa using hremoval
  · rw [run_remove_of_mem keepRoot hentry hkey, drop_page,
      if_pos (by exact hempty), if_neg hroot]
    simpa [Sheet.page] using hrun

/-- A removal runs as one of the sheets, or the key is not on the page and all stays as it was. -/
theorem run_remove (h : Ring root N sheets contents) (hapart : KeysApart root N) {index : UInt64}
    (hindex : index ∈ N) (key : Key) (keepRoot : Bool) :
    (∃ sheets' contents', Removal key index keepRoot sheets sheets' ∧
        (remove root index key keepRoot).run contents = (.ok (), contents') ∧
        Ring root N sheets' contents' ∧ SameOutside root N contents contents') ∨
      ((key, index) ∉ listing sheets ∧
        (remove root index key keepRoot).run contents =
          (.error (.directoryEntryMissing index key), contents)) := by
  by_cases hmem : (key, index) ∈ listing sheets
  · obtain ⟨sheet, hsheet, rfl, hkey⟩ := mem_listing.1 hmem
    obtain ⟨before, after, rfl⟩ := List.append_of_mem hsheet
    by_cases hempty : (sheet.drop key).keys = []
    · rcases List.eq_nil_or_concat' before with rfl | ⟨front, left, rfl⟩
      · exact .inl (h.run_remove_root hapart hkey hempty keepRoot)
      · rw [← List.append_cons] at h ⊢
        exact .inl (h.run_remove_page hapart hkey hempty keepRoot)
    · have hremoval : Removal key sheet.number keepRoot (before ++ sheet :: after) _ :=
        .drop rfl hkey (.inl hempty)
      refine .inl ⟨_, _, hremoval, ?_, h.replace hapart rfl (hremoval.ordered h.ordered),
        .set (.refl _) hindex _⟩
      rw [run_remove_of_mem keepRoot (h.stored before sheet after rfl) hkey, drop_page,
        if_neg (by exact hempty)]
      rfl
  · refine .inr ⟨hmem, ?_⟩
    refine run_remove_of_unlisted (fun found hfound hkey => ?_) keepRoot
    by_cases hused : index ∈ numbers sheets
    · obtain ⟨sheet, hsheet, rfl⟩ := List.mem_map.1 hused
      obtain ⟨before, after, rfl⟩ := List.append_of_mem hsheet
      have hpage : View.page? contents root sheet.number = some _ :=
        View.page?_of_entries (h.stored before sheet after rfl)
      cases hfound.symm.trans hpage
      exact hmem (mem_listing.2 ⟨sheet, hsheet, rfl, hkey⟩)
    · have hpage : View.page? contents root index = none :=
        View.page?_of_entries (h.free index hindex hused)
      cases hfound.symm.trans hpage

end Ring

/-! ## Listing -/

/-- The pages of some sheets, each with its number, behind pages of the numbers given. -/
def numbered (root : Key) (before : List UInt64) : List Sheet → List (UInt64 × DirectoryPage)
  | [] => []
  | sheet :: after =>
    (sheet.number, sheet.page root before (numbers after)) ::
      numbered root (before ++ [sheet.number]) after

theorem length_numbered (root : Key) (before : List UInt64) (sheets : List Sheet) :
    (numbered root before sheets).length = sheets.length := by
  induction sheets generalizing before with
  | nil => rfl
  | cons sheet after ih => simp [numbered, ih]

theorem named_numbered (root : Key) (before : List UInt64) (sheets : List Sheet) :
    named (numbered root before sheets) = sheets.flatMap (·.keys) := by
  induction sheets generalizing before with
  | nil => rfl
  | cons sheet after ih =>
      unfold named at ih ⊢
      simp [numbered, ih]

namespace Ring

variable {sheets before after : List Sheet} {sheet : Sheet}

/-- From any page the links lead over all pages after it. -/
theorem trail (h : Ring root N (before ++ sheet :: after) contents) :
    Trail contents root sheet.number (numbered root (numbers before) (sheet :: after)) := by
  induction after generalizing before sheet with
  | nil => exact .last (View.page?_of_entries (h.stored before sheet [] rfl)) rfl
  | cons right rest ih =>
      have hring : Ring root N ((before ++ [sheet]) ++ right :: rest) contents := by simpa using h
      have hne : right.number ≠ 0 := h.ordered.ne_zero_of_mem (by simp)
      have hrest : Trail contents root right.number
          (numbered root (numbers before ++ [sheet.number]) (right :: rest)) := by
        simpa using ih hring
      exact .step (View.page?_of_entries (h.stored before sheet (right :: rest) rfl)) hne hrest

theorem length_le {limits : Limits} (h : Ring root N sheets contents) (hfits : Fits limits sheets) :
    sheets.length ≤ max 1 limits.pages.toNat := by
  have hnodup : ((numbers sheets).map UInt64.toNat).Nodup :=
    h.ordered.nodup.map fun _ _ => UInt64.toNat_inj.1
  have hsubset : (numbers sheets).map UInt64.toNat ⊆ List.range (max 1 limits.pages.toNat) := by
    intro number hnumber
    simp only [numbers, List.map_map, List.mem_map, Function.comp_apply] at hnumber
    obtain ⟨sheet, hsheet, rfl⟩ := hnumber
    exact List.mem_range.2 (hfits sheet hsheet).2
  simpa [numbers] using (hnodup.subperm hsubset).length_le

/-- All pages can be read, from the root on. -/
theorem reads (h : Ring root N sheets contents) (hzero : 0 ∈ N)
    (hfits : Fits contents.terms.limits sheets) :
    Reads contents root (numbered root [] sheets) := by
  cases sheets with
  | nil =>
      have hnone : contents.entries (Slot.page root 0).key = none := h.free 0 hzero (by simp)
      exact .absent (View.page?_of_entries hnone)
  | cons first rest =>
      have htrail := (show Ring root N ([] ++ first :: rest) contents from h).trail
      rw [show first.number = 0 from h.ordered.starts] at htrail
      exact .trail htrail (length_numbered root [] _ ▸ h.length_le hfits)

theorem run_keys (h : Ring root N sheets contents) (hzero : 0 ∈ N)
    (hfits : Fits contents.terms.limits sheets) :
    (keys root).run contents = (.ok (sheets.flatMap (·.keys)), contents) := by
  rw [(h.reads hzero hfits).run_keys, named_numbered]

end Ring

end Directory

end Cosign
