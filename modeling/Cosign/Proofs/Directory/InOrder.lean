-- SUMMARY: Directories in order, whatever their pages are labelled, stay so and list what they should.
import Cosign.Proofs.Directory.Chain
import Cosign.Proofs.Directory.Label
import Cosign.Proofs.Directory.Others
import Cosign.Proofs.Footprint

/-!
# Directories in order

A directory is linked if there is none or if its pages make up a chain (`Linked`), and in
order if the numbers of its pages are below the limit besides (`InOrder`). Nothing is asked
about labels and owners of pages, nor about how many keys a page holds. Once its pages are
labelled alike, such a directory is a ring of sheets (`Linked.exists_ring`), so what is known
of rings holds of it: to the keys listed with their pages a removal is an erasure and an
insertion an append (`Linked.run_remove`, `InOrder.run_insert`), and either leaves the
directory in order.
-/

namespace Cosign

namespace Directory

/-- There is no directory, or its pages are a chain of numbers below the limit. However small the limit
is, the root may exist. -/
inductive InOrder (root : Key) (N : Set UInt64) (contents : Contents) : List UInt64 → Prop
  | absent (h : ∀ number ∈ N, contents.entries (Slot.page root number).key = none) :
      InOrder root N contents []
  | chain {pages : List UInt64} (h : Chain root N pages contents)
      (hbelow : ∀ number ∈ pages, number.toNat < max 1 contents.terms.limits.pages.toNat) :
      InOrder root N contents pages

/-- There is no directory, or its pages are a chain, however far that goes. -/
inductive Linked (root : Key) (N : Set UInt64) (contents : Contents) : List UInt64 → Prop
  | absent (h : ∀ number ∈ N, contents.entries (Slot.page root number).key = none) :
      Linked root N contents []
  | chain {pages : List UInt64} (h : Chain root N pages contents) : Linked root N contents pages

/-- The keys on a page, which are none if there is no page. -/
def keysAt {σ : Type} [View σ] (view : σ) (root : Key) (number : UInt64) : List Key :=
  match View.page? view root number with
  | some page => page.keys
  | none => []

/-- Every key on some pages, with the number of its page. -/
def placed {σ : Type} [View σ] (view : σ) (root : Key) (pages : List UInt64) :
    List (Key × UInt64) :=
  pages.flatMap fun number => (keysAt view root number).map (·, number)

/-! ## One label for all pages -/

section

variable {root key : Key} {N : Set UInt64} {contents contents' : Contents} {number : UInt64}

/-- The pages of a directory get one label. Other entries stay. -/
noncomputable def label (root : Key) (N : Set UInt64) (key : Key) : Entry → Entry :=
  haveI := Classical.propDecidable (∃ number ∈ N, key = (Slot.page root number).key)
  if ∃ number ∈ N, key = (Slot.page root number).key then Entry.relabel root else id

theorem relabels_label (root : Key) (N : Set UInt64) : Relabels root (label root N) := by
  intro key
  unfold label
  split
  · exact .inr rfl
  · exact .inl rfl

theorem label_page (hnumber : number ∈ N) :
    label root N (Slot.page root number).key = Entry.relabel root :=
  if_pos ⟨number, hnumber, rfl⟩

theorem label_of_ne (h : ∀ number ∈ N, key ≠ (Slot.page root number).key) :
    label root N key = id :=
  if_neg fun ⟨number, hnumber, heq⟩ => h number hnumber heq

/-- The contents with one label on the pages of the directory. -/
noncomputable abbrev labelled (root : Key) (N : Set UInt64) (contents : Contents) : Contents :=
  contents.mapEntries (label root N)

theorem entries_labelled (hnumber : number ∈ N) :
    (labelled root N contents).entries (Slot.page root number).key =
      (contents.entries (Slot.page root number).key).map (Entry.relabel root) := by
  rw [← label_page hnumber]
  rfl

theorem entries_labelled_eq_some (hnumber : number ∈ N) {page : DirectoryPage} :
    (labelled root N contents).entries (Slot.page root number).key = some (.directoryPage page) ↔
      ∃ found : DirectoryPage, contents.entries (Slot.page root number).key =
        some (.directoryPage found) ∧ { found with root } = page := by
  rw [entries_labelled hnumber, Option.map_eq_some_iff]
  constructor
  · rintro ⟨entry, hentry, hpage⟩
    cases entry <;> cases hpage
    exact ⟨_, hentry, rfl⟩
  · rintro ⟨found, hfound, rfl⟩
    exact ⟨_, hfound, rfl⟩

theorem keysAt_eq {found : DirectoryPage}
    (h : contents.entries (Slot.page root number).key = some (.directoryPage found)) :
    keysAt contents root number = found.keys := by
  simp [keysAt, View.page?, View.find?, h, Entry.directoryPage?]

/-- What a procedure that cannot tell labels does once there is one label for all pages, it does
without it. -/
theorem run_of_labelled {α : Type} {p : Procedure LedgerError α} (hp : p.Blind (label root N))
    {result : Except LedgerError α} {after : Contents}
    (h : p.run (labelled root N contents) = (result, after)) :
    ∃ contents', p.run contents = (result, contents') ∧ after = labelled root N contents' ∧
      contents'.terms = contents.terms := by
  rw [labelled, hp.run_mapEntries] at h
  obtain ⟨hresult, hafter⟩ := Prod.mk.inj h
  exact ⟨_, Prod.ext hresult rfl, hafter.symm, Procedure.terms_run p contents⟩

theorem SameOutside.of_labelled
    (h : SameOutside root N (labelled root N contents) (labelled root N contents')) :
    SameOutside root N contents contents' where
  terms := h.terms
  entries key hkey := by
    have hsame := h.entries key hkey
    simp only [labelled, Contents.mapEntries, label_of_ne hkey, Option.map_id, id] at hsame
    exact hsame

end

/-! ## Chains as rings -/

section

variable {root : Key} {N : Set UInt64} {contents : Contents} {pages : List UInt64}
  {sheets : List Sheet}

/-- The sheet of a page. -/
def sheetAt (contents : Contents) (root : Key) (number : UInt64) : Sheet where
  number
  owner := (View.page? contents root number).bind (·.owner)
  keys := keysAt contents root number

theorem numbers_sheetAt (pages : List UInt64) :
    numbers (pages.map (sheetAt contents root)) = pages := by
  simp [numbers, Function.comp_def, sheetAt]

theorem listing_sheetAt (pages : List UInt64) :
    listing (pages.map (sheetAt contents root)) = placed contents root pages := by
  simp [listing, placed, List.flatMap_map, sheetAt]

theorem Chain.ordered (h : Chain root N pages contents) :
    Ordered (pages.map (sheetAt contents root)) where
  ascending := by
    rw [numbers_sheetAt]
    exact h.increasing
  starts := by
    rw [numbers_sheetAt, List.headD_eq_head?_getD, h.starts]
    rfl
  filled sheet hsheet hne := by
    obtain ⟨number, hnumber, rfl⟩ := List.mem_map.1 hsheet
    obtain ⟨before, after, rfl⟩ := List.append_of_mem hnumber
    obtain ⟨found, hfound, -, -, hkeys⟩ := h.stored before number after rfl
    have hbefore : before ≠ [] := by
      rintro rfl
      exact hne (Option.some.inj h.starts)
    exact (keysAt_eq hfound).trans_ne (hkeys hbefore)

theorem Chain.ring (h : Chain root N pages contents) :
    Ring root N (pages.map (sheetAt contents root)) (labelled root N contents) where
  ordered := h.ordered
  within := by
    rw [numbers_sheetAt]
    exact h.within
  stored front sheet back hsplit := by
    obtain ⟨before, rest, rfl, rfl, hrest⟩ := List.map_eq_append_iff.1 hsplit
    obtain ⟨number, after, rfl, rfl, rfl⟩ := List.map_eq_cons_iff.1 hrest
    obtain ⟨found, hfound, hnext, hprevious, -⟩ := h.stored before number after rfl
    refine (entries_labelled_eq_some (h.within number (by simp))).2 ⟨found, hfound, ?_⟩
    have howner : (View.page? contents root number).bind (·.owner) = found.owner := by
      simp [View.page?, View.find?, hfound, Entry.directoryPage?]
    rw [numbers_sheetAt, numbers_sheetAt]
    simp only [Sheet.page, sheetAt, howner, keysAt_eq hfound, ← hnext]
    rw [hprevious]
    split <;> rfl
  free number hnumber hunused := by
    rw [numbers_sheetAt] at hunused
    rw [entries_labelled hnumber, h.free number hnumber hunused, Option.map_none]

theorem Linked.exists_ring (h : Linked root N contents pages) :
    ∃ sheets, numbers sheets = pages ∧ Ring root N sheets (labelled root N contents) ∧
      listing sheets = placed contents root pages := by
  cases h with
  | absent hnone =>
      refine ⟨[], rfl, .nil fun number hnumber => ?_, rfl⟩
      rw [entries_labelled hnumber, hnone number hnumber, Option.map_none]
  | chain h => exact ⟨_, numbers_sheetAt pages, h.ring, listing_sheetAt pages⟩

/-- What is stored for a sheet, whatever it is labelled. -/
theorem Ring.exists_stored {before after : List Sheet} {sheet : Sheet}
    (h : Ring root N (before ++ sheet :: after) (labelled root N contents)) :
    ∃ found : DirectoryPage,
      contents.entries (Slot.page root sheet.number).key = some (.directoryPage found) ∧
        { found with root } = sheet.page root (numbers before) (numbers after) :=
  (entries_labelled_eq_some (h.within _ (by simp))).1 (h.stored before sheet after rfl)

theorem Ring.listing_eq (h : Ring root N sheets (labelled root N contents)) :
    listing sheets = placed contents root (numbers sheets) := by
  have hkeys : ∀ sheet ∈ sheets, keysAt contents root sheet.number = sheet.keys := by
    intro sheet hsheet
    obtain ⟨before, after, rfl⟩ := List.append_of_mem hsheet
    obtain ⟨found, hfound, hpage⟩ := h.exists_stored
    exact (keysAt_eq hfound).trans (congrArg DirectoryPage.keys hpage)
  simp only [listing, placed, numbers, List.flatMap_map]
  exact List.flatMap_congr fun sheet hsheet => by rw [hkeys sheet hsheet]

theorem Ring.chain (h : Ring root N sheets (labelled root N contents)) (hne : sheets ≠ []) :
    Chain root N (numbers sheets) contents where
  starts := by
    obtain ⟨first, rest, rfl⟩ := List.exists_cons_of_ne_nil hne
    exact congrArg some h.ordered.starts
  increasing := h.ordered.ascending
  within := h.within
  stored front number back hsplit := by
    obtain ⟨before, rest, rfl, rfl, hrest⟩ := List.map_eq_append_iff.1 hsplit
    obtain ⟨sheet, after, rfl, rfl, rfl⟩ := List.map_eq_cons_iff.1 hrest
    obtain ⟨found, hfound, hpage⟩ := h.exists_stored
    refine ⟨found, hfound, congrArg DirectoryPage.next hpage, ?_, fun hbefore => ?_⟩
    · have hprevious := congrArg DirectoryPage.previous hpage
      simp only [Sheet.page, numbers, List.map_eq_nil_iff] at hprevious ⊢
      rw [hprevious]
      split <;> rfl
    · have hnezero : sheet.number ≠ 0 := fun hzero =>
        hbefore (by rw [h.ordered.number_eq_zero_iff.1 hzero]; rfl)
      exact (congrArg DirectoryPage.keys hpage).trans_ne (h.ordered.filled sheet (by simp) hnezero)
  free number hnumber hunused := by
    have hfree := h.free number hnumber hunused
    rwa [entries_labelled hnumber, Option.map_eq_none_iff] at hfree

theorem Ring.linked (h : Ring root N sheets (labelled root N contents)) :
    Linked root N contents (numbers sheets) := by
  cases sheets with
  | nil =>
      refine .absent fun number hnumber => ?_
      have hfree := h.free number hnumber (by simp)
      rwa [entries_labelled hnumber, Option.map_eq_none_iff] at hfree
  | cons sheet rest => exact .chain (h.chain (by simp))

theorem Linked.within (h : Linked root N contents pages) : ∀ number ∈ pages, number ∈ N := by
  cases h with
  | absent => nofun
  | chain h => exact h.within

theorem Linked.inOrder (h : Linked root N contents pages)
    (hbelow : ∀ number ∈ pages, number.toNat < max 1 contents.terms.limits.pages.toNat) :
    InOrder root N contents pages := by
  cases h with
  | absent hnone => exact .absent hnone
  | chain h => exact .chain h hbelow

theorem InOrder.linked (h : InOrder root N contents pages) : Linked root N contents pages := by
  cases h with
  | absent hnone => exact .absent hnone
  | chain h => exact .chain h

theorem InOrder.below (h : InOrder root N contents pages) :
    ∀ number ∈ pages, number.toNat < max 1 contents.terms.limits.pages.toNat := by
  cases h with
  | absent => nofun
  | chain _ hbelow => exact hbelow

/-- The root names a page of the directory as the last one. -/
theorem InOrder.previous_mem (h : InOrder root N contents pages) (hzero : 0 ∈ N)
    {first : DirectoryPage} (hfirst : contents.entries root = some (.directoryPage first)) :
    first.previous ∈ N := by
  obtain ⟨sheets, rfl, hring, -⟩ := h.linked.exists_ring
  have hlabelled : (labelled root N contents).entries root =
      some (.directoryPage { first with root }) :=
    (entries_labelled_eq_some hzero).2 ⟨first, hfirst, rfl⟩
  rcases List.eq_nil_or_concat' sheets with rfl | ⟨front, tail, rfl⟩
  · cases hlabelled.symm.trans (hring.free 0 hzero (by simp))
  · obtain ⟨found, hfound, hprevious⟩ := hring.exists_root
    cases hlabelled.symm.trans hfound
    rw [show first.previous = tail.number from hprevious]
    exact hring.within _ (by simp)

section

variable {contents' : Contents}
  (hsame : ∀ number ∈ N, contents'.entries (Slot.page root number).key =
    contents.entries (Slot.page root number).key)
include hsame

/-- Entries elsewhere do not matter. -/
theorem Linked.congr (h : Linked root N contents pages) : Linked root N contents' pages := by
  cases h with
  | absent hnone =>
      exact .absent fun number hnumber => (hsame number hnumber).trans (hnone number hnumber)
  | chain h =>
      refine .chain ⟨h.starts, h.increasing, h.within, ?_, ?_⟩
      · intro before number after hsplit
        rw [hsame number (h.within _ (by simp [hsplit]))]
        exact h.stored before number after hsplit
      · intro number hnumber hunused
        rw [hsame number hnumber]
        exact h.free number hnumber hunused

/-- Nor do rules and fees. -/
theorem InOrder.congr (h : InOrder root N contents pages)
    (hlimits : contents'.terms.limits = contents.terms.limits) : InOrder root N contents' pages :=
  (h.linked.congr hsame).inOrder (hlimits ▸ h.below)

theorem Linked.placed_congr (h : Linked root N contents pages) :
    placed contents' root pages = placed contents root pages := by
  refine List.flatMap_congr fun number hnumber => ?_
  simp only [keysAt, View.page?, View.find?]
  rw [hsame number (h.within number hnumber)]

end

end

/-- A page after an insertion was there before, or its number has been checked against the limit. -/
theorem Insertion.below {limits : Limits} {owner : Option AccountId} {key : Key} {number : UInt64}
    {sheets sheets' : List Sheet} (h : Insertion limits owner key sheets number sheets')
    (hbelow : ∀ number ∈ numbers sheets, number.toNat < max 1 limits.pages.toNat) :
    ∀ number ∈ numbers sheets', number.toNat < max 1 limits.pages.toNat := by
  cases h with
  | first => simp
  | push hroom => simpa using hbelow
  | append hfull hfresh =>
      have hfresh := (successor?_eq_some hfresh).2
      intro number hnumber
      simp only [numbers_append, numbers_cons, numbers_nil, List.mem_append, List.mem_cons,
        List.not_mem_nil, or_false] at hnumber
      rcases hnumber with hnumber | rfl | rfl
      · exact hbelow number (by simp [hnumber])
      · exact hbelow _ (by simp)
      · omega

/-! ## Operations -/

section

variable {root : Key} {N : Set UInt64} {contents : Contents} {pages : List UInt64}

/-- A key that is listed on a page is removed from it, and no page is added. -/
theorem Linked.run_remove (h : Linked root N contents pages) (hapart : KeysApart root N) {key : Key}
    {index : UInt64} (hlisted : (key, index) ∈ placed contents root pages) :
    ∃ pages' contents', (remove root index key false).run contents = (.ok (), contents') ∧
      Linked root N contents' pages' ∧ pages' ⊆ pages ∧
      placed contents' root pages' = (placed contents root pages).erase (key, index) ∧
      SameOutside root N contents contents' := by
  obtain ⟨sheets, rfl, hring, hlisting⟩ := h.exists_ring
  rw [← hlisting] at hlisted ⊢
  rcases hring.run_remove hapart (hring.mem_of_mem_listing hlisted) key false with
    ⟨sheets', _, hremoval, hlabelled, hring', hsame⟩ | ⟨hmissing, -⟩
  · obtain ⟨contents', hrun, rfl, -⟩ :=
      run_of_labelled (blind_remove (relabels_label root N) index key false) hlabelled
    refine ⟨numbers sheets', contents', hrun, hring'.linked, fun number hnumber => ?_, ?_,
      hsame.of_labelled⟩
    · obtain ⟨sheet, hsheet, rfl⟩ := List.mem_map.1 hnumber
      obtain ⟨old, hold, hsame, -⟩ := hremoval.exists_old hsheet
      rw [← hsame]
      exact List.mem_map_of_mem hold
    · rw [← hring'.listing_eq, hremoval.listing_eq hring.ordered]
  · exact absurd hlisted hmissing

/-- A key is listed last, on the page that the insertion tells, unless the directory is full. -/
theorem InOrder.run_insert (h : InOrder root N contents pages) (hapart : KeysApart root N)
    (hzero : 0 ∈ N) (owner : Option AccountId) (key : Key)
    (htarget : ∀ number, target? contents root = some number → number ∈ N) :
    (∃ number pages' contents', (insert root owner key).run contents = (.ok number, contents') ∧
      InOrder root N contents' pages' ∧
      placed contents' root pages' = placed contents root pages ++ [(key, number)] ∧
      SameOutside root N contents contents') ∨
      ∃ contents',
        (insert root owner key).run contents = (.error (.directoryFull root), contents') := by
  obtain ⟨sheets, rfl, hring, hlisting⟩ := h.linked.exists_ring
  rw [← hlisting]
  have hblind : (insert root owner key).Blind (label root N) :=
    blind_insert (relabels_label root N) owner key
  have htarget' : ∀ number sheets', Insertion contents.terms.limits owner key sheets number sheets' →
      number ∈ N := by
    intro number sheets' hinsertion
    apply htarget
    rw [← target?_mapEntries (relabels_label root N)]
    exact hring.target?_eq hzero hinsertion
  rcases hring.run_insert hapart hzero owner key htarget' with
    ⟨number, sheets', _, hinsertion, hlabelled, hring', hsame⟩ | ⟨-, hlabelled⟩
  · obtain ⟨contents', hrun, rfl, hterms⟩ := run_of_labelled hblind hlabelled
    refine .inl ⟨number, numbers sheets', contents', hrun, hring'.linked.inOrder ?_, ?_,
      hsame.of_labelled⟩
    · rw [hterms]
      exact hinsertion.below h.below
    · rw [← hring'.listing_eq, hinsertion.listing_eq]
  · obtain ⟨contents', hrun, -⟩ := run_of_labelled hblind hlabelled
    exact .inr ⟨contents', hrun⟩

end

/-! ## What an insertion meets -/

section

variable {root : Key} {N : Set UInt64} {contents : Contents}

theorem met_modifyPage (root : Key) (index : UInt64) (change : DirectoryPage → DirectoryPage)
    (contents : Contents) :
    (modifyPage root index change).met contents = [(Slot.page root index).key] := by
  change _ :: (Procedure.bind (.ofOption _ ((contents.entries _).bind Entry.directoryPage?)) _).met
    _ = _
  cases (contents.entries (Slot.page root index).key).bind Entry.directoryPage? <;> rfl

theorem met_insertNew (key : Key) (entry : Entry) (contents : Contents) :
    (Procedure.insertNew key entry).met contents = [key] := by
  simp only [Procedure.insertNew, Procedure.met]
  cases (View.insert contents key entry).1 <;> rfl

/-- An insertion meets the root, the last page and the page that the key goes to. -/
theorem met_insert (hzero : 0 ∈ N)
    (hlast : ∀ first, contents.entries root = some (.directoryPage first) → first.previous ∈ N)
    (htarget : ∀ number, target? contents root = some number → number ∈ N)
    (owner : Option AccountId) (key : Key) :
    ∀ other ∈ (insert root owner key).met contents,
      ∃ number ∈ N, other = (Slot.page root number).key := by
  have hmet : ∀ {number : UInt64}, number ∈ N → ∀ other ∈ [(Slot.page root number).key],
      ∃ number ∈ N, other = (Slot.page root number).key := by
    intro number hnumber other hother
    exact ⟨number, hnumber, List.mem_singleton.1 hother⟩
  have hdone : ∀ other ∈ ([] : List Key), ∃ number ∈ N, other = (Slot.page root number).key := by
    simp
  refine Procedure.forall_met_bind hdone fun terms _ hterms => ?_
  cases hterms
  refine Procedure.forall_met_bind (hmet hzero) fun found _ hfound => ?_
  cases hfound
  cases hroot : contents.entries root with
  | none =>
      simp only [View.find?, hroot]
      refine Procedure.forall_met_bind ?_ fun _ _ _ => hdone
      rw [met_insertNew]
      exact hmet hzero
  | some entry =>
      simp only [View.find?, hroot]
      refine Procedure.forall_met_bind (by cases entry <;> exact hdone) fun first _ hfirst => ?_
      obtain ⟨hpage, rfl⟩ := Procedure.run_ofOption_eq_ok hfirst
      obtain rfl : entry = .directoryPage first := by
        cases entry <;> cases hpage
        rfl
      have hlastN := hlast first hroot
      refine Procedure.forall_met_bind (by rw [met_page]; exact hmet hlastN) fun tail _ htail => ?_
      obtain ⟨htail, rfl⟩ := run_page_eq_ok htail
      split
      · refine Procedure.forall_met_bind ?_ fun _ _ _ => hdone
        exact met_modifyPage .. ▸ hmet hlastN
      · next hfull =>
        split
        · next fresh hfresh =>
          have hfreshN : fresh ∈ N := by
            apply htarget
            unfold target?
            simp only [View.find?, View.page?, hroot, Entry.directoryPage?, Option.bind_eq_bind,
              Option.bind_some, htail, if_neg hfull, hfresh]
          refine Procedure.forall_met_bind (met_modifyPage .. ▸ hmet hlastN) fun _ _ _ => ?_
          refine Procedure.forall_met_bind (met_modifyPage .. ▸ hmet hzero) fun _ _ _ => ?_
          refine Procedure.forall_met_bind ?_ fun _ _ _ => hdone
          rw [met_insertNew]
          exact hmet hfreshN
        · exact hdone

/-- Entries elsewhere make no difference to an insertion, which leaves them alone. -/
theorem InOrder.run_insert_of_agree {contents' : Contents} {pages : List UInt64}
    (h : InOrder root N contents pages) (hzero : 0 ∈ N)
    (htarget : ∀ number, target? contents root = some number → number ∈ N)
    (hterms : contents'.terms = contents.terms)
    (hsame : ∀ number ∈ N, contents'.entries (Slot.page root number).key =
      contents.entries (Slot.page root number).key) (owner : Option AccountId) (key : Key) :
    ((insert root owner key).run contents').1 = ((insert root owner key).run contents).1 ∧
      (∀ other, contents'.entries other = contents.entries other →
        ((insert root owner key).run contents').2.entries other =
          ((insert root owner key).run contents).2.entries other) ∧
      SameOutside root N contents' ((insert root owner key).run contents').2 := by
  have hmet := met_insert hzero (fun _ => h.previous_mem hzero) htarget owner key
  obtain ⟨hmet', hresult, hagree⟩ := (insert root owner key).run_of_agree hterms fun other hother => by
    obtain ⟨number, hnumber, rfl⟩ := hmet other hother
    exact hsame number hnumber
  refine ⟨hresult, hagree, Procedure.terms_run (insert root owner key) contents', ?_⟩
  intro other hother
  refine Procedure.find?_run_of_not_met _ contents' fun hmem => ?_
  obtain ⟨number, hnumber, rfl⟩ := hmet other (hmet' ▸ hmem)
  exact hother number hnumber rfl

end

end Directory

end Cosign
