-- SUMMARY: The pages that links lead over from a directory's root, whatever the view holds, and how listing ends there.
import Cosign.Proofs.Contents

/-!
# Trails

Nothing makes the pages of an arbitrary view a ring: a link may miss its page, lead
back to a page met before or pass pages by. From the root links still lead over at
most one sequence of pages that ends with a link to the root (`Trail`). A directory
can be listed if there is no root page, or if that sequence exists and is not longer
than the limit (`Reads`), and then the keys listed are those of its pages in their
order. Otherwise links lead to a page that is not to be had: there is no such page, or
as many pages as may be read have been met before it (`Breaks`). A cycle that misses the
root ends in this way too.
-/

namespace Cosign

namespace Directory

/-- The pages, each with its number, that links lead over from page `number` to the first page that
is linked to the root. -/
inductive Trail {σ : Type} [View σ] (view : σ) (root : Key) :
    UInt64 → List (UInt64 × DirectoryPage) → Prop
  | last {number : UInt64} {page : DirectoryPage}
      (hpage : View.page? view root number = some page) (hnext : page.next = 0) :
      Trail view root number [(number, page)]
  | step {number : UInt64} {page : DirectoryPage} {rest : List (UInt64 × DirectoryPage)}
      (hpage : View.page? view root number = some page) (hnext : page.next ≠ 0)
      (hrest : Trail view root page.next rest) :
      Trail view root number ((number, page) :: rest)

/-- The pages of a directory that can be listed. However small the limit is, the root is read. -/
inductive Reads {σ : Type} [View σ] (view : σ) (root : Key) : List (UInt64 × DirectoryPage) → Prop
  | absent (h : View.page? view root 0 = none) : Reads view root []
  | trail {pages : List (UInt64 × DirectoryPage)} (h : Trail view root 0 pages)
      (hlimit : pages.length ≤ max 1 (View.terms view).limits.pages.toNat) :
      Reads view root pages

/-- The pages, each with its number, that links lead over from page `number` to page `last`. None of
them is linked to the root. -/
inductive Path {σ : Type} [View σ] (view : σ) (root : Key) :
    UInt64 → List (UInt64 × DirectoryPage) → UInt64 → Prop
  | nil (number : UInt64) : Path view root number [] number
  | cons {number last : UInt64} {page : DirectoryPage} {rest : List (UInt64 × DirectoryPage)}
      (hpage : View.page? view root number = some page) (hnext : page.next ≠ 0)
      (hrest : Path view root page.next rest last) :
      Path view root number ((number, page) :: rest) last

/-- Over some pages, `limit` at most, links lead from page `number` to page `lost`. That page is missing
or no directory page, or it is reached only after as many pages as may be read. -/
structure Breaks {σ : Type} [View σ] (view : σ) (root : Key) (limit : Nat) (number : UInt64)
    (pages : List (UInt64 × DirectoryPage)) (lost : UInt64) : Prop where
  path : Path view root number pages lost
  begun : pages ≠ []
  within : pages.length ≤ limit
  stopped : View.page? view root lost = none ∨ pages.length = limit

/-- The keys on some pages, in the order of the pages. -/
def named (pages : List (UInt64 × DirectoryPage)) : List Key := pages.flatMap (·.2.keys)

variable {σ : Type} [View σ] {view : σ} {root : Key} {number lost : UInt64} {page : DirectoryPage}
  {pages pages' : List (UInt64 × DirectoryPage)} {limit budget : Nat}

/-! ## There is one trail at most -/

theorem Trail.unique (h : Trail view root number pages) (h' : Trail view root number pages') :
    pages = pages' := by
  induction h generalizing pages' with
  | last hpage hnext =>
      cases h' with
      | last hpage' hnext' =>
          cases hpage.symm.trans hpage'
          rfl
      | step hpage' hnext' hrest' =>
          cases hpage.symm.trans hpage'
          exact absurd hnext hnext'
  | step hpage hnext hrest ih =>
      cases h' with
      | last hpage' hnext' =>
          cases hpage.symm.trans hpage'
          exact absurd hnext' hnext
      | step hpage' hnext' hrest' =>
          cases hpage.symm.trans hpage'
          rw [ih hrest']

theorem Trail.exists_page (h : Trail view root number pages) :
    ∃ page, View.page? view root number = some page := by
  cases h with
  | last hpage _ | step hpage _ _ => exact ⟨_, hpage⟩

theorem Reads.unique (h : Reads view root pages) (h' : Reads view root pages') :
    pages = pages' := by
  cases h with
  | absent hnone =>
      cases h' with
      | absent => rfl
      | trail htrail _ =>
          obtain ⟨page, hpage⟩ := htrail.exists_page
          cases hnone.symm.trans hpage
  | trail htrail _ =>
      cases h' with
      | absent hnone =>
          obtain ⟨page, hpage⟩ := htrail.exists_page
          cases hnone.symm.trans hpage
      | trail htrail' _ => exact htrail.unique htrail'

/-- The pages on a trail are those at their numbers. -/
theorem Trail.page?_of_mem (h : Trail view root number pages) {index : UInt64}
    (hmem : (index, page) ∈ pages) : View.page? view root index = some page := by
  induction h with
  | last hpage _ =>
      cases List.mem_singleton.1 hmem
      exact hpage
  | step hpage _ _ ih =>
      rcases List.mem_cons.1 hmem with heq | hmem
      · cases heq
        exact hpage
      · exact ih hmem

theorem Reads.page?_of_mem (h : Reads view root pages) {index : UInt64}
    (hmem : (index, page) ∈ pages) : View.page? view root index = some page := by
  cases h with
  | absent => cases hmem
  | trail htrail _ => exact htrail.page?_of_mem hmem

/-- Nothing but the pages and the limit matters. -/
theorem Trail.congr {τ : Type} [View τ] {view' : τ} (h : Trail view root number pages)
    (hpages : ∀ index, View.page? view' root index = View.page? view root index) :
    Trail view' root number pages := by
  induction h with
  | last hpage hnext => exact .last ((hpages _).trans hpage) hnext
  | step hpage hnext _ ih => exact .step ((hpages _).trans hpage) hnext ih

theorem Reads.congr {τ : Type} [View τ] {view' : τ} (h : Reads view root pages)
    (hpages : ∀ index, View.page? view' root index = View.page? view root index)
    (hterms : View.terms view' = View.terms view) : Reads view' root pages := by
  cases h with
  | absent hnone => exact .absent ((hpages 0).trans hnone)
  | trail htrail hlimit => exact .trail (htrail.congr hpages) (hterms ▸ hlimit)

/-! ## Two ways to end -/

theorem Breaks.cons (hpage : View.page? view root number = some page) (hnext : page.next ≠ 0)
    (h : Breaks view root limit page.next pages lost) :
    Breaks view root (limit + 1) number ((number, page) :: pages) lost where
  path := .cons hpage hnext h.path
  begun := List.cons_ne_nil _ _
  within := Nat.succ_le_succ h.within
  stopped := h.stopped.imp_right (congrArg (· + 1))

/-- From a page on, links lead to the root within the limit or to a page that is not to be had. -/
theorem exists_trail_or_breaks (budget : Nat) (hpage : View.page? view root number = some page) :
    (∃ pages, Trail view root number pages ∧ pages.length ≤ budget + 1) ∨
      ∃ pages lost, Breaks view root (budget + 1) number pages lost := by
  induction budget generalizing number page with
  | zero =>
      by_cases hnext : page.next = 0
      · exact .inl ⟨_, .last hpage hnext, Nat.le_refl _⟩
      · exact .inr ⟨_, _, .cons hpage hnext (.nil _), List.cons_ne_nil _ _, Nat.le_refl _, .inr rfl⟩
  | succ budget ih =>
      by_cases hnext : page.next = 0
      · exact .inl ⟨_, .last hpage hnext, by simp⟩
      · cases hfollowing : View.page? view root page.next with
        | none =>
            exact .inr ⟨_, _, .cons hpage hnext (.nil _), List.cons_ne_nil _ _, by simp,
              .inl hfollowing⟩
        | some following =>
            rcases ih hfollowing with ⟨pages, htrail, hlength⟩ | ⟨pages, lost, hbreaks⟩
            · exact .inl ⟨_, .step hpage hnext htrail, Nat.succ_le_succ hlength⟩
            · exact .inr ⟨_, _, hbreaks.cons hpage hnext⟩

/-- A directory can be listed, or links lead from its root to a page that is not to be had. -/
theorem exists_reads_or_breaks (view : σ) (root : Key) :
    (∃ pages, Reads view root pages) ∨ ∃ pages lost,
      Breaks view root (max 1 (View.terms view).limits.pages.toNat) 0 pages lost := by
  cases hfirst : View.page? view root 0 with
  | none => exact .inl ⟨[], .absent hfirst⟩
  | some first =>
      have hlimit : (View.terms view).limits.pages.toNat - 1 + 1 =
          max 1 (View.terms view).limits.pages.toNat := by omega
      have hways := exists_trail_or_breaks ((View.terms view).limits.pages.toNat - 1) hfirst
      rw [hlimit] at hways
      exact hways.imp_left fun ⟨pages, htrail, hlength⟩ => ⟨pages, .trail htrail hlength⟩

/-! ## Listing -/

theorem run_page_of_some (h : View.page? view root number = some page) :
    (Directory.page root number).run view = (.ok page, view) := by
  have hfound : (View.find? view (Slot.page root number).key).bind Entry.directoryPage? =
      some page := h
  unfold Directory.page
  rw [Procedure.run_bind_ok (Procedure.run_find? _ _), hfound, Procedure.run_ofOption_some]

theorem run_page_of_none (h : View.page? view root number = none) :
    (Directory.page root number).run view =
      (.error (.brokenDirectoryLink root number), view) := by
  have hfound : (View.find? view (Slot.page root number).key).bind Entry.directoryPage? = none := h
  unfold Directory.page
  rw [Procedure.run_bind_ok (Procedure.run_find? _ _), hfound, Procedure.run_ofOption_none]

/-- Where there is a trail, its pages are met, if enough of them may be read. -/
theorem Trail.run_pagesFrom (h : Trail view root number pages)
    (hpage : View.page? view root number = some page) {budget : Nat}
    (hbudget : pages.length ≤ budget + 1) (met : List DirectoryPage) :
    (pagesFrom root budget met page).run view =
      (.ok (met.reverse ++ pages.map Prod.snd), view) := by
  induction h generalizing page budget met with
  | last hfound hnext =>
      cases hpage.symm.trans hfound
      cases budget <;> simp [pagesFrom, hnext]
  | step hfound hnext hrest ih =>
      cases hpage.symm.trans hfound
      obtain ⟨following, hfollowing⟩ := hrest.exists_page
      cases budget with
      | zero =>
          have hlength := hbudget
          cases hrest <;> simp at hlength
      | succ budget =>
          unfold pagesFrom
          rw [if_neg hnext, Procedure.run_bind_ok (run_page_of_some hfollowing),
            ih hfollowing (by simpa using hbudget)]
          simp

/-- Where the pages break off, that is met too. -/
theorem Breaks.run_pagesFrom (h : Breaks view root (budget + 1) number pages lost)
    (hpage : View.page? view root number = some page) (met : List DirectoryPage) :
    (pagesFrom root budget met page).run view =
      (.error (.brokenDirectoryLink root lost), view) := by
  obtain ⟨hpath, hbegun, hwithin, hstopped⟩ := h
  induction hpath generalizing page budget met with
  | nil => exact absurd rfl hbegun
  | @cons number last found rest hfound hnext hrest ih =>
      cases hpage.symm.trans hfound
      cases budget with
      | zero =>
          obtain rfl : rest = [] := List.length_eq_zero_iff.1 (by simpa using hwithin)
          cases hrest
          unfold pagesFrom
          rw [if_neg hnext]
          rfl
      | succ budget =>
          unfold pagesFrom
          rw [if_neg hnext]
          cases hrest with
          | nil =>
              have hnone := hstopped.resolve_right (by simp)
              rw [Procedure.run_bind_error (run_page_of_none hnone)]
          | cons hfollowing hnext' hrest' =>
              rw [Procedure.run_bind_ok (run_page_of_some hfollowing)]
              exact ih hfollowing _ (List.cons_ne_nil _ _) (Nat.le_of_succ_le_succ hwithin)
                (hstopped.imp_right Nat.succ.inj)

/-- A directory that can be listed lists the keys of its pages. -/
theorem Reads.run_keys (h : Reads view root pages) :
    (keys root).run view = (.ok (named pages), view) := by
  unfold keys
  rw [Procedure.run_bind_ok (Procedure.run_getTerms _),
    Procedure.run_bind_ok (Procedure.run_find? _ _)]
  cases h with
  | absent hnone =>
      have hroot : (View.find? view root).bind Entry.directoryPage? = none := hnone
      rw [hroot]
      rfl
  | trail htrail hlimit =>
      obtain ⟨first, hfirst⟩ := htrail.exists_page
      have hroot : (View.find? view root).bind Entry.directoryPage? = some first := hfirst
      simp only [hroot]
      rw [Procedure.run_bind_ok (htrail.run_pagesFrom hfirst (by omega) [])]
      simp [named, List.flatMap_map]

/-- A directory that breaks off is not listed, and the page that is not to be had is named. -/
theorem Breaks.run_keys
    (h : Breaks view root (max 1 (View.terms view).limits.pages.toNat) 0 pages lost) :
    (keys root).run view = (.error (.brokenDirectoryLink root lost), view) := by
  obtain ⟨first, hfirst⟩ : ∃ first, View.page? view root 0 = some first := by
    cases h.path with
    | nil => exact absurd rfl h.begun
    | cons hpage _ _ => exact ⟨_, hpage⟩
  have hroot : (View.find? view root).bind Entry.directoryPage? = some first := hfirst
  have hlimit : max 1 (View.terms view).limits.pages.toNat =
      (View.terms view).limits.pages.toNat - 1 + 1 := by omega
  unfold keys
  rw [Procedure.run_bind_ok (Procedure.run_getTerms _),
    Procedure.run_bind_ok (Procedure.run_find? _ _)]
  simp only [hroot]
  rw [Procedure.run_bind_error ((hlimit ▸ h).run_pagesFrom hfirst [])]

/-- Nothing else can be listed. -/
theorem exists_reads_of_run_keys {listed : List Key}
    (h : ((keys root).run view).1 = .ok listed) :
    ∃ pages, Reads view root pages ∧ listed = named pages := by
  rcases exists_reads_or_breaks view root with ⟨pages, hreads⟩ | ⟨pages, lost, hbreaks⟩
  · rw [hreads.run_keys] at h
    cases h
    exact ⟨pages, hreads, rfl⟩
  · rw [hbreaks.run_keys] at h
    cases h

/-- Nothing else breaks off. -/
theorem exists_breaks_of_run_keys {cause : LedgerError}
    (h : ((keys root).run view).1 = .error cause) :
    ∃ pages lost, Breaks view root (max 1 (View.terms view).limits.pages.toNat) 0 pages lost ∧
      cause = .brokenDirectoryLink root lost := by
  rcases exists_reads_or_breaks view root with ⟨pages, hreads⟩ | ⟨pages, lost, hbreaks⟩
  · rw [hreads.run_keys] at h
    cases h
  · rw [hbreaks.run_keys] at h
    cases h
    exact ⟨pages, lost, hbreaks, rfl⟩

end Directory

end Cosign
