-- SUMMARY: Listing a directory comes to an end on any view whatever, and what it then answers.
import Cosign.Proofs.Directory.Trail
import Cosign.Proofs.Footprint

/-!
# Listing

Listing goes from page to page as the links say, and nothing but the limit keeps it from
going on for ever. So it is said here how many pages it reads (`length_met_keys`), and,
for every view, which of the two ways it ends (`listing_exact`): with the keys of a trail
that comes back to the root, or with the page at which the links break off.
-/

namespace Cosign

namespace Directory

variable {σ : Type} [View σ] {root : Key}

/-! ## How many pages are read -/

theorem length_met_pagesFrom (budget : Nat) (met : List DirectoryPage) (current : DirectoryPage)
    (view : σ) : ((pagesFrom root budget met current).met view).length ≤ budget := by
  induction budget generalizing met current view with
  | zero =>
      unfold pagesFrom
      split <;> exact Nat.le_refl _
  | succ budget ih =>
      unfold pagesFrom
      split
      · exact Nat.zero_le _
      · rw [Procedure.met_bind, met_page]
        rcases (page root current.next).run view with ⟨_ | following, after⟩
        · simp
        · simpa using ih _ following after

/-- The root is read whatever the limit, and then as many pages as it has left at most. -/
theorem length_met_keys (view : σ) :
    ((keys root).met view).length ≤ max 1 (View.terms view).limits.pages.toNat := by
  have hroot : (View.find? view root).bind Entry.directoryPage? = View.page? view root 0 := rfl
  unfold keys
  rw [Procedure.met_bind, Procedure.run_getTerms]
  simp only
  rw [Procedure.met_bind, Procedure.run_find?]
  simp only [Procedure.met_getTerms, Procedure.met_find?, hroot, List.nil_append,
    List.singleton_append, List.length_cons]
  cases View.page? view root 0 with
  | none => exact Nat.le_max_left _ _
  | some first =>
      have hlength : ((pagesFrom root ((View.terms view).limits.pages.toNat - 1) [] first).met
          view).length ≤ (View.terms view).limits.pages.toNat - 1 :=
        length_met_pagesFrom _ [] first view
      simp only
      rw [Procedure.met_bind]
      rcases (pagesFrom root _ [] first).run view with ⟨_ | pages, after⟩ <;>
        simp only [Procedure.met_pure, List.append_nil] <;> omega

/-! ## What is answered -/

/-- Whatever a view holds, listing reads no more pages than the limit allows and changes nothing. It
succeeds just if there is no root page, or if links lead from it over no more pages than the limit
allows to one that is linked to the root, and then it gives the keys of these pages in their order. It
fails just if they lead to a page that is not to be had, and names the directory and that page. -/
theorem listing_exact (view : σ) (root : Key) :
    ((keys root).met view).length ≤ max 1 (View.terms view).limits.pages.toNat ∧
      ((keys root).run view).2 = view ∧
      (∀ listed, ((keys root).run view).1 = .ok listed ↔
        (View.page? view root 0 = none ∧ listed = []) ∨
          ∃ pages, Trail view root 0 pages ∧
            pages.length ≤ max 1 (View.terms view).limits.pages.toNat ∧ listed = named pages) ∧
      ∀ cause, ((keys root).run view).1 = .error cause ↔
        ∃ pages lost,
          Breaks view root (max 1 (View.terms view).limits.pages.toNat) 0 pages lost ∧
            cause = .brokenDirectoryLink root lost := by
  refine ⟨length_met_keys view, ?_, fun listed => ⟨fun h => ?_, ?_⟩, fun cause => ⟨?_, ?_⟩⟩
  · rcases exists_reads_or_breaks view root with ⟨pages, hreads⟩ | ⟨pages, lost, hbreaks⟩
    · rw [hreads.run_keys]
    · rw [hbreaks.run_keys]
  · obtain ⟨pages, hreads, rfl⟩ := exists_reads_of_run_keys h
    cases hreads with
    | absent hnone => exact .inl ⟨hnone, rfl⟩
    | trail htrail hlimit => exact .inr ⟨pages, htrail, hlimit, rfl⟩
  · rintro (⟨hnone, rfl⟩ | ⟨pages, htrail, hlimit, rfl⟩)
    · exact congrArg Prod.fst (Reads.absent hnone).run_keys
    · exact congrArg Prod.fst (Reads.trail htrail hlimit).run_keys
  · exact exists_breaks_of_run_keys
  · rintro ⟨pages, lost, hbreaks, rfl⟩
    exact congrArg Prod.fst hbreaks.run_keys

end Directory

end Cosign
