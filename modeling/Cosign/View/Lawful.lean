-- SUMMARY: The laws of views, and what it takes for two views to show the same.
import Cosign.View

/-!
# Lawful views

In a lawful view every operation does to the entries shown by `find?` what its
name says and leaves the terms alone; one that fails leaves the view as it was.
Nothing else about a view can be observed, so two lawful views that agree cannot
be told apart by any procedure.
-/

namespace Cosign

class LawfulView (σ : Type) [View σ] : Prop where
  terms_modify : ∀ (view : σ) (key : Key) (change : Entry → Entry),
    View.terms (View.modify view key change) = View.terms view
  find?_modify : ∀ (view : σ) (key : Key) (change : Entry → Entry) (other : Key),
    View.find? (View.modify view key change) other =
      if other = key then (View.find? view key).map change else View.find? view other
  insert_of_some : ∀ (view : σ) (key : Key) (entry old : Entry),
    View.find? view key = some old → View.insert view key entry = (.error (.entryExists key), view)
  insert_of_none : ∀ (view : σ) (key : Key) (entry : Entry), View.find? view key = none →
    ∃ changed, View.insert view key entry = (.ok (), changed) ∧
      View.terms changed = View.terms view ∧
      ∀ other, View.find? changed other =
        if other = key then some entry else View.find? view other
  erase_of_none : ∀ (view : σ) (key : Key), View.find? view key = none →
    View.erase view key = (.error (.entryNotFound key), view)
  erase_of_some : ∀ (view : σ) (key : Key) (entry : Entry), View.find? view key = some entry →
    ∃ changed, View.erase view key = (.ok entry, changed) ∧
      View.terms changed = View.terms view ∧
      ∀ other, View.find? changed other = if other = key then none else View.find? view other

/-- Two views show the same entries under the same terms. -/
structure View.Agree {σ τ : Type} [View σ] [View τ] (a : σ) (b : τ) : Prop where
  terms : View.terms a = View.terms b
  find? : ∀ key, View.find? a key = View.find? b key

end Cosign
