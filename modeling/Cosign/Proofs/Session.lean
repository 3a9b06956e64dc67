-- SUMMARY: Adaptive sequences of calls on a view, and that a draft answers them as its ledger does.
import Cosign.Proofs.Commit
import Mathlib.Data.List.Forall2

/-!
# Sessions

A session is a caller that works on a view call by call and chooses each call by
the results of those before, failures included. Every procedure can be called:
reading an entry, rewriting one, inserting, erasing, moving an owner count, and
the operations on directories and signer lists made from these.

A draft cannot be told from its ledger by any session, and what it is committed
to after any call is what the same calls make of the ledger itself
(`perform_draft`).
-/

namespace Cosign

/-- A sequence of calls, each chosen by the results so far. A failed call is a result like any
other; its changes stay made and the session goes on. -/
inductive Session : Type 1 where
  | finish
  | call {ε α : Type} (operation : Procedure ε α) (next : Except ε α → Session)

namespace Session

/-- The result of a call, together with its types. -/
abbrev Result : Type 1 := (ε : Type) × (α : Type) × Except ε α

/-- The result of each call, and the view after it. -/
def perform {σ : Type} [View σ] : Session → σ → List (Result × σ)
  | finish, _ => []
  | call operation next, view =>
    let (result, changed) := operation.run view
    (⟨_, _, result⟩, changed) :: (next result).perform changed

/-- A draft over `base` does for the ledger `direct`: it shows what `direct` shows, becomes
`direct` when committed and `base` when discarded. -/
structure StandsFor (base : Ledger) (draft : Draft) (direct : Ledger) : Prop where
  contents : View.contents draft = View.contents direct
  base_eq : draft.base = base
  commit : draft.commit.1 = direct
  discard : draft.discard = base
  terms : View.terms draft = base.terms ∧ View.terms direct = base.terms

theorem StandsFor.ofLedger (ledger : Ledger) :
    StandsFor ledger (Draft.ofLedger ledger) ledger where
  contents := Draft.contents_ofLedger ledger
  base_eq := rfl
  commit := Draft.commit_eq (Draft.contents_ofLedger ledger)
  discard := rfl
  terms := ⟨rfl, rfl⟩

/-- What a call keeps. -/
theorem StandsFor.run {base direct : Ledger} {draft : Draft} (h : StandsFor base draft direct)
    {ε α : Type} (operation : Procedure ε α) :
    (operation.run draft).1 = (operation.run direct).1 ∧
      StandsFor base (operation.run draft).2 (operation.run direct).2 := by
  obtain ⟨hresult, hcontents⟩ := Draft.run_eq_run operation h.contents
  have hbase : (operation.run draft).2.base = base :=
    (Draft.base_run operation draft).trans h.base_eq
  refine ⟨hresult, ?_⟩
  constructor
  · exact hcontents
  · exact hbase
  · exact Draft.commit_eq hcontents
  · exact hbase
  · rw [Procedure.terms_run, Procedure.terms_run]
    exact h.terms

/-- What a whole session keeps, from any draft and ledger that stand for each other. -/
theorem StandsFor.perform {base direct : Ledger} {draft : Draft} (session : Session)
    (h : StandsFor base draft direct) :
    List.Forall₂ (fun drafted direct => drafted.1 = direct.1 ∧ StandsFor base drafted.2 direct.2)
      (session.perform draft) (session.perform direct) := by
  induction session generalizing draft direct with
  | finish => exact .nil
  | call operation next ih =>
      obtain ⟨hresult, hafter⟩ := h.run operation
      simp only [Session.perform]
      rw [hresult]
      exact .cons ⟨rfl, hafter⟩ (ih _ hafter)

/-- A session on a draft of a ledger and the same session on the ledger itself make the same number
of calls and get the same results. After each call the draft still has the ledger as its base, the
terms are those of the ledger, committing gives the ledger that the direct calls have made, and
discarding gives the ledger as it was. -/
theorem perform_draft (session : Session) (ledger : Ledger) :
    List.Forall₂
      (fun (drafted : Result × Draft) (direct : Result × Ledger) =>
        drafted.1 = direct.1 ∧
          drafted.2.base = ledger ∧
          drafted.2.commit.1 = direct.2 ∧
          drafted.2.discard = ledger ∧
          View.terms drafted.2 = View.terms ledger ∧ View.terms direct.2 = View.terms ledger)
      (session.perform (Draft.ofLedger ledger)) (session.perform ledger) := by
  have hsame := (StandsFor.ofLedger ledger).perform session
  apply hsame.imp
  rintro drafted direct ⟨hresult, hafter⟩
  exact ⟨hresult, hafter.base_eq, hafter.commit, hafter.discard, hafter.terms⟩

end Session

end Cosign
