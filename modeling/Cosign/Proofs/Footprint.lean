-- SUMMARY: The keys a procedure meets, how little else matters to its run, and which keys a transaction can meet.
import Cosign.Proofs.Conduct
import Mathlib.Data.Set.Insert

/-!
# Footprints

A run meets the keys that it reads, writes or tries to write. Its result depends
on the terms and on the entries at these keys, and entries elsewhere stay
(`run_of_agree`, `find?_run_of_not_met`). Which keys are met depends on the view,
but a procedure whose accesses stay within a set of keys stays there on every view
(`Within.met_subset`). So does every transaction, with the keys of its account's
family (`Transaction.within_enact`): no links or hints, broken as they may be, lead
it elsewhere.
-/

namespace Cosign

namespace Procedure

variable {ε ε' α β σ : Type} [View σ]

/-! ## Keys that a run meets -/

/-- The keys that a run reads, writes or tries to write, in the order of its steps. -/
def met : Procedure ε α → σ → List Key
  | done _, _ => []
  | fail _, _ => []
  | terms next, view => (next (View.terms view)).met view
  | read key next, view => key :: (next (View.find? view key)).met view
  | modify key change next, view =>
    key :: (next (View.find? view key)).met (View.modify view key change)
  | insert key entry next, view =>
    let (answer, changed) := View.insert view key entry
    key :: (next answer).met changed
  | erase key next, view =>
    let (answer, changed) := View.erase view key
    key :: (next answer).met changed

@[simp] theorem met_pure (value : α) (view : σ) : (pure value : Procedure ε α).met view = [] := rfl

@[simp] theorem met_getTerms (view : σ) : (getTerms : Procedure ε Terms).met view = [] := rfl

@[simp] theorem met_find? (key : Key) (view : σ) :
    (find? key : Procedure ε (Option Entry)).met view = [key] := rfl

/-- A composition meets what its first part meets and then, unless that fails, what the rest does. -/
theorem met_bind (p : Procedure ε α) (f : α → Procedure ε β) (view : σ) :
    (p >>= f).met view = p.met view ++
      match p.run view with
      | (.ok value, after) => (f value).met after
      | (.error _, _) => [] := by
  rw [bind_eq]
  induction p generalizing view with
  | done | fail => rfl
  | terms next ih => exact ih _ _
  | read key next ih | modify key change next ih | insert key entry next ih | erase key next ih =>
      exact congrArg (List.cons key) (ih _ _)

/-- What is met in both parts of a composition is all that is met. -/
theorem forall_met_bind {p : Procedure ε α} {f : α → Procedure ε β} {view : σ} {P : Key → Prop}
    (hp : ∀ key ∈ p.met view, P key)
    (hf : ∀ value after, p.run view = (.ok value, after) → ∀ key ∈ (f value).met after, P key) :
    ∀ key ∈ (p >>= f).met view, P key := by
  rw [met_bind, List.forall_mem_append]
  refine ⟨hp, ?_⟩
  rcases hrun : p.run view with ⟨_ | value, after⟩
  · exact nofun
  · exact hf value after hrun

variable [LawfulView σ]

/-- Entries at other keys stay. -/
theorem find?_run_of_not_met (p : Procedure ε α) (view : σ) {key : Key} (h : key ∉ p.met view) :
    View.find? (p.run view).2 key = View.find? view key := by
  induction p generalizing view with
  | done | fail => rfl
  | terms next ih => exact ih _ _ h
  | read other next ih => exact ih _ _ (List.not_mem_of_not_mem_cons h)
  | modify other change next ih =>
      simp only [met, List.mem_cons, not_or] at h
      refine (ih _ _ h.2).trans ?_
      rw [LawfulView.find?_modify, if_neg h.1]
  | insert other entry next ih =>
      simp only [met, List.mem_cons, not_or] at h
      cases hother : View.find? view other with
      | some old =>
          simp only [run, LawfulView.insert_of_some _ _ _ _ hother] at h ⊢
          exact ih _ _ h.2
      | none =>
          obtain ⟨changed, hinsert, -, hchanged⟩ :=
            LawfulView.insert_of_none view other entry hother
          simp only [run, hinsert] at h ⊢
          rw [ih _ _ h.2, hchanged, if_neg h.1]
  | erase other next ih =>
      simp only [met, List.mem_cons, not_or] at h
      cases hother : View.find? view other with
      | none =>
          simp only [run, LawfulView.erase_of_none _ _ hother] at h ⊢
          exact ih _ _ h.2
      | some entry =>
          obtain ⟨changed, herase, -, hchanged⟩ := LawfulView.erase_of_some view other entry hother
          simp only [run, herase] at h ⊢
          rw [ih _ _ h.2, hchanged, if_neg h.1]

/-- On views that agree at the keys met a run is the same: it meets the same keys, comes to the same
result and leaves the views in agreement wherever they agreed. -/
theorem run_of_agree (p : Procedure ε α) {a b : σ} (hterms : View.terms b = View.terms a)
    (h : ∀ key ∈ p.met a, View.find? b key = View.find? a key) :
    p.met b = p.met a ∧ (p.run b).1 = (p.run a).1 ∧
      ∀ key, View.find? b key = View.find? a key →
        View.find? (p.run b).2 key = View.find? (p.run a).2 key := by
  induction p generalizing a b with
  | done | fail => exact ⟨rfl, rfl, fun _ h => h⟩
  | terms next ih =>
      simp only [met, run] at h ⊢
      rw [hterms]
      exact ih _ hterms h
  | read key next ih =>
      simp only [met, run, List.forall_mem_cons] at h ⊢
      rw [h.1, List.cons_inj_right]
      exact ih _ hterms h.2
  | modify key change next ih =>
      simp only [met, run, List.forall_mem_cons] at h ⊢
      have hkeep : ∀ other, View.find? b other = View.find? a other →
          View.find? (View.modify b key change) other =
            View.find? (View.modify a key change) other := fun other hother => by
        rw [LawfulView.find?_modify, LawfulView.find?_modify, h.1, hother]
      obtain ⟨hmet, hresult, hafter⟩ := ih (View.find? a key)
        (by rw [LawfulView.terms_modify, LawfulView.terms_modify, hterms])
        fun other hother => hkeep other (h.2 other hother)
      rw [h.1, hmet]
      exact ⟨rfl, hresult, fun other hother => hafter other (hkeep other hother)⟩
  | insert key entry next ih =>
      simp only [met, List.forall_mem_cons] at h
      cases ha : View.find? a key with
      | some old =>
          have hb := h.1.trans ha
          simp only [met, run, LawfulView.insert_of_some _ _ _ _ ha,
            LawfulView.insert_of_some _ _ _ _ hb, List.cons_inj_right] at h ⊢
          exact ih _ hterms h.2
      | none =>
          obtain ⟨a', hinserta, htermsa, hfinda⟩ := LawfulView.insert_of_none a key entry ha
          obtain ⟨b', hinsertb, htermsb, hfindb⟩ :=
            LawfulView.insert_of_none b key entry (h.1.trans ha)
          have hkeep : ∀ other, View.find? b other = View.find? a other →
              View.find? b' other = View.find? a' other := fun other hother => by
            rw [hfinda, hfindb, hother]
          simp only [met, run, hinserta, hinsertb, List.cons_inj_right] at h ⊢
          obtain ⟨hmet, hresult, hafter⟩ := ih (.ok ()) (by rw [htermsa, htermsb, hterms])
            fun other hother => hkeep other (h.2 other hother)
          exact ⟨hmet, hresult, fun other hother => hafter other (hkeep other hother)⟩
  | erase key next ih =>
      simp only [met, List.forall_mem_cons] at h
      cases ha : View.find? a key with
      | none =>
          have hb := h.1.trans ha
          simp only [met, run, LawfulView.erase_of_none _ _ ha, LawfulView.erase_of_none _ _ hb,
            List.cons_inj_right] at h ⊢
          exact ih _ hterms h.2
      | some entry =>
          obtain ⟨a', herasea, htermsa, hfinda⟩ := LawfulView.erase_of_some a key entry ha
          obtain ⟨b', heraseb, htermsb, hfindb⟩ :=
            LawfulView.erase_of_some b key entry (h.1.trans ha)
          have hkeep : ∀ other, View.find? b other = View.find? a other →
              View.find? b' other = View.find? a' other := fun other hother => by
            rw [hfinda, hfindb, hother]
          simp only [met, run, herasea, heraseb, List.cons_inj_right] at h ⊢
          obtain ⟨hmet, hresult, hafter⟩ := ih (.ok entry) (by rw [htermsa, htermsb, hterms])
            fun other hother => hkeep other (h.2 other hother)
          exact ⟨hmet, hresult, fun other hother => hafter other (hkeep other hother)⟩

/-! ## Procedures that stay within a set of keys -/

/-- Whatever the answers, the procedure goes to no key outside the set. -/
def Within (K : Set Key) : Procedure ε α → Prop
  | done _ | fail _ => True
  | terms next => ∀ answer, (next answer).Within K
  | read key next => key ∈ K ∧ ∀ answer, (next answer).Within K
  | modify key _ next => key ∈ K ∧ ∀ answer, (next answer).Within K
  | insert key _ next => key ∈ K ∧ ∀ answer, (next answer).Within K
  | erase key next => key ∈ K ∧ ∀ answer, (next answer).Within K

namespace Within

variable {K : Set Key} {key : Key}

omit [LawfulView σ] in
/-- A procedure that stays within a set meets only keys of the set. -/
theorem met_subset {p : Procedure ε α} (h : p.Within K) (view : σ) :
    ∀ key ∈ p.met view, key ∈ K := by
  induction p generalizing view with
  | done | fail => exact nofun
  | terms next ih => exact ih _ (h _) view
  | read other next ih | modify other change next ih | insert other entry next ih
  | erase other next ih => exact List.forall_mem_cons.2 ⟨h.1, ih _ (h.2 _) _⟩

end Within

omit [View σ] [LawfulView σ] in
/-- A procedure stays within a set if all its accesses do. -/
theorem Conforms.within {A : Access → Prop} {F : ε → Prop} {K : Set Key} {p : Procedure ε α}
    (h : p.Conforms A F) (hA : ∀ access, A access → access.key ∈ K) : p.Within K := by
  induction p with
  | done | fail => trivial
  | terms next ih => exact fun answer => ih answer (h answer)
  | read key next ih | modify key change next ih | insert key entry next ih | erase key next ih =>
      exact ⟨hA _ h.1, fun answer => ih answer (h.2 answer)⟩

end Procedure

theorem Directory.met_page {σ : Type} [View σ] (root : Key) (index : UInt64) (view : σ) :
    (page root index).met view = [(Slot.page root index).key] := by
  change _ :: (Procedure.ofOption _ ((View.find? view _).bind Entry.directoryPage?)).met _ = _
  cases (View.find? view (Slot.page root index).key).bind Entry.directoryPage? <;> rfl

/-! ## Families of keys -/

/-- The keys of a directory's pages, whatever their numbers. -/
def Directory.pageKeys (root : Key) : Set Key := Set.range fun index => (Slot.page root index).key

theorem Directory.Proper.key_mem_pageKeys {root : Key} {owner : Option AccountId} {access : Access}
    (h : Proper root owner access) : access.key ∈ pageKeys root := by
  cases h with
  | read index | modify index | insert index | erase index => exact ⟨index, rfl⟩

/-- The keys at which an account can have entries. -/
def family (id : AccountId) : Set Key :=
  insert (Slot.account id).key (insert (signersKey id) (Directory.pageKeys (ownerDirectoryKey id)))

theorem SignerList.Proper.key_mem_family {owner : AccountId} {access : Access}
    (h : Proper owner access) : access.key ∈ family owner := by
  cases h with
  | directory h => exact Set.mem_insert_of_mem _ (Set.mem_insert_of_mem _ h.key_mem_pageKeys)
  | readRoot | moveCount => exact Set.mem_insert _ _
  | readList | insertList | eraseList => exact Set.mem_insert_of_mem _ (Set.mem_insert _ _)

/-- A transaction goes to keys of its account's family only. -/
theorem Transaction.within_enact (tx : Transaction) : tx.enact.Within (family tx.account) := by
  cases hpreflight : tx.preflight with
  | error cause =>
      unfold Transaction.enact
      rw [hpreflight]
      trivial
  | ok request => exact (conforms_enact hpreflight).within fun _ => SignerList.Proper.key_mem_family

end Cosign
