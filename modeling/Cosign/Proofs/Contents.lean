-- SUMMARY: What a view shows, as a view of its own, and how the basic operations run on it.
import Cosign.Directory

/-!
# Contents

All that can be observed of a view are its terms and the entry at each key. Its
`Contents` are just these, and they are a lawful view themselves, on which a
procedure runs to the same result (`run_contents`). What a procedure does is
therefore computed once, on contents, where every write is a `set`, and carried
over from there to ledgers and drafts.
-/

namespace Cosign

@[ext] structure Contents where
  terms : Terms
  entries : Key → Option Entry

namespace Contents

/-- The contents with another entry, or none, at a key. -/
def set (contents : Contents) (key : Key) (entry : Option Entry) : Contents :=
  { contents with entries := fun other => if other = key then entry else contents.entries other }

@[simp] theorem terms_set (contents : Contents) (key : Key) (entry : Option Entry) :
    (contents.set key entry).terms = contents.terms := rfl

theorem entries_set (contents : Contents) (key other : Key) (entry : Option Entry) :
    (contents.set key entry).entries other =
      if other = key then entry else contents.entries other := rfl

@[simp] theorem entries_set_self (contents : Contents) (key : Key) (entry : Option Entry) :
    (contents.set key entry).entries key = entry := by
  simp [entries_set]

theorem entries_set_of_ne (contents : Contents) {key other : Key} (h : other ≠ key)
    (entry : Option Entry) :
    (contents.set key entry).entries other = contents.entries other := by
  simp [entries_set, h]

/-- Writing what is there changes nothing. -/
theorem set_eq_self {contents : Contents} {key : Key} {entry : Option Entry}
    (h : contents.entries key = entry) : contents.set key entry = contents := by
  ext1
  · rfl
  · funext other
    by_cases hother : other = key
    · simp [hother, h]
    · exact entries_set_of_ne contents hother entry

/-- Only the last write to a key counts. -/
@[simp] theorem set_set (contents : Contents) (key : Key) (first second : Option Entry) :
    (contents.set key first).set key second = contents.set key second := by
  ext1
  · rfl
  · funext other
    by_cases hother : other = key
    · simp [hother]
    · simp [entries_set_of_ne _ hother]

/-- Writes to different keys can be exchanged. -/
theorem set_comm (contents : Contents) {key other : Key} (h : key ≠ other)
    (first second : Option Entry) :
    (contents.set key first).set other second = (contents.set other second).set key first := by
  ext1
  · rfl
  · funext third
    simp only [entries_set]
    split
    · next hother => rw [if_neg (by rw [hother]; exact h.symm)]
    · rfl

/-! ## Contents as a view -/

instance : View Contents where
  terms := Contents.terms
  find? := Contents.entries
  modify contents key change := contents.set key ((contents.entries key).map change)
  insert contents key entry :=
    match contents.entries key with
    | some _ => (.error (.entryExists key), contents)
    | none => (.ok (), contents.set key (some entry))
  erase contents key :=
    match contents.entries key with
    | some entry => (.ok entry, contents.set key none)
    | none => (.error (.entryNotFound key), contents)

theorem insert_eq (contents : Contents) (key : Key) (entry : Entry) :
    View.insert contents key entry =
      match contents.entries key with
      | some _ => (.error (.entryExists key), contents)
      | none => (.ok (), contents.set key (some entry)) := rfl

theorem erase_eq (contents : Contents) (key : Key) :
    View.erase contents key =
      match contents.entries key with
      | some entry => (.ok entry, contents.set key none)
      | none => (.error (.entryNotFound key), contents) := rfl

instance : LawfulView Contents where
  terms_modify _ _ _ := rfl
  find?_modify _ _ _ _ := rfl
  insert_of_some contents key entry old h := by
    have h : contents.entries key = some old := h
    rw [insert_eq, h]
  insert_of_none contents key entry h := by
    have h : contents.entries key = none := h
    exact ⟨contents.set key (some entry), by rw [insert_eq, h], rfl, fun _ => rfl⟩
  erase_of_none contents key h := by
    have h : contents.entries key = none := h
    rw [erase_eq, h]
  erase_of_some contents key entry h := by
    have h : contents.entries key = some entry := h
    exact ⟨contents.set key none, by rw [erase_eq, h], rfl, fun _ => rfl⟩

end Contents

/-- An account's root is the entry at its key. -/
theorem View.entries_of_account? {contents : Contents} {id : AccountId} {root : AccountRoot}
    (h : View.account? contents id = some root) :
    contents.entries (Slot.account id).key = some (.accountRoot root) := by
  obtain ⟨entry, hentry, hroot⟩ := Option.bind_eq_some_iff.1 h
  cases entry <;> cases hroot
  exact hentry

theorem View.entries_of_signerList? {contents : Contents} {id : AccountId} {list : SignerList}
    (h : View.signerList? contents id = some list) :
    contents.entries (signersKey id) = some (.signerList list) := by
  obtain ⟨entry, hentry, hlist⟩ := Option.bind_eq_some_iff.1 h
  cases entry <;> cases hlist
  exact hentry

theorem View.account?_of_entries {contents : Contents} {id : AccountId} {root? : Option AccountRoot}
    (h : contents.entries (Slot.account id).key = root?.map Entry.accountRoot) :
    View.account? contents id = root? := by
  have hfound : View.find? contents (Slot.account id).key = root?.map Entry.accountRoot := h
  unfold View.account?
  rw [hfound]
  cases root? <;> rfl

theorem View.signerList?_of_entries {contents : Contents} {id : AccountId}
    {list? : Option SignerList}
    (h : contents.entries (signersKey id) = list?.map Entry.signerList) :
    View.signerList? contents id = list? := by
  have hfound : View.find? contents (signersKey id) = list?.map Entry.signerList := h
  unfold View.signerList?
  rw [hfound]
  cases list? <;> rfl

theorem View.page?_of_entries {contents : Contents} {root : Key} {index : UInt64}
    {page? : Option DirectoryPage}
    (h : contents.entries (Slot.page root index).key = page?.map Entry.directoryPage) :
    View.page? contents root index = page? := by
  have hfound : View.find? contents (Slot.page root index).key = page?.map Entry.directoryPage := h
  unfold View.page?
  rw [hfound]
  cases page? <;> rfl

/-- What a view shows. -/
def View.contents {σ : Type} [View σ] (view : σ) : Contents := ⟨View.terms view, View.find? view⟩

namespace Procedure

variable {ε ε' α β σ : Type} [View σ]

/-- A procedure does to a lawful view what it does to the view's contents. -/
theorem run_contents [LawfulView σ] (p : Procedure ε α) (view : σ) :
    (p.run view).1 = (p.run (View.contents view)).1 ∧
      View.contents (p.run view).2 = (p.run (View.contents view)).2 := by
  have hagree : View.Agree view (View.contents view) := ⟨rfl, fun _ => rfl⟩
  obtain ⟨hresult, hafter⟩ := run_agree p hagree
  exact ⟨hresult, Contents.ext hafter.terms (funext hafter.find?)⟩

theorem run_of_contents [LawfulView σ] {p : Procedure ε α} {view : σ} {result : Except ε α}
    {after : Contents} (h : p.run (View.contents view) = (result, after)) :
    ∃ changed, p.run view = (result, changed) ∧ View.contents changed = after := by
  obtain ⟨hresult, hafter⟩ := p.run_contents view
  rw [h] at hresult hafter
  exact ⟨_, Prod.ext hresult rfl, hafter⟩

/-- No procedure changes the terms. -/
theorem terms_run [LawfulView σ] (p : Procedure ε α) (view : σ) :
    View.terms (p.run view).2 = View.terms view := by
  induction p generalizing view with
  | done | fail => rfl
  | terms next ih => exact ih _ _
  | read key next ih => exact ih _ _
  | modify key change next ih => exact (ih _ _).trans (LawfulView.terms_modify view key change)
  | insert key entry next ih =>
      cases hkey : View.find? view key with
      | some old =>
          simp only [run, LawfulView.insert_of_some _ _ _ _ hkey]
          exact ih _ _
      | none =>
          obtain ⟨changed, hinsert, hterms, -⟩ := LawfulView.insert_of_none view key entry hkey
          simp only [run, hinsert]
          exact (ih _ _).trans hterms
  | erase key next ih =>
      cases hkey : View.find? view key with
      | none =>
          simp only [run, LawfulView.erase_of_none _ _ hkey]
          exact ih _ _
      | some entry =>
          obtain ⟨changed, herase, hterms, -⟩ := LawfulView.erase_of_some view key entry hkey
          simp only [run, herase]
          exact (ih _ _).trans hterms

theorem terms_eq_of_run [LawfulView σ] {p : Procedure ε α} {view after : σ} {result : Except ε α}
    (h : p.run view = (result, after)) : View.terms after = View.terms view := by
  rw [← p.terms_run view, h]

/-! ## Steps of a run -/

theorem run_bind_ok {p : Procedure ε α} {f : α → Procedure ε β} {view after : σ} {value : α}
    (h : p.run view = (.ok value, after)) : (p >>= f).run view = (f value).run after := by
  rw [bind_eq, run_bind, h]

theorem run_bind_error {p : Procedure ε α} {f : α → Procedure ε β} {view after : σ} {error : ε}
    (h : p.run view = (.error error, after)) : (p >>= f).run view = (.error error, after) := by
  rw [bind_eq, run_bind, h]

theorem run_mapError_ok {p : Procedure ε α} {f : ε → ε'} {view after : σ} {value : α}
    (h : p.run view = (.ok value, after)) : (p.mapError f).run view = (.ok value, after) := by
  rw [run_mapError, h]
  rfl

theorem run_mapError_error {p : Procedure ε α} {f : ε → ε'} {view after : σ} {error : ε}
    (h : p.run view = (.error error, after)) :
    (p.mapError f).run view = (.error (f error), after) := by
  rw [run_mapError, h]
  rfl

/-- A successful composition, taken apart. -/
theorem run_bind_eq_ok {p : Procedure ε α} {f : α → Procedure ε β} {view after : σ} {value : β}
    (h : (p >>= f).run view = (.ok value, after)) :
    ∃ first between, p.run view = (.ok first, between) ∧
      (f first).run between = (.ok value, after) := by
  rw [bind_eq, run_bind] at h
  rcases hp : p.run view with ⟨error | first, between⟩
  · rw [hp] at h
    cases h
  · rw [hp] at h
    exact ⟨first, between, rfl, h⟩

theorem run_mapError_eq_ok {p : Procedure ε α} {f : ε → ε'} {view after : σ} {value : α}
    (h : (p.mapError f).run view = (.ok value, after)) : p.run view = (.ok value, after) := by
  rw [run_mapError] at h
  rcases hp : p.run view with ⟨error | first, between⟩
  · rw [hp] at h
    cases h
  · rw [hp] at h
    cases h
    rfl

theorem run_ofOption_eq_ok {error : ε} {found : Option α} {view after : σ} {value : α}
    (h : (ofOption error found).run view = (.ok value, after)) :
    found = some value ∧ after = view := by
  cases found with
  | none => cases h
  | some other =>
      cases h
      exact ⟨rfl, rfl⟩

@[simp] theorem run_pure (value : α) (view : σ) :
    (pure value : Procedure ε α).run view = (.ok value, view) := rfl

@[simp] theorem run_fail (error : ε) (view : σ) :
    (fail error : Procedure ε α).run view = (.error error, view) := rfl

@[simp] theorem run_getTerms (view : σ) :
    (getTerms : Procedure ε Terms).run view = (.ok (View.terms view), view) := rfl

@[simp] theorem run_find? (key : Key) (view : σ) :
    (find? key : Procedure ε (Option Entry)).run view = (.ok (View.find? view key), view) := rfl

@[simp] theorem run_ofOption_some (error : ε) (value : α) (view : σ) :
    (ofOption error (some value)).run view = (.ok value, view) := rfl

@[simp] theorem run_ofOption_none (error : ε) (view : σ) :
    (ofOption error none : Procedure ε α).run view = (.error error, view) := rfl

theorem run_account? (id : AccountId) (view : σ) :
    (account? id : Procedure ε (Option AccountRoot)).run view =
      (.ok (View.account? view id), view) := rfl

theorem run_signerList? (id : AccountId) (view : σ) :
    (signerList? id : Procedure ε (Option SignerList)).run view =
      (.ok (View.signerList? view id), view) := rfl

/-! ## Writes to contents -/

theorem run_update (key : Key) (change : Entry → Entry) (contents : Contents) :
    (update key change : Procedure ε (Option Entry)).run contents =
      (.ok (contents.entries key), contents.set key ((contents.entries key).map change)) := rfl

theorem run_insertNew {key : Key} {contents : Contents} (h : contents.entries key = none)
    (entry : Entry) :
    (insertNew key entry).run contents = (.ok (), contents.set key (some entry)) := by
  simp only [insertNew, run, Contents.insert_eq, h]
  rfl

theorem run_remove {key : Key} {contents : Contents} {entry : Entry}
    (h : contents.entries key = some entry) :
    (remove key).run contents = (.ok entry, contents.set key none) := by
  simp only [remove, run, Contents.erase_eq, h]
  rfl

theorem run_adjustOwnerCount {id : AccountId} {contents : Contents} {root : AccountRoot}
    (h : contents.entries (Slot.account id).key = some (.accountRoot root)) (delta : Int64) :
    (adjustOwnerCount id delta).run contents =
      (.ok (root.adjustOwnerCount delta).ownerCount,
        contents.set (Slot.account id).key
          (some (.accountRoot (root.adjustOwnerCount delta)))) := by
  unfold adjustOwnerCount
  rw [run_bind_ok (run_update _ _ _), h]
  rfl

theorem run_insertNew_eq_ok {key : Key} {entry : Entry} {contents after : Contents}
    (h : (insertNew key entry).run contents = (.ok (), after)) :
    contents.entries key = none ∧ after = contents.set key (some entry) := by
  cases hkey : contents.entries key with
  | some old =>
      simp only [insertNew, run, Contents.insert_eq, hkey] at h
      cases h
  | none =>
      rw [run_insertNew hkey] at h
      cases h
      exact ⟨rfl, rfl⟩

theorem run_remove_eq_ok {key : Key} {entry : Entry} {contents after : Contents}
    (h : (remove key).run contents = (.ok entry, after)) :
    contents.entries key = some entry ∧ after = contents.set key none := by
  cases hkey : contents.entries key with
  | none =>
      simp only [remove, run, Contents.erase_eq, hkey] at h
      cases h
  | some old =>
      rw [run_remove hkey] at h
      cases h
      exact ⟨rfl, rfl⟩

theorem run_adjustOwnerCount_eq_ok {id : AccountId} {delta : Int64} {count : UInt32}
    {contents after : Contents}
    (h : (adjustOwnerCount id delta).run contents = (.ok count, after)) :
    ∃ root, contents.entries (Slot.account id).key = some (.accountRoot root) ∧
      count = (root.adjustOwnerCount delta).ownerCount ∧
      after = contents.set (Slot.account id).key
        (some (.accountRoot (root.adjustOwnerCount delta))) := by
  cases hfound : View.account? contents id with
  | none =>
      have hnone : (contents.entries (Slot.account id).key).bind Entry.accountRoot? = none := hfound
      unfold adjustOwnerCount at h
      rw [run_bind_ok (run_update _ _ _), hnone] at h
      cases h
  | some root =>
      have hroot := View.entries_of_account? hfound
      rw [run_adjustOwnerCount hroot] at h
      cases h
      exact ⟨root, hroot, rfl, rfl⟩

end Procedure

end Cosign
