-- SUMMARY: What committing a draft writes, and that a committed draft is the ledger of the direct run.
import Cosign.Draft
import Cosign.Service
import Cosign.Proofs.Contents

/-!
# Commits

A draft keeps one change a key and writes only those that make a difference. The
ledger it is committed to nevertheless shows what the draft showed
(`contents_commit`), so a procedure run on a draft and committed leaves the very
ledger that it leaves when run on the ledger itself (`commit_run`), and gives the
same result. What is counted on the way are the keys whose entries are others
afterwards (`commit_count`).
-/

namespace Cosign

namespace Ledger

/-- The entries of a ledger are those that it shows. -/
theorem entries_eq_iff {a b : Ledger} :
    a.entries = b.entries ↔ (View.contents a).entries = (View.contents b).entries := by
  constructor
  · intro h
    funext key
    exact congrArg (·[key]?) h
  · intro h
    exact Std.ExtTreeMap.ext_getElem? fun {key} => congrFun h key

/-- A ledger is determined by what it shows. -/
theorem ext_contents {a b : Ledger} (h : View.contents a = View.contents b) : a = b := by
  have hterms : a.terms = b.terms := congrArg Contents.terms h
  have hentries : a.entries = b.entries := entries_eq_iff.2 (congrArg Contents.entries h)
  cases a
  cases b
  simp_all

/-- The changed keys are those at which the entries differ. -/
theorem mem_changedKeys {before after : Ledger} {key : Key} :
    key ∈ before.changedKeys after ↔ View.find? before key ≠ View.find? after key := by
  simp only [changedKeys, List.mem_filter, Std.ExtTreeMap.mem_keys,
    Std.ExtTreeMap.mem_insertMany_list, bne_iff_ne, find?_eq]
  refine ⟨And.right, fun hne => ⟨?_, hne⟩⟩
  rw [Std.ExtTreeMap.mem_iff_isSome_getElem?]
  cases hbefore : before.entries[key]? with
  | some entry => exact .inl rfl
  | none =>
      obtain ⟨entry, hafter⟩ := Option.ne_none_iff_exists'.1 (hbefore ▸ hne).symm
      have hlisted : (key, entry) ∈ after.entries.toList :=
        Std.ExtTreeMap.mem_toList_iff_getElem?_eq_some.2 hafter
      exact .inr (List.contains_iff_mem.2 (List.mem_map_of_mem hlisted))

theorem changedKeys_self (ledger : Ledger) : ledger.changedKeys ledger = [] :=
  List.eq_nil_iff_forall_not_mem.2 fun _ hkey => mem_changedKeys.1 hkey rfl

theorem nodup_changedKeys (before after : Ledger) : (before.changedKeys after).Nodup :=
  Std.ExtTreeMap.nodup_keys.sublist List.filter_sublist

end Ledger

namespace Draft

/-! ## Carrying changes out -/

theorem contents_settle (ledger : Ledger) (key : Key) (change : Change) :
    View.contents (settle ledger key change) =
      (View.contents ledger).set key change.current? := by
  unfold settle
  cases change.current? with
  | some entry =>
      refine Contents.ext rfl (funext fun other => ?_)
      by_cases h : other = key
      · subst h
        simp [View.contents, Ledger.find?_eq]
      · simp [View.contents, Ledger.find?_eq, Contents.entries_set,
          Std.ExtTreeMap.getElem?_insert, h, Ne.symm h]
  | none =>
      refine Contents.ext rfl (funext fun other => ?_)
      by_cases h : other = key
      · subst h
        simp [View.contents, Ledger.find?_eq]
      · simp [View.contents, Ledger.find?_eq, Contents.entries_set,
          Std.ExtTreeMap.getElem?_erase, h, Ne.symm h]

theorem find?_settle (ledger : Ledger) (key other : Key) (change : Change) :
    View.find? (settle ledger key change) other =
      if other = key then change.current? else View.find? ledger other :=
  congrFun (congrArg Contents.entries (contents_settle ledger key change)) other

/-- The ledger with some changes carried out, one after the other. -/
def settleAll (ledger : Ledger) (pending : List (Key × Change)) : Ledger :=
  pending.foldl (fun ledger (key, change) => settle ledger key change) ledger

theorem terms_settleAll (ledger : Ledger) (pending : List (Key × Change)) :
    View.terms (settleAll ledger pending) = View.terms ledger := by
  induction pending generalizing ledger with
  | nil => rfl
  | cons head rest ih =>
      refine (ih _).trans ?_
      exact congrArg Contents.terms (contents_settle ledger head.1 head.2)

theorem find?_settleAll_of_notMem {pending : List (Key × Change)} {key : Key}
    (h : key ∉ pending.map Prod.fst) (ledger : Ledger) :
    View.find? (settleAll ledger pending) key = View.find? ledger key := by
  induction pending generalizing ledger with
  | nil => rfl
  | cons head rest ih =>
      simp only [List.map_cons, List.mem_cons, not_or] at h
      refine (ih h.2 _).trans ?_
      rw [find?_settle, if_neg h.1]

theorem find?_settleAll_of_mem {pending : List (Key × Change)} {key : Key} {change : Change}
    (hdistinct : (pending.map Prod.fst).Nodup) (h : (key, change) ∈ pending) (ledger : Ledger) :
    View.find? (settleAll ledger pending) key = change.current? := by
  induction pending generalizing ledger with
  | nil => cases h
  | cons head rest ih =>
      rw [List.map_cons, List.nodup_cons] at hdistinct
      rcases List.mem_cons.1 h with rfl | hrest
      · refine (find?_settleAll_of_notMem hdistinct.1 _).trans ?_
        rw [find?_settle, if_pos rfl]
      · exact ih hdistinct.2 hrest _

/-! ## The listed changes -/

theorem nodup_toList (changes : Changes) : (changes.toList.map Prod.fst).Nodup := by
  refine List.Nodup.sublist (List.filter_sublist.map Prod.fst) ?_
  rw [List.nodup_iff_pairwise_ne, List.pairwise_map]
  refine changes.recorded.distinct_keys_toList.imp fun hne heq => hne ?_
  rw [heq]
  exact Std.ReflCmp.compare_self

theorem mem_toList {changes : Changes} {key : Key} {change : Change} :
    (key, change) ∈ changes.toList ↔ changes.get? key = some change ∧ change.isIdle = false := by
  simp [Changes.toList, Changes.get?, Std.ExtTreeMap.mem_toList_iff_getElem?_eq_some]

/-- A committed draft shows what the draft showed. Changes that are left out because they make no
difference are those whose key shows the base's entry anyway. -/
theorem contents_commit (draft : Draft) :
    View.contents draft.commit.1 = View.contents draft := by
  have hcommit : draft.commit.1 = settleAll draft.base draft.changes.toList := rfl
  rw [hcommit]
  refine Contents.ext (terms_settleAll _ _) (funext fun key => ?_)
  change View.find? (settleAll draft.base draft.changes.toList) key = View.find? draft key
  rw [find?_eq, Changes.find?]
  cases hknown : draft.changes.get? key with
  | none =>
      refine find?_settleAll_of_notMem (fun hmem => ?_) _
      obtain ⟨⟨other, change⟩, hlisted, rfl⟩ := List.mem_map.1 hmem
      simp [mem_toList, hknown] at hlisted
  | some change =>
      cases hidle : change.isIdle with
      | false =>
          exact find?_settleAll_of_mem (nodup_toList _) (mem_toList.2 ⟨hknown, hidle⟩) _
      | true =>
          have hsame : change.previous? = change.current? := by
            simpa [Change.isIdle] using hidle
          rw [find?_settleAll_of_notMem, ← draft.isOver key change hknown, hsame]
          intro hmem
          obtain ⟨⟨other, found⟩, hlisted, rfl⟩ := List.mem_map.1 hmem
          rw [mem_toList, hknown] at hlisted
          obtain ⟨heq, hbusy⟩ := hlisted
          cases heq
          rw [hidle] at hbusy
          cases hbusy

/-! ## Counting changes -/

/-- A key has a pending change just in case the draft shows another entry there. -/
theorem mem_keys_toList {draft : Draft} {key : Key} :
    key ∈ draft.changes.toList.map Prod.fst ↔
      View.find? draft.base key ≠ View.find? draft key := by
  rw [find?_eq, Changes.find?]
  constructor
  · intro hmem
    obtain ⟨⟨_, change⟩, hlisted, rfl⟩ := List.mem_map.1 hmem
    obtain ⟨hknown, hbusy⟩ := mem_toList.1 hlisted
    rw [hknown, ← draft.isOver _ change hknown]
    simpa [Change.isIdle] using hbusy
  · intro hne
    cases hknown : draft.changes.get? key with
    | none =>
        rw [hknown] at hne
        exact absurd rfl hne
    | some change =>
        rw [hknown, ← draft.isOver key change hknown] at hne
        have hbusy : change.isIdle = false := by simpa [Change.isIdle] using hne
        exact List.mem_map.2 ⟨(key, change), mem_toList.2 ⟨hknown, hbusy⟩, rfl⟩

/-- A commit counts the keys whose entries it changes. -/
theorem commit_count (draft : Draft) :
    draft.commit.2 = (draft.base.changedKeys draft.commit.1).length := by
  have hkeys : (draft.changes.toList.map Prod.fst).Perm
      (draft.base.changedKeys draft.commit.1) := by
    rw [List.perm_ext_iff_of_nodup (nodup_toList _) (Ledger.nodup_changedKeys _ _)]
    intro key
    have hshown : View.find? draft.commit.1 key = View.find? draft key :=
      congrFun (congrArg Contents.entries (contents_commit draft)) key
    rw [mem_keys_toList, Ledger.mem_changedKeys, hshown]
  have hlength := hkeys.length_eq
  rwa [List.length_map] at hlength

/-! ## Runs on drafts -/

variable {ε α : Type}

/-- Nothing that is done on a draft reaches its ledger. -/
theorem base_run (p : Procedure ε α) (draft : Draft) : (p.run draft).2.base = draft.base := by
  induction p generalizing draft with
  | done | fail => rfl
  | terms next ih => exact ih _ _
  | read key next ih => exact ih _ _
  | modify key change next ih => exact ih _ _
  | insert key entry next ih => exact ih _ _
  | erase key next ih => exact ih _ _

theorem contents_ofLedger (ledger : Ledger) :
    View.contents (ofLedger ledger) = View.contents ledger := by
  refine Contents.ext rfl (funext fun key => ?_)
  change View.find? (ofLedger ledger) key = View.find? ledger key
  simp [find?_eq, ofLedger, Changes.find?, Changes.get?, Changes.empty]

/-- A draft that shows what a ledger shows commits to that ledger. -/
theorem commit_eq {draft : Draft} {direct : Ledger}
    (h : View.contents draft = View.contents direct) : draft.commit.1 = direct :=
  Ledger.ext_contents ((contents_commit draft).trans h)

/-- A draft that shows what a ledger shows goes on doing so. -/
theorem run_eq_run (p : Procedure ε α) {draft : Draft} {direct : Ledger}
    (h : View.contents draft = View.contents direct) :
    (p.run draft).1 = (p.run direct).1 ∧
      View.contents (p.run draft).2 = View.contents (p.run direct).2 := by
  obtain ⟨hresult₁, hafter₁⟩ := p.run_contents draft
  obtain ⟨hresult₂, hafter₂⟩ := p.run_contents direct
  rw [hresult₁, hresult₂, hafter₁, hafter₂, h]
  exact ⟨rfl, rfl⟩

/-- What is done on a draft and committed is what is done on the ledger at once. -/
theorem commit_run (p : Procedure ε α) (ledger : Ledger) :
    (p.run (ofLedger ledger)).2.commit.1 = (p.run ledger).2 :=
  commit_eq (run_eq_run p (contents_ofLedger ledger)).2

end Draft

/-- A transacted procedure gives its result. Just in case of success it takes effect, and the keys
whose entries it has changed are counted. -/
theorem Procedure.transact_eq {ε α : Type} (p : Procedure ε α) (ledger : Ledger) :
    p.transact ledger =
      match p.run ledger with
      | (.ok value, changed) => (.ok (value, (ledger.changedKeys changed).length), changed)
      | (.error error, _) => (.error error, ledger) := by
  obtain ⟨hresult, -⟩ := Draft.run_eq_run p (Draft.contents_ofLedger ledger)
  have hcommit := Draft.commit_run p ledger
  have hcount := (p.run (Draft.ofLedger ledger)).2.commit_count
  have hbase : (p.run (Draft.ofLedger ledger)).2.base = ledger := Draft.base_run p _
  rw [hcommit, hbase] at hcount
  unfold transact
  rcases hdraft : p.run (Draft.ofLedger ledger) with ⟨result, draft⟩
  rcases hdirect : p.run ledger with ⟨result', direct⟩
  rw [hdraft, hdirect] at hresult hcommit hcount
  rw [hdraft] at hbase
  simp only at hresult hcommit hcount hbase
  subst hresult
  cases result with
  | ok value =>
      simp only
      rw [hcount, hcommit]
  | error error => exact congrArg (Prod.mk (Except.error error)) hbase

/-- A transacted procedure that succeeds on what a ledger shows leaves what it leaves there. -/
theorem Procedure.transact_ok {ε α : Type} {p : Procedure ε α} {ledger : Ledger} {value : α}
    {after : Contents} (h : p.run (View.contents ledger) = (.ok value, after)) :
    ∃ changes changed, p.transact ledger = (.ok (value, changes), changed) ∧
      View.contents changed = after := by
  have htransact := p.transact_eq ledger
  obtain ⟨hresult, hafter⟩ := p.run_contents ledger
  rcases hrun : p.run ledger with ⟨result, changed⟩
  rw [h, hrun] at hresult hafter
  rw [hrun] at htransact
  obtain rfl : result = .ok value := hresult
  exact ⟨_, changed, htransact, hafter⟩

/-- A transacted procedure that fails leaves the ledger as it was. -/
theorem Procedure.transact_error {ε α : Type} {p : Procedure ε α} {ledger : Ledger} {error : ε}
    {after : Contents} (h : p.run (View.contents ledger) = (.error error, after)) :
    p.transact ledger = (.error error, ledger) := by
  have htransact := p.transact_eq ledger
  obtain ⟨hresult, -⟩ := p.run_contents ledger
  rcases hrun : p.run ledger with ⟨result, changed⟩
  rw [h, hrun] at hresult
  rw [hrun] at htransact
  obtain rfl : result = .error error := hresult
  exact htransact

end Cosign
