-- SUMMARY: After any operations on changes, the listed ones are the least difference from the base.
import Cosign.Proofs.Commit
import Mathlib.Data.Set.Card

/-!
# Differences

Changes are made by calls, each given the entry that the base has at its key. To the
caller they are a map of its own that starts as the base: a call touches an entry,
inserts one or erases one, and what it answers is what it would answer on a plain map
(`Call.onEntries`). What is listed in the end, however, does not show how the calls
went. It is the difference between the base and the map as it is by then, with one
change for every key at which the two are different and none for any other
(`IsDifference`).
-/

namespace Cosign

/-! ## The change between two entries -/

namespace Change

/-- The change from one entry to another, either of which may be missing. There is none between
equals. -/
def between? : Option Entry → Option Entry → Option Change
  | none, none => none
  | none, some current => some (created current)
  | some previous, none => some (deleted previous)
  | some previous, some current =>
    if previous = current then none else some (updated previous current)

/-- A change is determined by the entries before and after it. -/
theorem ext_of_entries {a b : Change} (hprevious : a.previous? = b.previous?)
    (hcurrent : a.current? = b.current?) : a = b := by
  cases a <;> cases b <;> simp_all [previous?, current?]

theorem between?_eq_some_iff {before after : Option Entry} {change : Change} :
    between? before after = some change ↔
      change.previous? = before ∧ change.current? = after ∧ before ≠ after := by
  constructor
  · intro h
    cases before with
    | none =>
        cases after with
        | none => cases h
        | some current =>
            cases h
            exact ⟨rfl, rfl, nofun⟩
    | some previous =>
        cases after with
        | none =>
            cases h
            exact ⟨rfl, rfl, nofun⟩
        | some current =>
            simp only [between?] at h
            split at h
            · cases h
            · next hne =>
              cases h
              exact ⟨rfl, rfl, fun heq => hne (Option.some.inj heq)⟩
  · rintro ⟨rfl, rfl, hne⟩
    cases change with
    | created current | deleted previous => rfl
    | updated previous current => exact if_neg fun heq => hne (congrArg some heq)

end Change

namespace Changes

/-! ## Calls -/

inductive Call where
  /-- Hands the entry at a key out to be changed. -/
  | touch (key : Key) (change : Entry → Entry)
  | insert (key : Key) (entry : Entry)
  | erase (key : Key)

inductive Answer where
  /-- The entry that was handed out, as it has been changed, if there was one. -/
  | touched (found : Option Entry)
  | inserted
  | erased (entry : Entry)
  | failed (error : LedgerError)

/-- What a call on changes of `base` answers, and the changes after it. -/
def call (base : Key → Option Entry) (changes : Changes) : Call → Answer × Changes
  | .touch key change =>
    let changed := changes.modify key (base key) change
    (.touched ((changed.get? key).bind Change.current?), changed)
  | .insert key entry =>
    match changes.insert key (base key) entry with
    | (.ok (), changed) => (.inserted, changed)
    | (.error error, left) => (.failed error, left)
  | .erase key =>
    match changes.erase key (base key) with
    | (.ok entry, changed) => (.erased entry, changed)
    | (.error error, left) => (.failed error, left)

/-- What a call on a plain map of entries answers, and the map after it. -/
def Call.onEntries (entries : Key → Option Entry) : Call → Answer × (Key → Option Entry)
  | touch key change =>
    let found := (entries key).map change
    (.touched found, Function.update entries key found)
  | insert key entry =>
    match entries key with
    | some _ => (.failed (.entryExists key), entries)
    | none => (.inserted, Function.update entries key (some entry))
  | erase key =>
    match entries key with
    | some entry => (.erased entry, Function.update entries key none)
    | none => (.failed (.entryNotFound key), entries)

/-- The answers to calls made one after the other, and what they leave. -/
def callAll {σ : Type} (step : σ → Call → Answer × σ) : σ → List Call → List Answer × σ
  | state, [] => ([], state)
  | state, call :: calls =>
    let (answer, next) := step state call
    let (answers, last) := callAll step next calls
    (answer :: answers, last)

/-! ## What the changes show -/

/-- A touched key has a change, unless it shows nothing. -/
theorem current?_get?_modify (changes : Changes) (key : Key) (base : Option Entry)
    (change : Entry → Entry) :
    ((changes.modify key base change).get? key).bind Change.current? =
      (changes.find? key base).map change := by
  unfold Changes.modify find?
  cases hknown : changes.get? key with
  | some known => simp [get?_record, Change.current?_modify]
  | none =>
      cases base with
      | some entry => simp [get?_record, Change.current?]
      | none => simp [hknown]

/-- Changes of `base` that show the entries of a plain map. -/
structure Shows (base : Key → Option Entry) (changes : Changes) (entries : Key → Option Entry) :
    Prop where
  isOver : changes.IsOver base
  find?_eq : ∀ key, changes.find? key (base key) = entries key

namespace Shows

variable {base entries : Key → Option Entry} {changes changed : Changes} {key : Key}

theorem empty (base : Key → Option Entry) : Shows base .empty base where
  isOver := .empty base
  find?_eq key := by simp [find?, get?, Changes.empty]

/-- Where just one key shows another entry, the map is updated at that key. -/
theorem update (h : Shows base changes entries) (hover : changed.IsOver base) {found : Option Entry}
    (hkey : changed.find? key (base key) = found)
    (hothers : ∀ other, other ≠ key →
      changed.find? other (base other) = changes.find? other (base other)) :
    Shows base changed (Function.update entries key found) where
  isOver := hover
  find?_eq other := by
    by_cases hother : other = key
    · subst hother
      rw [hkey, Function.update_self]
    · rw [hothers other hother, h.find?_eq, Function.update_of_ne hother]

/-- One call is answered alike, and what it leaves shows the same. -/
theorem call (h : Shows base changes entries) (call : Call) :
    (changes.call base call).1 = (call.onEntries entries).1 ∧
      Shows base (changes.call base call).2 (call.onEntries entries).2 := by
  cases call with
  | touch key change =>
      have hshown := h.find?_eq key
      refine ⟨?_, h.update (h.isOver.modify key change) ?_ fun other hother => ?_⟩
      · simp only [Changes.call, Call.onEntries]
        rw [current?_get?_modify, hshown]
      · rw [find?_modify, hshown]
      · exact find?_modify_of_ne _ hother _ _ _
  | insert key entry =>
      have hshown := h.find?_eq key
      simp only [Changes.call, Call.onEntries]
      cases hentry : entries key with
      | some old =>
          rw [insert_of_find?_eq_some (hshown.trans hentry)]
          exact ⟨rfl, h⟩
      | none =>
          obtain ⟨change, hinsert, hcurrent⟩ :=
            insert_of_find?_eq_none (hshown.trans hentry) entry
          have hover := h.isOver.insert key entry
          rw [hinsert] at hover ⊢
          refine ⟨rfl, h.update hover ?_ fun other hother => ?_⟩
          · rw [find?_record, hcurrent]
          · exact find?_record_of_ne _ hother _ _
  | erase key =>
      have hshown := h.find?_eq key
      simp only [Changes.call, Call.onEntries]
      cases hentry : entries key with
      | some entry =>
          obtain ⟨changed, herase, hkey, hothers⟩ :=
            erase_of_find?_eq_some h.isOver (hshown.trans hentry)
          have hover := h.isOver.erase key
          rw [herase] at hover ⊢
          exact ⟨rfl, h.update hover hkey hothers⟩
      | none =>
          rw [erase_of_find?_eq_none (hshown.trans hentry)]
          exact ⟨rfl, h⟩

/-- So are any number of calls. -/
theorem callAll (h : Shows base changes entries) (calls : List Call) :
    (Changes.callAll (Changes.call base) changes calls).1 =
        (Changes.callAll Call.onEntries entries calls).1 ∧
      Shows base (Changes.callAll (Changes.call base) changes calls).2
        (Changes.callAll Call.onEntries entries calls).2 := by
  induction calls generalizing changes entries with
  | nil => exact ⟨rfl, h⟩
  | cons call calls ih =>
      obtain ⟨hanswer, hafter⟩ := h.call call
      obtain ⟨hanswers, hlast⟩ := ih hafter
      exact ⟨congrArg₂ List.cons hanswer hanswers, hlast⟩

end Shows

/-! ## What is listed -/

/-- The listed changes are those between the base and the entries, one for each key at which the two
are different, in the order of keys. -/
structure IsDifference (base entries : Key → Option Entry) (changes : Changes) : Prop where
  ascending : (changes.toList.map Prod.fst).Pairwise (· < ·)
  mem_iff : ∀ key change,
    (key, change) ∈ changes.toList ↔ Change.between? (base key) (entries key) = some change
  finite : { key | entries key ≠ base key }.Finite
  size_eq : changes.size = { key | entries key ≠ base key }.ncard
  isEmpty_iff : changes.isEmpty = true ↔ entries = base

theorem ascending_toList (changes : Changes) : (changes.toList.map Prod.fst).Pairwise (· < ·) := by
  rw [List.pairwise_map]
  exact changes.recorded.ordered_keys_toList.sublist List.filter_sublist

/-- A key is listed with the change from the base's entry to the one that is shown. -/
theorem Shows.mem_toList {base entries : Key → Option Entry} {changes : Changes}
    (h : Shows base changes entries) {key : Key} {change : Change} :
    (key, change) ∈ changes.toList ↔
      Change.between? (base key) (entries key) = some change := by
  rw [Draft.mem_toList, Change.between?_eq_some_iff, ← h.find?_eq key, find?]
  cases hknown : changes.get? key with
  | none => simp
  | some known =>
      have hprevious := h.isOver key known hknown
      simp only [Option.some.injEq, ← hprevious]
      constructor
      · rintro ⟨rfl, hbusy⟩
        exact ⟨rfl, rfl, by simpa [Change.isIdle] using hbusy⟩
      · rintro ⟨hsame, hcurrent, hne⟩
        obtain rfl := Change.ext_of_entries hsame hcurrent
        exact ⟨rfl, by simpa [Change.isIdle] using hne⟩

theorem Shows.mem_keys_toList {base entries : Key → Option Entry} {changes : Changes}
    (h : Shows base changes entries) {key : Key} :
    key ∈ changes.toList.map Prod.fst ↔ entries key ≠ base key := by
  constructor
  · intro hmem
    obtain ⟨⟨_, change⟩, hlisted, rfl⟩ := List.mem_map.1 hmem
    exact (Change.between?_eq_some_iff.1 (h.mem_toList.1 hlisted)).2.2.symm
  · intro hne
    have hchange : ∃ change, Change.between? (base key) (entries key) = some change := by
      cases hbase : base key <;> cases hentry : entries key <;>
        simp_all [Change.between?, eq_comm]
    obtain ⟨change, hchange⟩ := hchange
    exact List.mem_map.2 ⟨(key, change), h.mem_toList.2 hchange, rfl⟩

theorem Shows.isDifference {base entries : Key → Option Entry} {changes : Changes}
    (h : Shows base changes entries) : IsDifference base entries changes := by
  have hkeys : { key | entries key ≠ base key } =
      ((changes.toList.map Prod.fst).toFinset : Set Key) := by
    ext key
    rw [Finset.mem_coe, List.mem_toFinset, h.mem_keys_toList]
    rfl
  constructor
  · exact ascending_toList changes
  · exact fun key change => h.mem_toList
  · rw [hkeys]
    exact Finset.finite_toSet _
  · rw [hkeys, Set.ncard_coe_finset, List.toFinset_card_of_nodup (Draft.nodup_toList changes),
      List.length_map, size]
  · rw [isEmpty, size, beq_iff_eq, List.length_eq_zero_iff]
    constructor
    · intro hnone
      funext key
      by_contra hne
      have hmem := h.mem_keys_toList.2 hne
      simp [hnone] at hmem
    · rintro rfl
      rw [List.eq_nil_iff_forall_not_mem]
      rintro ⟨key, change⟩ hmem
      exact h.mem_keys_toList.1 (List.mem_map_of_mem hmem) rfl

/-- A call that fails leaves the changes as they are. -/
theorem call_eq_of_failed {base : Key → Option Entry} {changes : Changes} {call : Call}
    {error : LedgerError} (h : (changes.call base call).1 = .failed error) :
    (changes.call base call).2 = changes := by
  cases call with
  | touch key change => cases h
  | insert key entry =>
      simp only [Changes.call] at h ⊢
      split
      · next changed hinsert =>
        rw [hinsert] at h
        cases h
      · next error left hinsert =>
        have hleft := insert_of_error (congrArg Prod.fst hinsert)
        rwa [hinsert] at hleft
  | erase key =>
      simp only [Changes.call] at h ⊢
      split
      · next entry changed herase =>
        rw [herase] at h
        cases h
      · next error left herase =>
        have hleft := erase_of_error (congrArg Prod.fst herase)
        rwa [herase] at hleft

/-- However the calls on changes go, they are answered as on a plain map that starts as the base. What
is listed after them is the difference of that map from the base, and a call that fails leaves the
changes as they are. -/
theorem listed_difference (base : Key → Option Entry) (calls : List Call) :
    let changes := (callAll (call base) .empty calls).2
    let entries := (callAll Call.onEntries base calls).2
    (callAll (call base) .empty calls).1 = (callAll Call.onEntries base calls).1 ∧
      IsDifference base entries changes ∧
      ∀ next, (changes.call base next).1 = (next.onEntries entries).1 ∧
        ∀ error, (changes.call base next).1 = .failed error → (changes.call base next).2 = changes := by
  intro changes entries
  obtain ⟨hanswers, hshows⟩ := (Shows.empty base).callAll calls
  exact ⟨hanswers, hshows.isDifference, fun next =>
    ⟨(hshows.call next).1, fun error herror => call_eq_of_failed herror⟩⟩

/-- An entry that is put back as it was is no change. It is in the way of another all the same. -/
theorem listed_difference_restored :
    let key : Key := Octets.zero 32
    let entry : Entry := .accountRoot { account := .zero, balance := 5 }
    let base : Key → Option Entry := Function.update (fun _ => none) key (some entry)
    let calls : List Call := [.touch key (.mapAccountRoot fun root => { root with balance := 6 }),
      .erase key, .insert key entry]
    let changes := (callAll (call base) .empty calls).2
    (changes.call base (.insert key entry)).1 = .failed (.entryExists key) ∧
      (changes.call base (.insert key entry)).2 = changes ∧
      IsDifference base (callAll Call.onEntries base calls).2 changes := by
  intro key entry base calls changes
  obtain ⟨-, hdifference, hnext⟩ := listed_difference base calls
  obtain ⟨hanswer, hfailed⟩ := hnext (.insert key entry)
  have hexists : (changes.call base (.insert key entry)).1 = .failed (.entryExists key) := by
    rw [hanswer]
    simp [calls, base, callAll, Call.onEntries]
  exact ⟨hexists, hfailed _ hexists, hdifference⟩

end Changes

end Cosign
