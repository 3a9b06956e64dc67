-- SUMMARY: Insertions and removals do not depend on which directory a page says that it belongs to.
import Cosign.Proofs.Directory.Calls

/-!
# Labels of pages

Every page names the root of its directory. Insertions and removals never look at that
label, copy it where they change a page, and give their own root to a page that they
create. So on contents whose pages have all been given one label they run as they do on
the contents themselves, and what they leave differs by the labels alone
(`Blind.run_mapEntries`). What is known about directories whose pages are labelled as they
should be carries over in this way to all others.
-/

namespace Cosign

/-- The contents with every entry changed, depending on its key. -/
def Contents.mapEntries (f : Key → Entry → Entry) (contents : Contents) : Contents :=
  { contents with entries := fun key => (contents.entries key).map (f key) }

theorem Contents.mapEntries_set (f : Key → Entry → Entry) (contents : Contents) (key : Key)
    (entry : Option Entry) :
    (contents.set key entry).mapEntries f = (contents.mapEntries f).set key (entry.map (f key)) := by
  ext1
  · rfl
  · funext other
    by_cases hother : other = key
    · subst hother
      simp [mapEntries]
    · rw [entries_set_of_ne _ hother]
      simp only [mapEntries]
      rw [entries_set_of_ne _ hother]

namespace Procedure

variable {ε α β : Type} {f : Key → Entry → Entry}

/-- Whatever the answers, the procedure goes on with a changed entry as with the entry itself.
What it does to an entry it does to the changed one, and what it puts in stays as it is when it
is changed. -/
def Blind (f : Key → Entry → Entry) : Procedure ε α → Prop
  | done _ | fail _ => True
  | terms next => ∀ answer, (next answer).Blind f
  | read key next => ∀ found, next (found.map (f key)) = next found ∧ (next found).Blind f
  | modify key change next =>
    (∀ entry, change (f key entry) = f key (change entry)) ∧
      ∀ found, next (found.map (f key)) = next found ∧ (next found).Blind f
  | insert key entry next => f key entry = entry ∧ ∀ answer, (next answer).Blind f
  | erase key next => ∀ answer, next (answer.map (f key)) = next answer ∧ (next answer).Blind f

namespace Blind

/-- On changed contents the procedure comes to the same result and leaves the same, changed. -/
theorem run_mapEntries {p : Procedure ε α} (h : p.Blind f) (contents : Contents) :
    p.run (contents.mapEntries f) = ((p.run contents).1, (p.run contents).2.mapEntries f) := by
  induction p generalizing contents with
  | done | fail => rfl
  | terms next ih => exact ih _ (h _) contents
  | read key next ih =>
      change (next ((contents.entries key).map (f key))).run _ = _
      rw [(h _).1]
      exact ih _ (h _).2 contents
  | modify key change next ih =>
      have hchange : ((contents.entries key).map (f key)).map change =
          ((contents.entries key).map change).map (f key) := by
        rw [Option.map_map, Option.map_map]
        exact congrArg (Option.map · _) (funext h.1)
      change (next ((contents.entries key).map (f key))).run
        ((contents.mapEntries f).set key (((contents.entries key).map (f key)).map change)) = _
      rw [(h.2 _).1, hchange, ← Contents.mapEntries_set]
      exact ih _ (h.2 _).2 _
  | insert key entry next ih =>
      have hentries : (contents.mapEntries f).entries key = (contents.entries key).map (f key) := rfl
      simp only [run, Contents.insert_eq, hentries]
      cases contents.entries key with
      | some old => exact ih _ (h.2 _) contents
      | none =>
          have hset := Contents.mapEntries_set f contents key (some entry)
          rw [Option.map_some, h.1] at hset
          simp only [Option.map_none]
          rw [← hset]
          exact ih _ (h.2 _) _
  | erase key next ih =>
      have hentries : (contents.mapEntries f).entries key = (contents.entries key).map (f key) := rfl
      simp only [run, Contents.erase_eq, hentries]
      cases contents.entries key with
      | none => exact ih _ (h _).2 contents
      | some entry =>
          have hnext : next (.ok (f key entry)) = next (.ok entry) := (h (.ok entry)).1
          simp only [Option.map_some]
          rw [hnext, ← Option.map_none (f key), ← Contents.mapEntries_set]
          exact ih _ (h _).2 _

theorem bind {p : Procedure ε α} {g : α → Procedure ε β} (hp : p.Blind f)
    (hg : ∀ value, (g value).Blind f) : (p >>= g).Blind f := by
  induction p with
  | done value => exact hg value
  | fail => trivial
  | terms next ih => exact fun answer => ih answer (hp answer)
  | read key next ih | erase key next ih =>
      exact fun answer => ⟨congrArg (·.bind g) (hp answer).1, ih answer (hp answer).2⟩
  | modify key change next ih =>
      exact ⟨hp.1, fun found => ⟨congrArg (·.bind g) (hp.2 found).1, ih found (hp.2 found).2⟩⟩
  | insert key entry next ih => exact ⟨hp.1, fun answer => ih answer (hp.2 answer)⟩

theorem insertNew {key : Key} {entry : Entry} (h : f key entry = entry) :
    (insertNew key entry).Blind f := by
  refine ⟨h, fun answer => ?_⟩
  cases answer <;> trivial

/-- The erased entry may be changed if nothing comes of it. -/
theorem remove_bind {key : Key} {p : Procedure LedgerError α} (hp : p.Blind f) :
    (remove key >>= fun _ => p).Blind f := by
  intro answer
  cases answer with
  | error error => exact ⟨rfl, trivial⟩
  | ok entry => exact ⟨rfl, hp⟩

end Blind

end Procedure

/-! ## Directories -/

/-- A page as one of the directory `root`. Other entries stay. -/
def Entry.relabel (root : Key) : Entry → Entry :=
  Entry.mapDirectoryPage fun page => { page with root }

namespace Directory

open Procedure (Blind)

/-- Entries stay as they are, or pages get the label `root`. -/
def Relabels (root : Key) (f : Key → Entry → Entry) : Prop :=
  ∀ key, f key = id ∨ f key = Entry.relabel root

variable {α : Type} {root key : Key} {f : Key → Entry → Entry} (hf : Relabels root f)
include hf

/-! ### Entries that are met -/

theorem Relabels.eq_of_page {β : Type} (next : Option Entry → β)
    (hlabel : ∀ page : DirectoryPage,
      next (some (.directoryPage { page with root })) = next (some (.directoryPage page)))
    (key : Key) (found : Option Entry) : next (found.map (f key)) = next found := by
  rcases hf key with h | h
  · rw [h, Option.map_id, id]
  · rw [h]
    cases found with
    | none => rfl
    | some entry =>
        cases entry with
        | directoryPage page => exact hlabel page
        | accountRoot | signerList => rfl

theorem Relabels.new_page (key : Key) {page : DirectoryPage} (h : page.root = root) :
    f key (.directoryPage page) = .directoryPage page := by
  subst h
  rcases hf key with h | h <;> rw [h] <;> rfl

theorem blind_find?_bind (next : Option Entry → Procedure LedgerError α)
    (hlabel : ∀ page : DirectoryPage,
      next (some (.directoryPage { page with root })) = next (some (.directoryPage page)))
    (hnext : ∀ found, (next found).Blind f) : (Procedure.find? key >>= next).Blind f :=
  fun found => ⟨hf.eq_of_page next hlabel key found, hnext found⟩

theorem blind_update_bind {change : DirectoryPage → DirectoryPage}
    {next : Option Entry → Procedure LedgerError α}
    (hchange : ∀ page : DirectoryPage, change { page with root } = { change page with root })
    (hlabel : ∀ page : DirectoryPage,
      next (some (.directoryPage { page with root })) = next (some (.directoryPage page)))
    (hnext : ∀ found, (next found).Blind f) :
    (Procedure.update key (Entry.mapDirectoryPage change) >>= next).Blind f := by
  refine ⟨fun entry => ?_, fun found => ⟨hf.eq_of_page next hlabel key found, hnext found⟩⟩
  rcases hf key with h | h
  · rw [h]
    rfl
  · rw [h]
    cases entry with
    | directoryPage page => exact congrArg Entry.directoryPage (hchange page)
    | accountRoot | signerList => rfl

/-! ### Operations -/

theorem blind_page_bind (index : UInt64) {g : DirectoryPage → Procedure LedgerError α}
    (hlabel : ∀ page : DirectoryPage, g { page with root } = g page)
    (hg : ∀ page, (g page).Blind f) : (page root index >>= g).Blind f := by
  refine blind_find?_bind hf (fun found => (Procedure.ofOption
    (.brokenDirectoryLink root index) (found.bind Entry.directoryPage?)).bind g) hlabel
    fun found => ?_
  cases found.bind Entry.directoryPage? with
  | none => trivial
  | some page => exact hg page

theorem blind_modifyPage (index : UInt64) {change : DirectoryPage → DirectoryPage}
    (hchange : ∀ page : DirectoryPage, change { page with root } = { change page with root }) :
    (modifyPage root index change).Blind f := by
  refine blind_update_bind hf hchange (fun _ => rfl) fun found => ?_
  cases found.bind Entry.directoryPage? <;> trivial

theorem blind_appendPage (owner : Option AccountId) (last fresh : UInt64) (key : Key) :
    (appendPage root owner last fresh key).Blind f := by
  refine .bind (blind_modifyPage hf last fun _ => rfl) fun _ => ?_
  refine .bind (blind_modifyPage hf 0 fun _ => rfl) fun _ => ?_
  exact .bind (.insertNew (hf.new_page _ rfl)) fun _ => trivial

theorem blind_insert (owner : Option AccountId) (key : Key) : (insert root owner key).Blind f := by
  intro terms
  refine blind_find?_bind hf _ (fun _ => rfl) fun found => ?_
  cases found with
  | none => exact .bind (.insertNew (hf.new_page _ rfl)) fun _ => trivial
  | some entry =>
      simp only
      cases entry.directoryPage? with
      | none => trivial
      | some first =>
          refine blind_page_bind hf first.previous (fun _ => rfl) fun tail => ?_
          split
          · exact .bind (blind_modifyPage hf _ fun _ => rfl) fun _ => trivial
          · split
            · exact blind_appendPage hf _ _ _ _
            · trivial

theorem blind_retireRoot (previous next : UInt64) (keepRoot : Bool) :
    (retireRoot root previous next keepRoot).Blind f := by
  have herase : (unless keepRoot do
      let _ ← Procedure.remove root : Procedure LedgerError Unit).Blind f := by
    cases keepRoot with
    | true => trivial
    | false => exact .remove_bind trivial
  unfold retireRoot
  split
  · exact herase
  · split
    · refine blind_page_bind hf previous (fun _ => rfl) fun other => ?_
      split
      · refine .remove_bind ?_
        exact .bind (blind_modifyPage hf 0 fun _ => rfl) fun _ => herase
      · trivial
    · trivial

theorem blind_retirePage (index previous next : UInt64) (keepRoot : Bool) :
    (retirePage root index previous next keepRoot).Blind f := by
  unfold retirePage
  by_cases hself : previous = index ∨ next = index
  · rw [if_pos hself]
    trivial
  · rw [if_neg hself]
    refine .bind (blind_modifyPage hf previous fun _ => rfl) fun _ => ?_
    refine .bind (blind_modifyPage hf next fun _ => rfl) fun _ => ?_
    refine .remove_bind ?_
    split
    · refine blind_find?_bind hf _ (fun _ => rfl) fun found => ?_
      split
      · split
        · exact .remove_bind trivial
        · trivial
      · trivial
    · trivial

theorem blind_remove (index : UInt64) (key : Key) (keepRoot : Bool) :
    (remove root index key keepRoot).Blind f := by
  refine blind_update_bind hf (fun _ => rfl) (fun _ => rfl) fun found => ?_
  split
  · trivial
  · split
    · trivial
    · split
      · split
        · exact blind_retireRoot hf _ _ _
        · exact blind_retirePage hf _ _ _ _
      · trivial

/-- The page that the next key goes to does not depend on labels. -/
theorem target?_mapEntries (contents : Contents) :
    target? (contents.mapEntries f) root = target? contents root := by
  have hpage : ∀ (key : Key) (found : Option Entry) (g : DirectoryPage → Option UInt64),
      (∀ page : DirectoryPage, g { page with root } = g page) →
        ((found.map (f key)).bind Entry.directoryPage?).bind g =
          (found.bind Entry.directoryPage?).bind g :=
    fun key found g hlabel =>
      hf.eq_of_page (fun found => (found.bind Entry.directoryPage?).bind g) hlabel key found
  have hfind : View.find? (contents.mapEntries f) root = (contents.entries root).map (f root) := rfl
  have hentry : View.find? contents root = contents.entries root := rfl
  unfold target?
  rw [hfind, hentry]
  cases contents.entries root with
  | none => rfl
  | some entry =>
      refine (hpage root (some entry) _ fun _ => rfl).trans ?_
      exact congrArg entry.directoryPage?.bind (funext fun first => hpage _ _ _ fun _ => rfl)

end Directory

end Cosign
