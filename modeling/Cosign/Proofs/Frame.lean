-- SUMMARY: An application touches entries of its sender only, and of these no more than it has to.
import Cosign.Proofs.Commutation
import Cosign.Proofs.Profile

/-!
# Frames

Whatever a ledger holds, an application stays with its sender's family of keys, and
even there it leaves most things as they are (`System.apply_framed`). The sender's
root stays but for its owner count. A page keeps the directory and the owner that
it names as long as it exists; to get others it has to be erased and created anew,
and created pages are of the sender's directory. To say so, a run keeps a record of
the keys that it creates and erases (`Procedure.turnover`).
-/

namespace Cosign

/-- What a run does to a key that does more than change an entry. -/
inductive Turnover where
  | created (key : Key)
  | erased (key : Key)

namespace Procedure

variable {ε α σ : Type} [View σ]

/-- The keys that a run creates and erases, in the order in which it does. -/
def turnover : Procedure ε α → σ → List Turnover
  | done _, _ => []
  | fail _, _ => []
  | terms next, view => (next (View.terms view)).turnover view
  | read key next, view => (next (View.find? view key)).turnover view
  | modify key change next, view =>
    (next (View.find? view key)).turnover (View.modify view key change)
  | insert key entry next, view =>
    match View.insert view key entry with
    | (.ok (), changed) => .created key :: (next (.ok ())).turnover changed
    | (.error error, same) => (next (.error error)).turnover same
  | erase key next, view =>
    match View.erase view key with
    | (.ok entry, changed) => .erased key :: (next (.ok entry)).turnover changed
    | (.error error, same) => (next (.error error)).turnover same

end Procedure

/-! ## Labels -/

/-- The directory and the owner that an entry names, if it is a page. -/
def Entry.label? (entry : Entry) : Option (Key × Option AccountId) :=
  entry.directoryPage?.map fun page => (page.root, page.owner)

/-- Pages are inserted with a certain label only, and no page gets another one. -/
def Access.Labelled (label : Key × Option AccountId) : Access → Prop
  | modify _ change => ∀ entry, (change entry).label? = entry.label?
  | insert _ entry => ∀ given, entry.label? = some given → given = label
  | read _ | erase _ => True

theorem Directory.Proper.labelled {root : Key} {owner : Option AccountId} {access : Access}
    (h : Proper root owner access) : access.Labelled (root, owner) := by
  cases h with
  | read | erase => trivial
  | modify index hrelinks =>
      intro entry
      cases entry with
      | directoryPage page => exact congrArg some (Prod.ext (hrelinks page).1 (hrelinks page).2)
      | accountRoot | signerList => rfl
  | insert index hroot howner =>
      rintro given ⟨⟩
      exact Prod.ext hroot howner

/-- An account labels pages as its own. -/
theorem SignerList.Proper.labelled {owner : AccountId} {access : Access}
    (h : Proper owner access) : access.Labelled (ownerDirectoryKey owner, some owner) := by
  cases h with
  | directory h => exact h.labelled
  | readRoot | readList | eraseList => trivial
  | moveCount delta =>
      intro entry
      cases entry <;> rfl
  | insertList list => exact nofun

/-- Where the label of a page comes from: it is that of the page that was there before, or the one that
a run gives to the pages that it creates, for which the key has to be free. -/
inductive LabelSource (label : Key × Option AccountId) (key : Key) (before : Option Entry)
    (turnover : List Turnover) (given : Key × Option AccountId) : Prop
  | kept (hkept : .created key ∉ turnover) (hbefore : before.bind Entry.label? = some given)
  | created (hcreated : .created key ∈ turnover) (hgiven : given = label)
      (hfree : before = none ∨ [.erased key, .created key].Sublist turnover)

namespace LabelSource

variable {label given : Key × Option AccountId} {key other : Key} {before : Option Entry}
  {turnover : List Turnover}

/-- As far as labels go it does not matter how an entry is changed that keeps its label. -/
theorem congr {after : Option Entry} (h : LabelSource label key after turnover given)
    (hlabel : after.bind Entry.label? = before.bind Entry.label?)
    (hnone : after = none ↔ before = none) : LabelSource label key before turnover given := by
  cases h with
  | kept hkept hafter => exact .kept hkept (hlabel.symm.trans hafter)
  | created hcreated hgiven hfree => exact .created hcreated hgiven (hfree.imp_left hnone.1)

/-- Turnover of another key makes no difference. -/
theorem cons {step : Turnover} (h : LabelSource label key before turnover given)
    (hother : step ≠ .created key) : LabelSource label key before (step :: turnover) given := by
  cases h with
  | kept hkept hbefore =>
      refine .kept (fun hmem => ?_) hbefore
      rcases List.mem_cons.1 hmem with hstep | hmem
      · exact hother hstep.symm
      · exact hkept hmem
  | created hcreated hgiven hfree =>
      exact .created (List.mem_cons_of_mem _ hcreated) hgiven
        (hfree.imp_right fun hsublist => hsublist.cons step)

/-- A key that has been erased is free for another page. -/
theorem erase (h : LabelSource label key none turnover given) :
    LabelSource label key before (.erased key :: turnover) given := by
  cases h with
  | kept hkept hbefore => cases hbefore
  | created hcreated hgiven hfree =>
      refine .created (List.mem_cons_of_mem _ hcreated) hgiven (.inr ?_)
      exact (List.singleton_sublist.2 hcreated).cons_cons _

/-- A page that is created where there is nothing has the label of such pages. -/
theorem create {entry : Entry} (hentry : ∀ given, entry.label? = some given → given = label)
    (h : LabelSource label key (some entry) turnover given) :
    LabelSource label key none (.created key :: turnover) given := by
  refine .created List.mem_cons_self ?_ (.inl rfl)
  cases h with
  | kept hkept hbefore => exact hentry given hbefore
  | created hcreated hgiven hfree => exact hgiven

end LabelSource

/-- After a run that labels pages in one way only, every page has the label that it had or has been
created with that label. -/
theorem Procedure.Conforms.labelSource {ε α σ : Type} [View σ] [LawfulView σ]
    {label given : Key × Option AccountId} {F : ε → Prop} {p : Procedure ε α}
    (h : p.Conforms (Access.Labelled label) F) (view : σ) {key : Key}
    (hafter : (View.find? (p.run view).2 key).bind Entry.label? = some given) :
    LabelSource label key (View.find? view key) (p.turnover view) given := by
  induction p generalizing view with
  | done | fail => exact .kept List.not_mem_nil hafter
  | terms next ih => exact ih _ (h _) view hafter
  | read other next ih => exact ih _ (h.2 _) view hafter
  | modify other change next ih =>
      refine (ih _ (h.2 _) _ hafter).congr ?_ ?_
      · rw [LawfulView.find?_modify]
        split
        · next hkey =>
          subst hkey
          cases View.find? view key with
          | none => rfl
          | some entry => exact h.1 entry
        · rfl
      · rw [LawfulView.find?_modify]
        split
        · next hkey =>
          subst hkey
          exact Option.map_eq_none_iff
        · rfl
  | insert other entry next ih =>
      cases hother : View.find? view other with
      | some old =>
          simp only [run, turnover, LawfulView.insert_of_some _ _ _ _ hother] at hafter ⊢
          exact ih _ (h.2 _) view hafter
      | none =>
          obtain ⟨changed, hinsert, -, hchanged⟩ :=
            LawfulView.insert_of_none view other entry hother
          simp only [run, turnover, hinsert] at hafter ⊢
          have hsource := ih _ (h.2 _) changed hafter
          rw [hchanged] at hsource
          split at hsource
          · next hkey =>
            subst hkey
            rw [hother]
            exact hsource.create h.1
          · next hne => exact hsource.cons fun heq => hne (Turnover.created.inj heq).symm
  | erase other next ih =>
      cases hother : View.find? view other with
      | none =>
          simp only [run, turnover, LawfulView.erase_of_none _ _ hother] at hafter ⊢
          exact ih _ (h.2 _) view hafter
      | some entry =>
          obtain ⟨changed, herase, -, hchanged⟩ := LawfulView.erase_of_some view other entry hother
          simp only [run, turnover, herase] at hafter ⊢
          have hsource := ih _ (h.2 _) changed hafter
          rw [hchanged] at hsource
          split at hsource
          · next hkey =>
            subst hkey
            exact hsource.erase
          · exact hsource.cons (by simp)

/-! ## Transactions -/

/-- How far the change from one ledger to another may go on behalf of an account. -/
structure Framed (id : AccountId) (before : Ledger) (turnover : List Turnover) (after : Ledger) :
    Prop where
  /-- Entries that can be none of the account's stay. -/
  elsewhere : ∀ key ∉ family id, View.find? after key = View.find? before key
  /-- A root stays, and nothing of it changes but the owner count. -/
  root : ∀ root, View.find? before (Slot.account id).key = some (.accountRoot root) →
    ∃ count, View.find? after (Slot.account id).key =
      some (.accountRoot { root with ownerCount := count })
  /-- A page keeps its directory and its owner unless it is erased and then created anew. -/
  kept : ∀ key page page', View.find? before key = some (.directoryPage page) →
    View.find? after key = some (.directoryPage page') →
      (page'.root = page.root ∧ page'.owner = page.owner) ∨
        [.erased key, .created key].Sublist turnover
  /-- What is a page and was none before has been created. -/
  fresh : ∀ key page', View.find? after key = some (.directoryPage page') →
    (∀ page, View.find? before key ≠ some (.directoryPage page)) → .created key ∈ turnover
  /-- A created page is one of the account's own directory. -/
  created : ∀ key page', .created key ∈ turnover →
    View.find? after key = some (.directoryPage page') →
      page'.root = ownerDirectoryKey id ∧ page'.owner = some id

/-- Where nothing is changed there is nothing to allow for. -/
theorem Framed.refl (id : AccountId) (ledger : Ledger) : Framed id ledger [] ledger where
  elsewhere _ _ := rfl
  root root hroot := ⟨root.ownerCount, hroot⟩
  kept key page page' hbefore hafter := by
    cases hbefore.symm.trans hafter
    exact .inl ⟨rfl, rfl⟩
  fresh key page' hafter hnone := absurd hafter (hnone page')
  created key page' hcreated := nomatch hcreated

/-- If the labels of all pages have a source, the change goes no further than it may. -/
theorem Framed.of_labelSource {id : AccountId} {before after : Ledger} {turnover : List Turnover}
    (helsewhere : ∀ key ∉ family id, View.find? after key = View.find? before key)
    (hprofile : View.profile? (View.contents after) id = View.profile? (View.contents before) id)
    (hsource : ∀ key given, (View.find? after key).bind Entry.label? = some given →
      LabelSource (ownerDirectoryKey id, some id) key (View.find? before key) turnover given) :
    Framed id before turnover after := by
  have hpage : ∀ key page', View.find? after key = some (.directoryPage page') →
      LabelSource (ownerDirectoryKey id, some id) key (View.find? before key) turnover
        (page'.root, page'.owner) := by
    intro key page' hafter
    apply hsource
    rw [hafter]
    rfl
  constructor
  · exact helsewhere
  · exact fun root hroot => View.exists_count_of_profile? hprofile hroot
  · intro key page page' hbefore hafter
    cases hpage key page' hafter with
    | kept hkept hlabel =>
        rw [hbefore] at hlabel
        obtain ⟨hroot, howner⟩ := Prod.ext_iff.1 (Option.some.inj hlabel)
        exact .inl ⟨hroot.symm, howner.symm⟩
    | created hcreated hgiven hfree =>
        rw [hbefore] at hfree
        exact .inr (hfree.resolve_left nofun)
  · intro key page' hafter hnone
    cases hpage key page' hafter with
    | kept hkept hlabel =>
        obtain ⟨entry, hentry, hlabel⟩ := Option.bind_eq_some_iff.1 hlabel
        obtain ⟨page, hpage, -⟩ := Option.map_eq_some_iff.1 hlabel
        cases entry <;> cases hpage
        exact absurd hentry (hnone page)
    | created hcreated => exact hcreated
  · intro key page' hcreated hafter
    cases hpage key page' hafter with
    | kept hkept => exact absurd hcreated hkept
    | created hcreated hgiven => exact Prod.ext_iff.1 hgiven

/-- The keys that the application of a transaction creates and erases. Those of a draft that is
discarded do not count. -/
def Transaction.turnover (tx : Transaction) (ledger : Ledger) : List Turnover :=
  match (tx.apply ledger).1.effect? with
  | some _ => tx.enact.turnover (Draft.ofLedger ledger)
  | none => []

/-- A transaction goes no further than it may on behalf of its account. -/
theorem Transaction.framed_apply (tx : Transaction) (ledger : Ledger) :
    Framed tx.account ledger (tx.turnover ledger) (tx.apply ledger).2 := by
  unfold Transaction.turnover
  rcases hrun : tx.enact.run (View.contents ledger) with ⟨rejection | effect, after⟩
  · rw [apply_error hrun]
    exact .refl _ _
  · obtain ⟨changes, changed, happly, rfl⟩ := apply_ok hrun
    obtain ⟨request, hpreflight⟩ : ∃ request, tx.preflight = .ok request := by
      rcases run_enact_eq_ok hrun with ⟨payload, hpreflight, -⟩ | ⟨hpreflight, -⟩
      · exact ⟨_, hpreflight⟩
      · exact ⟨_, hpreflight⟩
    -- The draft shows at first what the ledger shows, and in the end what it is committed to.
    have hstart := Draft.contents_ofLedger ledger
    have hend : View.contents (tx.enact.run (Draft.ofLedger ledger)).2 = View.contents changed := by
      rw [(tx.enact.run_contents _).2, hstart, hrun]
    rw [happly]
    refine .of_labelSource ?_ (profile?_run hrun tx.account) ?_
    · intro key hkey
      have hmet : key ∉ tx.enact.met ledger := fun hmet =>
        hkey (tx.within_enact.met_subset ledger key hmet)
      have hframe := find?_apply_of_not_met hmet
      rwa [happly] at hframe
    · intro key given hgiven
      have hfirst : View.find? (Draft.ofLedger ledger) key = View.find? ledger key :=
        congrFun (congrArg Contents.entries hstart) key
      have hlast : View.find? (tx.enact.run (Draft.ofLedger ledger)).2 key =
          View.find? changed key := congrFun (congrArg Contents.entries hend) key
      rw [← hlast] at hgiven
      rw [← hfirst]
      have hlabelled := (conforms_enact hpreflight).mono fun _ => SignerList.Proper.labelled
      exact hlabelled.labelSource _ hgiven

/-! ## Systems -/

namespace System

/-- What is created and erased when the service is given a transaction. -/
def turnover (system : System) (tx : Transaction) : List Turnover :=
  match system.service.halted? with
  | some _ => []
  | none => tx.turnover system.ledger

/-- Whatever its ledger holds and whatever the service has been through, a system that is given a
transaction touches nothing but its sender's own entries. -/
theorem apply_framed (system : System) (tx : Transaction) :
    Framed tx.account system.ledger (system.turnover tx) (system.apply tx).2.ledger := by
  unfold turnover
  cases hhalted : system.service.halted? with
  | some halted =>
      rw [apply_of_halted hhalted]
      exact .refl _ _
  | none =>
      rw [apply_of_ready hhalted]
      exact tx.framed_apply system.ledger

end System

end Cosign
