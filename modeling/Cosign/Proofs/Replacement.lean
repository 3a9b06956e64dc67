-- SUMMARY: Everything that storing a list does to an account whose directory is in order.
import Cosign.Proofs.OwnerCount
import Cosign.Proofs.TwoPages

/-!
# Replacement

An account is coherent if its list and its directory fit together: the directory is in
order, whatever else it lists, and it lists the key of the account's list once, on the page
that the list names. When such an account stores a list, any list it has goes first
(`Coherent.run_remove`), which makes room for the count and in the directory. Then the
balance has to cover the reserve for the new count, the directory has to have room, and the
list is stored on the page where its key went (`Coherent.run_store`). Nothing else can happen
and nothing else is changed (`Transaction.apply_replacement`).
-/

namespace Cosign

open Inventory (Apart)
open Directory (InOrder Linked placed)

/-- An account's root, its list if there is one, and its directory with the list's key on it. -/
structure Coherent (contents : Contents) (id : AccountId) (N : Set UInt64) (root : AccountRoot)
    (list? : Option SignerList) (pages : List UInt64) : Prop where
  root : contents.entries (Slot.account id).key = some (.accountRoot root)
  list : contents.entries (signersKey id) = list?.map Entry.signerList
  directory : InOrder (ownerDirectoryKey id) N contents pages
  own : (placed contents (ownerDirectoryKey id) pages).filter (·.1 = signersKey id) =
    (list?.map fun list => (signersKey id, list.page)).toList

/-- The units that an account has been charged for the list it has. -/
def SignerList.held : Option SignerList → UInt32
  | some list => list.units
  | none => 0

/-- A view after the key of an account's list, if it has one, has been taken out of its
directory. -/
def SignerList.unlist {σ : Type} [View σ] (id : AccountId) (list? : Option SignerList)
    (view : σ) : σ :=
  match list? with
  | some list => ((OwnerDirectory.remove id list.page (signersKey id)).run view).2
  | none => view

/-- Only the account's own root and list differ. -/
structure SameBut (id : AccountId) (contents contents' : Contents) : Prop where
  terms : contents'.terms = contents.terms
  entries : ∀ key, key ≠ (Slot.account id).key → key ≠ signersKey id →
    contents'.entries key = contents.entries key

namespace SameBut

variable {id : AccountId} {N : Set UInt64} {contents contents' : Contents}

theorem refl (id : AccountId) (contents : Contents) : SameBut id contents contents :=
  ⟨rfl, fun _ _ _ => rfl⟩

theorem trans {contents'' : Contents} (h : SameBut id contents contents')
    (h' : SameBut id contents' contents'') : SameBut id contents contents'' where
  terms := h'.terms.trans h.terms
  entries key hneroot hnelist :=
    (h'.entries key hneroot hnelist).trans (h.entries key hneroot hnelist)

theorem set_root (h : SameBut id contents contents') (entry : Option Entry) :
    SameBut id contents (contents'.set (Slot.account id).key entry) where
  terms := h.terms
  entries key hneroot hnelist :=
    (Contents.entries_set_of_ne _ hneroot _).trans (h.entries key hneroot hnelist)

theorem set_list (h : SameBut id contents contents') (entry : Option Entry) :
    SameBut id contents (contents'.set (signersKey id) entry) where
  terms := h.terms
  entries key hneroot hnelist :=
    (Contents.entries_set_of_ne _ hnelist _).trans (h.entries key hneroot hnelist)

theorem pages (h : SameBut id contents contents') (hapart : Apart id N) :
    ∀ number ∈ N, contents'.entries (Slot.page (ownerDirectoryKey id) number).key =
      contents.entries (Slot.page (ownerDirectoryKey id) number).key :=
  fun number hnumber =>
    h.entries _ (hapart.account number hnumber).symm (hapart.signers number hnumber).symm

end SameBut

/-! ## Removal -/

theorem filter_ne_eq_self {pairs : List (Key × UInt64)} {key : Key}
    (h : pairs.filter (·.1 = key) = []) : pairs.filter (·.1 ≠ key) = pairs := by
  have hnone := List.filter_eq_nil_iff.1 h
  exact List.filter_eq_self.2 fun pair hpair => by simpa using hnone pair hpair

/-- A list is removed from its page, the units it was charged are given back, and the other keys stay
where they are. -/
theorem SignerList.run_remove_of_linked {id : AccountId} {N : Set UInt64} {root : AccountRoot}
    {list : SignerList} {pages : List UInt64} {contents : Contents}
    (hroot : contents.entries (Slot.account id).key = some (.accountRoot root))
    (hlist : contents.entries (signersKey id) = some (.signerList list))
    (hdirectory : Linked (ownerDirectoryKey id) N contents pages)
    (hown : (placed contents (ownerDirectoryKey id) pages).filter (·.1 = signersKey id) =
      [(signersKey id, list.page)]) (hapart : Apart id N) :
    ∃ (count : UInt32) (pages' : List UInt64) (directory cleared : Contents),
      (OwnerDirectory.remove id list.page (signersKey id)).run contents = (.ok (), directory) ∧
        (remove id).run contents = (.ok list.units, cleared) ∧
        count.toNat = root.ownerCount.toNat - list.units.toNat ∧
        cleared.entries (Slot.account id).key =
          some (.accountRoot { root with ownerCount := count }) ∧
        cleared.entries (signersKey id) = none ∧
        (Linked (ownerDirectoryKey id) N cleared pages' ∧ pages' ⊆ pages) ∧
        placed cleared (ownerDirectoryKey id) pages' =
          (placed contents (ownerDirectoryKey id) pages).filter (·.1 ≠ signersKey id) ∧
        SameBut id directory cleared ∧
        Directory.SameOutside (ownerDirectoryKey id) N contents directory := by
  have hlisted : (signersKey id, list.page) ∈ placed contents (ownerDirectoryKey id) pages :=
    List.mem_of_mem_filter (hown ▸ List.mem_singleton_self _)
  obtain ⟨pages', directory, hrun, hlinked, hsubset, hplaced, hsame⟩ :=
    hdirectory.run_remove hapart.pages hlisted
  have hremove := run_remove_of_some (View.signerList?_of_entries hlist) hrun
    ((hsame.entries _ hapart.account).trans hroot) ((hsame.entries _ hapart.signers).trans hlist)
    hapart.signers_ne_account
  have hcleared := ((SameBut.refl id directory).set_root (some (.accountRoot
    (root.adjustOwnerCount (-Int64.ofNat list.units.toNat))))).set_list none
  have hpages := hcleared.pages hapart
  refine ⟨_, pages', directory, _, hrun, hremove, root.toNat_adjustOwnerCount_sub list.units,
    (Contents.entries_set_of_ne _ hapart.signers_ne_account.symm _).trans
      (Contents.entries_set_self _ _ _), Contents.entries_set_self _ _ _,
    ⟨hlinked.congr hpages, hsubset⟩, ?_, hcleared, hsame⟩
  have hgone : (placed directory (ownerDirectoryKey id) pages').filter (·.1 = signersKey id) =
      [] := by
    rw [hplaced, ← List.erase_filter, hown]
    simp
  calc
    _ = placed directory (ownerDirectoryKey id) pages' := hlinked.placed_congr hpages
    _ = (placed directory (ownerDirectoryKey id) pages').filter (·.1 ≠ signersKey id) :=
      (filter_ne_eq_self hgone).symm
    _ = ((placed contents (ownerDirectoryKey id) pages).filter
        (·.1 ≠ signersKey id)).erase (signersKey id, list.page) := by
      rw [hplaced, List.erase_filter]
    _ = _ := List.erase_of_not_mem (by simp)

/-! ## Coherent accounts -/

namespace Coherent

variable {id : AccountId} {N : Set UInt64} {root : AccountRoot} {list? : Option SignerList}
  {pages : List UInt64} {contents contents' : Contents}

/-- Over a directory in order, a root and a list that it goes with make up a coherent account. -/
theorem of_sameBut (list? : Option SignerList) (hapart : Apart id N)
    (hsame : SameBut id contents contents')
    (hdirectory : InOrder (ownerDirectoryKey id) N contents pages)
    (hroot : contents'.entries (Slot.account id).key = some (.accountRoot root))
    (hlist : contents'.entries (signersKey id) = list?.map Entry.signerList)
    (hown : (placed contents (ownerDirectoryKey id) pages).filter (·.1 = signersKey id) =
      (list?.map fun list => (signersKey id, list.page)).toList) :
    Coherent contents' id N root list? pages ∧
      placed contents' (ownerDirectoryKey id) pages =
        placed contents (ownerDirectoryKey id) pages := by
  have hplaced := hdirectory.linked.placed_congr (hsame.pages hapart)
  refine ⟨⟨hroot, hlist, hdirectory.congr (hsame.pages hapart) ?_, ?_⟩, hplaced⟩
  · rw [hsame.terms]
  · rw [hplaced, hown]

/-- The list, if there is one, is removed from its page, the units it was charged are given
back, and the other keys stay where they are. -/
theorem run_remove (h : Coherent contents id N root list? pages) (hapart : Apart id N) :
    ∃ count pages' cleared,
      (SignerList.remove id).run contents = (.ok (SignerList.held list?), cleared) ∧
        count.toNat = root.ownerCount.toNat - (SignerList.held list?).toNat ∧
        Coherent cleared id N { root with ownerCount := count } none pages' ∧
        placed cleared (ownerDirectoryKey id) pages' =
          (placed contents (ownerDirectoryKey id) pages).filter (·.1 ≠ signersKey id) ∧
        SameBut id (SignerList.unlist id list? contents) cleared ∧
        Directory.SameOutside (ownerDirectoryKey id) N contents
          (SignerList.unlist id list? contents) := by
  cases list? with
  | none =>
      refine ⟨root.ownerCount, pages, contents, ?_, rfl, h, ?_, .refl _ _, .refl _⟩
      · exact SignerList.run_remove_of_none (View.signerList?_of_entries h.list)
      · exact (filter_ne_eq_self h.own).symm
  | some list =>
      obtain ⟨count, pages', directory, cleared, hrun, hremove, hcount, hroot, hlist,
        ⟨hlinked, hsubset⟩, hplaced, hcleared, hsame⟩ :=
        SignerList.run_remove_of_linked h.root h.list h.directory.linked h.own hapart
      have hunlist : SignerList.unlist id (some list) contents = directory :=
        congrArg Prod.snd hrun
      have hterms : cleared.terms = contents.terms := hcleared.terms.trans hsame.terms
      rw [hunlist]
      refine ⟨count, pages', cleared, hremove, hcount, ⟨hroot, hlist, hlinked.inOrder ?_, ?_⟩,
        hplaced, hcleared, hsame⟩
      · intro number hnumber
        rw [hterms]
        exact h.directory.below number (hsubset hnumber)
      · rw [hplaced]
        simp

/-- The key goes to the same page whatever the account's root and list are. -/
theorem run_insert_of_sameBut (h : Coherent contents id N root list? pages) (hapart : Apart id N)
    (htarget : ∀ page, Directory.target? contents (ownerDirectoryKey id) = some page → page ∈ N)
    {other : Contents} (hsame : SameBut id other contents) :
    ((OwnerDirectory.insert id (signersKey id)).run other).1 =
        ((OwnerDirectory.insert id (signersKey id)).run contents).1 ∧
      SameBut id ((OwnerDirectory.insert id (signersKey id)).run other).2
        ((OwnerDirectory.insert id (signersKey id)).run contents).2 ∧
      Directory.SameOutside (ownerDirectoryKey id) N other
        ((OwnerDirectory.insert id (signersKey id)).run other).2 := by
  obtain ⟨hresult, hagree, helsewhere⟩ := h.directory.run_insert_of_agree hapart.zero htarget
    hsame.terms.symm (fun number hnumber => (hsame.pages hapart number hnumber).symm) (some id)
    (signersKey id)
  refine ⟨hresult, ⟨?_, fun key hneroot hnelist => ?_⟩, helsewhere⟩
  · calc
      _ = contents.terms := Procedure.terms_run (OwnerDirectory.insert id (signersKey id)) contents
      _ = other.terms := hsame.terms
      _ = _ := (Procedure.terms_run (OwnerDirectory.insert id (signersKey id)) other).symm
  · exact (hagree key (hsame.entries key hneroot hnelist).symm).symm

/-- A list is stored on the page that its key goes to, and its units are charged, unless the
directory has no room for the key. Where it goes, and whether it does, can be told without the
account's root and list. -/
theorem run_store (h : Coherent contents id N root none pages) (hapart : Apart id N)
    (htarget : ∀ page, Directory.target? contents (ownerDirectoryKey id) = some page → page ∈ N)
    {other : Contents} (hsame : SameBut id other contents) (payload : Payload)
    (accounting : Accounting) :
    (∃ page count pages' directory after,
      (OwnerDirectory.insert id (signersKey id)).run other = (.ok page, directory) ∧
        (SignerList.store id payload accounting).run contents = (.ok (page, count), after) ∧
        count.toNat = min (root.ownerCount.toNat +
          (accounting.units payload.signers.length).toNat) 4294967295 ∧
        Coherent after id N { root with ownerCount := count }
          (some { quorum := payload.quorum, signers := payload.signers, accounting, page }) pages' ∧
        placed after (ownerDirectoryKey id) pages' =
          placed contents (ownerDirectoryKey id) pages ++ [(signersKey id, page)] ∧
        SameBut id directory after ∧
        Directory.SameOutside (ownerDirectoryKey id) N other directory) ∨
      ∃ directory after,
        (OwnerDirectory.insert id (signersKey id)).run other =
          (.error (.directoryFull (ownerDirectoryKey id)), directory) ∧
        (SignerList.store id payload accounting).run contents =
          (.error (.claimed (.directoryFull id)), after) := by
  obtain ⟨hanswer, hrest, helsewhere⟩ := h.run_insert_of_sameBut hapart htarget hsame
  rcases h.directory.run_insert hapart.pages hapart.zero (some id) (signersKey id) htarget with
    ⟨page, pages', directory, hrun, hdirectory, hplaced, hkept⟩ | ⟨after, hfull⟩
  · have hroot := (hkept.entries _ hapart.account).trans h.root
    have hfree := (hkept.entries _ hapart.signers).trans h.list
    let list : SignerList :=
      { quorum := payload.quorum, signers := payload.signers, accounting, page }
    have hstore := SignerList.run_store hrun hfree hroot (rfl : list = _) hapart.signers_ne_account
    have hown : (placed directory (ownerDirectoryKey id) pages').filter (·.1 = signersKey id) =
        [(signersKey id, page)] := by
      rw [hplaced, List.filter_append, h.own]
      simp
    obtain ⟨hcoherent, hplaced'⟩ := of_sameBut (some list) hapart
      (((SameBut.refl id directory).set_list _).set_root _) hdirectory
      (Contents.entries_set_self _ _ _)
      ((Contents.entries_set_of_ne _ hapart.signers_ne_account _).trans
        (Contents.entries_set_self _ _ _)) hown
    have hrun : (OwnerDirectory.insert id (signersKey id)).run contents = (.ok page, directory) :=
      hrun
    rw [hrun] at hanswer hrest
    exact .inl ⟨page, _, pages', ((OwnerDirectory.insert id (signersKey id)).run other).2, _,
      Prod.ext hanswer rfl, hstore, root.toNat_adjustOwnerCount_add _, hcoherent,
      hplaced'.trans hplaced, (hrest.set_list _).set_root _, helsewhere⟩
  · have hfull : (OwnerDirectory.insert id (signersKey id)).run contents =
        (.error (.directoryFull (ownerDirectoryKey id)), after) := hfull
    rw [hfull] at hanswer
    exact .inr ⟨((OwnerDirectory.insert id (signersKey id)).run other).2, after,
      Prod.ext hanswer rfl, SignerList.run_store_of_full payload accounting hfull⟩

end Coherent

/-- The balance required, in numbers. -/
theorem SignerList.toNat_required (terms : Terms) (root : AccountRoot) (payload : Payload)
    {count : UInt32} (hcount : count.toNat = min 4294967295 (root.ownerCount.toNat +
      (terms.rules.accounting.units payload.signers.length).toNat)) :
    (required terms root payload).toNat = min 18446744073709551615
      (terms.fees.reserve.toNat + terms.fees.increment.toNat * count.toNat) := by
  unfold required Fees.accountReserve
  rw [Saturating.toNat_add64, Saturating.toNat_mul64, UInt32.toNat_toUInt64, Saturating.toNat_add32]
  rw [Nat.min_comm _ 4294967295, ← hcount]
  omega

/-! ## Transactions -/

/-- An account has stored a list: it is coherent with it, and its directory lists the given
keys. Everything but its root and its list is as the directory leaves it, which has written to
its pages only. -/
structure Stored (id : AccountId) (N : Set UInt64) (root : AccountRoot) (list : SignerList)
    (keys : List (Key × UInt64)) (before directory after : Contents) : Prop where
  account : ∃ pages, Coherent after id N root (some list) pages ∧
    placed after (ownerDirectoryKey id) pages = keys
  rest : SameBut id directory after
  elsewhere : Directory.SameOutside (ownerDirectoryKey id) N before directory

theorem SignerList.contents_unlist (id : AccountId) (list? : Option SignerList) (ledger : Ledger) :
    View.contents (unlist id list? ledger) = unlist id list? (View.contents ledger) := by
  cases list? with
  | none => rfl
  | some list =>
      exact ((OwnerDirectory.remove id list.page (signersKey id)).run_contents ledger).2

section

variable {tx : Transaction} {payload : Payload} {N : Set UInt64} {root : AccountRoot}
  {list? : Option SignerList} {pages : List UInt64}

/-- A success reports how many keys differ. -/
theorem Transaction.changes_eq {ledger after : Ledger} {effect : Effect} {changes : Nat}
    (h : tx.apply ledger = (.success effect changes, after)) :
    changes = (ledger.changedKeys after).length := by
  rw [apply_eq] at h
  rcases hrun : tx.enact.run ledger with ⟨rejection | effect', changed⟩
  · rw [hrun] at h
    cases congrArg (·.1.effect?) h
  · rw [hrun] at h
    cases h
    rfl

/-- Everything that becomes of storing a list for an account that is coherent. -/
theorem Transaction.apply_replacement {ledger : Ledger}
    (hpreflight : tx.preflight = .ok ⟨tx.account, tx.priorBalance, .replace payload⟩)
    (h : Coherent (View.contents ledger) tx.account N root list? pages)
    (hapart : Apart tx.account N) (htarget : ∀ page, tx.target? ledger = some page → page ∈ N) :
    ∃ (count : UInt32) (required : UInt64),
      count.toNat = min 4294967295 (root.ownerCount.toNat - (SignerList.held list?).toNat +
        (ledger.terms.rules.accounting.units payload.signers.length).toNat) ∧
      required.toNat = min 18446744073709551615 (ledger.terms.fees.reserve.toNat +
        ledger.terms.fees.increment.toNat * count.toNat) ∧
      if tx.priorBalance < required then
        tx.apply ledger =
          (.rejected (.claimed (.insufficientReserve tx.priorBalance required)), ledger)
      else
        match (OwnerDirectory.insert tx.account (signersKey tx.account)).run
          (SignerList.unlist tx.account list? ledger) with
        | (.error cause, _) =>
          cause = .directoryFull (ownerDirectoryKey tx.account) ∧
            tx.apply ledger = (.rejected (.claimed (.directoryFull tx.account)), ledger)
        | (.ok page, directory) =>
          ∃ after,
            tx.apply ledger =
              (.success (.replaced ledger.terms.rules.accounting
                (ledger.terms.rules.accounting.units payload.signers.length)
                (SignerList.held list?) page count) (ledger.changedKeys after).length, after) ∧
            Stored tx.account N { root with ownerCount := count }
              { quorum := payload.quorum, signers := payload.signers,
                accounting := ledger.terms.rules.accounting, page }
              ((placed (View.contents ledger) (ownerDirectoryKey tx.account) pages).filter
                (·.1 ≠ signersKey tx.account) ++ [(signersKey tx.account, page)])
              (View.contents ledger) (View.contents directory) (View.contents after) := by
  rw [← tx.target?_contents] at htarget
  obtain ⟨left, pages', cleared, hremove, hleft, hcleared, hplaced, hsame, hunlist⟩ :=
    h.run_remove hapart
  have hterms : cleared.terms = ledger.terms := hsame.terms.trans hunlist.terms
  have hroot : View.account? cleared tx.account = some { root with ownerCount := left } :=
    View.account?_of_entries hcleared.root
  have hrun := (run_enact_of_preflight hpreflight (View.contents ledger)).trans
    (SignerList.run_replace hremove hroot)
  have hreserve : ¬ tx.priorBalance < SignerList.required cleared.terms
      { root with ownerCount := left } payload → tx.target? (View.contents ledger) =
        Directory.target? cleared (ownerDirectoryKey tx.account) :=
    Transaction.target?_eq hpreflight hremove hroot
  rw [hterms] at hrun hreserve
  have hcount : (Saturating.add32 left
      (ledger.terms.rules.accounting.units payload.signers.length)).toNat =
        min 4294967295 (root.ownerCount.toNat - (SignerList.held list?).toNat +
          (ledger.terms.rules.accounting.units payload.signers.length).toNat) := by
    rw [Saturating.toNat_add32, hleft, Nat.min_comm]
  refine ⟨_, SignerList.required ledger.terms { root with ownerCount := left } payload, hcount,
    SignerList.toNat_required _ _ _ (hleft ▸ hcount), ?_⟩
  split
  · next hpoor =>
    rw [if_pos hpoor] at hrun
    exact apply_error hrun
  · next hrich =>
    rw [if_neg hrich, Procedure.run_bind] at hrun
    have htarget' : ∀ page, Directory.target? cleared (ownerDirectoryKey tx.account) = some page →
        page ∈ N := hreserve hrich ▸ htarget
    have hdirectory := SignerList.contents_unlist tx.account list? ledger
    rcases hcleared.run_store hapart htarget' hsame payload ledger.terms.rules.accounting with
      ⟨page, count, pages'', _, after, hinsert, hstore, hcount', hcoherent, hkeys, hrest, houtside⟩ |
        ⟨_, after, hinsert, hstore⟩
    · rw [← hdirectory] at hinsert
      obtain ⟨directory, hrunInsert, rfl⟩ := Procedure.run_of_contents hinsert
      obtain rfl : count = Saturating.add32 left
          (ledger.terms.rules.accounting.units payload.signers.length) :=
        UInt32.toNat_inj.1 (hcount'.trans (Saturating.toNat_add32 _ _).symm)
      rw [hstore] at hrun
      obtain ⟨changes, changed, happly, rfl⟩ := apply_ok hrun
      obtain rfl := changes_eq happly
      rw [hrunInsert]
      exact ⟨changed, happly, ⟨pages'', hcoherent, hkeys.trans (congrArg (· ++ _) hplaced)⟩, hrest,
        hunlist.trans houtside⟩
    · rw [← hdirectory] at hinsert
      obtain ⟨directory, hrunInsert, -⟩ := Procedure.run_of_contents hinsert
      rw [hstore] at hrun
      rw [hrunInsert]
      exact ⟨rfl, apply_error hrun⟩

end

/-- With one key to a page, another key stands on the root page and a list of the former
accounting on the next, which goes with the list and is made anew. The balance is just what the
reserve asks for. -/
theorem Transaction.apply_replacement_upgraded :
    let ledger := TwoPages.ledger.setRules { multiSignReserve := true }
    let tx := Transaction.set .zero 2 [⟨.ofLow 2, 1⟩, ⟨.ofLow 1, 1⟩] 25000000
    ∃ directory after : Ledger,
      tx.apply ledger =
        (.success (.replaced .current 1 3 1 1) (ledger.changedKeys after).length, after) ∧
      Stored .zero { number | number ∈ [0, 1] }
        { account := .zero, balance := 100000000, ownerCount := 1 }
        { quorum := 2, signers := [⟨.ofLow 1, 1⟩, ⟨.ofLow 2, 1⟩], accounting := .current,
          page := 1 }
        [(Octets.zero 32, 0), (signersKey .zero, 1)]
        (View.contents ledger) (View.contents directory) (View.contents after) := by
  intro ledger tx
  let root : AccountRoot := { account := .zero, balance := 100000000, ownerCount := 3 }
  let list : SignerList :=
    { quorum := 1, signers := [⟨.ofLow 1, 1⟩], accounting := .legacy, page := 1 }
  let payload : Payload := ⟨2, [⟨.ofLow 1, 1⟩, ⟨.ofLow 2, 1⟩]⟩
  have hpages : TwoPages (View.contents ledger) .zero (Octets.zero 32) root list :=
    { TwoPages.twoPages_ledger with }
  obtain ⟨hterms, htarget, hanswer⟩ :
      ledger.terms = { rules := { multiSignReserve := true }, limits := { keysPerPage := 1 } } ∧
      tx.target? ledger = some 1 ∧
      ((OwnerDirectory.insert tx.account (signersKey tx.account)).run
        (SignerList.unlist tx.account (some list) ledger)).1 = .ok 1 := by
    decide +kernel
  have hpreflight : tx.preflight = .ok ⟨tx.account, tx.priorBalance, .replace payload⟩ := by
    decide
  have hcoherent : Coherent (View.contents ledger) tx.account { number | number ∈ [0, 1] } root
      (some list) [0, 1] := by
    refine ⟨hpages.root, hpages.list, .chain hpages.chain ?_, hpages.own⟩
    rw [show (View.contents ledger).terms = _ from hterms]
    simp
  obtain ⟨count, required, hcount, hrequired, hresult⟩ := apply_replacement hpreflight hcoherent
    hpages.keys.apart fun page hpage => by cases htarget.symm.trans hpage; simp
  rw [hterms] at hcount hrequired hresult
  obtain rfl : count = 1 := UInt32.toNat_inj.1 hcount
  obtain rfl : required = 25000000 := UInt64.toNat_inj.1 hrequired
  rw [if_neg (by decide)] at hresult
  rcases hinsert : (OwnerDirectory.insert tx.account (signersKey tx.account)).run
    (SignerList.unlist tx.account (some list) ledger) with ⟨answer, directory⟩
  rw [hinsert] at hanswer hresult
  obtain rfl : answer = .ok 1 := hanswer
  obtain ⟨after, happly, hstored⟩ := hresult
  have hplaced : (placed (View.contents ledger) (ownerDirectoryKey tx.account) [0, 1]).filter
      (·.1 ≠ signersKey tx.account) ++ [(signersKey tx.account, 1)] =
        [(Octets.zero 32, 0), (signersKey .zero, 1)] :=
    congrArg (· ++ [(signersKey .zero, (1 : UInt64))]) hpages.others
  exact ⟨directory, after, happly, hplaced ▸ hstored⟩

end Cosign
