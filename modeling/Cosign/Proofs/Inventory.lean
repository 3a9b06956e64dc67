-- SUMMARY: An account that owns other objects besides its list, and what operations make of all it owns.
import Cosign.Proofs.Directory.Calls
import Cosign.Proofs.Enactment
import Cosign.Proofs.System

/-!
# Inventories

Others may enter keys in an account's directory too. Then the directory has as many
pages as it takes, the list's key may be on any of them, and whoever has entered a
key holds on to the number of its page. An inventory is all of this as it is at one
moment: the account's root, its list and the sheets of its directory. Entering and
removing keys and applying transactions change an inventory in such a way that every
key, the list's included, stays on the page that it was put on (`Lists`).
-/

namespace Cosign

open Directory (Sheet Ring Insertion Removal Full Fits KeysApart SameOutside listing)

/-- The root of an account, its signer list and the sheets of its directory. -/
structure Inventory where
  root : AccountRoot
  list? : Option SignerList
  sheets : List Sheet

namespace Inventory

variable {id : AccountId} {N : Set UInt64} {live : List (Key × UInt64)} {inventory : Inventory}
  {contents contents' : Contents} {sheets sheets' : List Sheet}

/-! ## What a directory lists -/

/-- The directory lists the other keys with their pages, in their order, and the list's key once, on
the page that the list names. -/
structure Lists (id : AccountId) (live : List (Key × UInt64)) (inventory : Inventory) : Prop where
  others : (listing inventory.sheets).filter (fun pair => pair.1 ≠ signersKey id) = live
  own : (listing inventory.sheets).filter (fun pair => pair.1 = signersKey id) =
    (inventory.list?.map fun list => (signersKey id, list.page)).toList

namespace Lists

variable {root root' : AccountRoot} {list? : Option SignerList} {limits : Limits}
  {owner : Option AccountId} {key : Key} {number : UInt64}

theorem insert_other (h : Lists id live inventory)
    (hinsertion : Insertion limits owner key inventory.sheets number sheets')
    (hne : key ≠ signersKey id) :
    Lists id (live ++ [(key, number)]) { inventory with sheets := sheets' } where
  others := by
    simp only
    rw [hinsertion.listing_eq, List.filter_append, h.others]
    simp [hne]
  own := by
    simp only
    rw [hinsertion.listing_eq, List.filter_append, h.own]
    simp [hne]

theorem remove_other (h : Lists id live inventory) {keepRoot : Bool}
    (hremoval : Removal key number keepRoot inventory.sheets sheets')
    (hordered : Directory.Ordered inventory.sheets) (hne : key ≠ signersKey id) :
    Lists id (live.erase (key, number)) { inventory with sheets := sheets' } where
  others := by
    simp only
    rw [hremoval.listing_eq hordered, ← List.erase_filter, h.others]
  own := by
    simp only
    rw [hremoval.listing_eq hordered, ← List.erase_filter, List.erase_of_not_mem, h.own]
    simp [hne]

theorem insert_own (h : Lists id live ⟨root, none, sheets⟩) {list : SignerList}
    (hinsertion : Insertion limits owner (signersKey id) sheets list.page sheets') :
    Lists id live ⟨root', some list, sheets'⟩ where
  others := by
    simp only
    rw [hinsertion.listing_eq, List.filter_append, h.others]
    simp
  own := by
    simp only
    rw [hinsertion.listing_eq, List.filter_append, h.own]
    simp

theorem remove_own {list : SignerList} (h : Lists id live ⟨root, some list, sheets⟩)
    {keepRoot : Bool} (hremoval : Removal (signersKey id) list.page keepRoot sheets sheets')
    (hordered : Directory.Ordered sheets) : Lists id live ⟨root', none, sheets'⟩ where
  others := by
    simp only
    rw [hremoval.listing_eq hordered, ← List.erase_filter, List.erase_of_not_mem, h.others]
    simp
  own := by
    simp only
    rw [hremoval.listing_eq hordered, ← List.erase_filter, h.own]
    simp

/-- A live key is on the page it was put on. -/
theorem mem_of_mem_live (h : Lists id live inventory) (hmem : (key, number) ∈ live) :
    (key, number) ∈ listing inventory.sheets ∧ key ≠ signersKey id := by
  rw [← h.others, List.mem_filter] at hmem
  exact ⟨hmem.1, of_decide_eq_true hmem.2⟩

theorem mem_of_list? (h : Lists id live inventory) {list : SignerList}
    (hlist : inventory.list? = some list) :
    (signersKey id, list.page) ∈ listing inventory.sheets := by
  have hown : (signersKey id, list.page) ∈
      (listing inventory.sheets).filter (fun pair => pair.1 = signersKey id) := by
    rw [h.own, hlist]
    simp
  exact List.mem_of_mem_filter hown

end Lists

/-! ## Contents that hold an inventory -/

/-- The pages in use have numbers in `N`. Their keys, the account's and its list's are different. -/
structure Apart (id : AccountId) (N : Set UInt64) : Prop where
  zero : 0 ∈ N
  pages : KeysApart (ownerDirectoryKey id) N
  account : ∀ number ∈ N, (Slot.account id).key ≠ (Slot.page (ownerDirectoryKey id) number).key
  signers : ∀ number ∈ N, signersKey id ≠ (Slot.page (ownerDirectoryKey id) number).key
  signers_ne_account : signersKey id ≠ (Slot.account id).key

theorem Apart.of_nodup {pages : List UInt64} (hzero : 0 ∈ pages)
    (h : ((Slot.account id).key :: signersKey id ::
      pages.map fun number => (Slot.page (ownerDirectoryKey id) number).key).Nodup) :
    Apart id { number | number ∈ pages } := by
  rw [List.nodup_cons, List.nodup_cons, List.mem_cons, not_or] at h
  obtain ⟨⟨hne, haccount⟩, hsigners, hpages⟩ := h
  constructor
  · exact hzero
  · intro i hi j hj heq
    exact List.inj_on_of_nodup_map hpages hi hj heq
  · intro number hnumber heq
    exact haccount (heq ▸ List.mem_map_of_mem hnumber)
  · intro number hnumber heq
    exact hsigners (heq ▸ List.mem_map_of_mem hnumber)
  · exact Ne.symm hne

/-- The contents hold an inventory: the root and the list at the account's keys, and the sheets as the
ring of its directory. -/
structure Holds (contents : Contents) (id : AccountId) (N : Set UInt64)
    (inventory : Inventory) : Prop where
  root : contents.entries (Slot.account id).key = some (.accountRoot inventory.root)
  list : contents.entries (signersKey id) = inventory.list?.map Entry.signerList
  ring : Ring (ownerDirectoryKey id) N inventory.sheets contents
  fits : Fits contents.terms.limits inventory.sheets

namespace Holds

theorem account?_eq (h : Holds contents id N inventory) :
    View.account? contents id = some inventory.root :=
  View.account?_of_entries h.root

theorem signerList?_eq (h : Holds contents id N inventory) :
    View.signerList? contents id = inventory.list? :=
  View.signerList?_of_entries h.list

/-- Rules and fees do not matter. -/
theorem congr (h : Holds contents id N inventory) (hsame : contents'.entries = contents.entries)
    (hlimits : contents'.terms.limits = contents.terms.limits) :
    Holds contents' id N inventory where
  root := by rw [hsame, h.root]
  list := by rw [hsame, h.list]
  ring := h.ring.congr fun number _ => by rw [hsame]
  fits := hlimits ▸ h.fits

/-- The directory may be changed by itself. -/
theorem directory (h : Holds contents id N inventory) (hapart : Apart id N)
    (hsame : SameOutside (ownerDirectoryKey id) N contents contents')
    (hring : Ring (ownerDirectoryKey id) N sheets' contents')
    (hfits : Fits contents.terms.limits sheets') :
    Holds contents' id N { inventory with sheets := sheets' } where
  root := by rw [hsame.entries _ hapart.account, h.root]
  list := by rw [hsame.entries _ hapart.signers, h.list]
  ring := hring
  fits := by rwa [hsame.terms]

theorem set_root (h : Holds contents id N inventory) (hapart : Apart id N) (root : AccountRoot) :
    Holds (contents.set (Slot.account id).key (some (.accountRoot root))) id N
      { inventory with root } where
  root := Contents.entries_set_self _ _ _
  list := by rw [Contents.entries_set_of_ne _ hapart.signers_ne_account, h.list]
  ring := h.ring.congr fun number hnumber =>
    Contents.entries_set_of_ne _ (hapart.account number hnumber).symm _
  fits := h.fits

theorem set_list (h : Holds contents id N inventory) (hapart : Apart id N)
    (list? : Option SignerList) :
    Holds (contents.set (signersKey id) (list?.map Entry.signerList)) id N
      { inventory with list? } where
  root := by rw [Contents.entries_set_of_ne _ hapart.signers_ne_account.symm, h.root]
  list := Contents.entries_set_self _ _ _
  ring := h.ring.congr fun number hnumber =>
    Contents.entries_set_of_ne _ (hapart.signers number hnumber).symm _
  fits := h.fits

/-! ## Keys of others -/

/-- Another key is entered on a page that is told, or there is no room for it. -/
theorem run_insert_other (h : Holds contents id N inventory) (hlists : Lists id live inventory)
    (hapart : Apart id N) {key : Key} (hne : key ≠ signersKey id)
    (htarget : ∀ page, Directory.target? contents (ownerDirectoryKey id) = some page → page ∈ N) :
    (∃ page contents' inventory',
      (OwnerDirectory.insert id key).run contents = (.ok page, contents') ∧
        Holds contents' id N inventory' ∧ Lists id (live ++ [(key, page)]) inventory') ∨
      (OwnerDirectory.insert id key).run contents =
        (.error (.directoryFull (ownerDirectoryKey id)), contents) := by
  rcases h.ring.run_insert hapart.pages hapart.zero (some id) key
      fun number _ hinsertion => htarget number (h.ring.target?_eq hapart.zero hinsertion) with
    ⟨number, sheets', contents', hinsertion, hrun, hring, hsame⟩ | ⟨-, hrun⟩
  · exact .inl ⟨number, contents', _, hrun,
      h.directory hapart hsame hring (hinsertion.fits h.fits), hlists.insert_other hinsertion hne⟩
  · exact .inr hrun

/-- A live key can be removed from the page it was put on. -/
theorem run_remove_other (h : Holds contents id N inventory) (hlists : Lists id live inventory)
    (hapart : Apart id N) {key : Key} {page : UInt64} (hlive : (key, page) ∈ live) :
    ∃ contents' inventory', (OwnerDirectory.remove id page key).run contents = (.ok (), contents') ∧
      Holds contents' id N inventory' ∧ Lists id (live.erase (key, page)) inventory' := by
  obtain ⟨hlisted, hne⟩ := hlists.mem_of_mem_live hlive
  rcases h.ring.run_remove hapart.pages (h.ring.mem_of_mem_listing hlisted) key false with
    ⟨sheets', contents', hremoval, hrun, hring, hsame⟩ | ⟨hmissing, -⟩
  · exact ⟨contents', _, hrun, h.directory hapart hsame hring (hremoval.fits h.fits),
      hlists.remove_other hremoval h.ring.ordered hne⟩
  · exact absurd hlisted hmissing

/-! ## Signer lists -/

/-- The list, if there is one, can be removed from the page that it names. -/
theorem run_remove (h : Holds contents id N inventory) (hlists : Lists id live inventory)
    (hapart : Apart id N) :
    ∃ units contents' root sheets',
      (SignerList.remove id).run contents = (.ok units, contents') ∧
        Holds contents' id N ⟨root, none, sheets'⟩ ∧ Lists id live ⟨root, none, sheets'⟩ := by
  obtain ⟨root, list?, sheets⟩ := inventory
  cases list? with
  | none =>
      exact ⟨0, contents, root, sheets, SignerList.run_remove_of_none h.signerList?_eq, h, hlists⟩
  | some list =>
      have hlisted := hlists.mem_of_list? rfl
      rcases h.ring.run_remove hapart.pages (h.ring.mem_of_mem_listing hlisted) (signersKey id)
          false with
        ⟨sheets', directory, hremoval, hrun, hring, hsame⟩ | ⟨hmissing, -⟩
      · have hdirectory := h.directory hapart hsame hring (hremoval.fits h.fits)
        have hadjusted := hdirectory.set_root hapart
          (root.adjustOwnerCount (-Int64.ofNat list.units.toNat))
        exact ⟨list.units, _, _, sheets',
          SignerList.run_remove_of_some h.signerList?_eq hrun hdirectory.root hdirectory.list
            hapart.signers_ne_account,
          hadjusted.set_list hapart none,
          hlists.remove_own hremoval h.ring.ordered⟩
      · exact absurd hlisted hmissing

/-- A list is stored on the page that it then names, or there is no room for its key. -/
theorem run_store {root : AccountRoot} (h : Holds contents id N ⟨root, none, sheets⟩)
    (hlists : Lists id live ⟨root, none, sheets⟩) (hapart : Apart id N) (payload : Payload)
    (accounting : Accounting)
    (htarget : ∀ page, Directory.target? contents (ownerDirectoryKey id) = some page → page ∈ N) :
    (∃ page count contents' inventory',
      (SignerList.store id payload accounting).run contents = (.ok (page, count), contents') ∧
        Holds contents' id N inventory' ∧ Lists id live inventory') ∨
      (SignerList.store id payload accounting).run contents =
        (.error (.claimed (.directoryFull id)), contents) := by
  rcases h.ring.run_insert hapart.pages hapart.zero (some id) (signersKey id)
      fun number _ hinsertion => htarget number (h.ring.target?_eq hapart.zero hinsertion) with
    ⟨page, sheets', directory, hinsertion, hrun, hring, hsame⟩ | ⟨-, hrun⟩
  · have hdirectory := h.directory hapart hsame hring (hinsertion.fits h.fits)
    have hstored := hdirectory.set_list hapart
      (some { quorum := payload.quorum, signers := payload.signers, accounting, page })
    exact .inl ⟨page, _, _, _,
      SignerList.run_store hrun hdirectory.list hdirectory.root rfl hapart.signers_ne_account,
      hstored.set_root hapart _, hlists.insert_own hinsertion⟩
  · exact .inr (SignerList.run_store_of_full payload accounting hrun)

end Holds

end Inventory

/-! ## Transactions -/

/-- The page that a transaction puts its list's key on, if it comes to that. -/
def Transaction.target? {σ : Type} [View σ] (tx : Transaction) (view : σ) : Option UInt64 :=
  match tx.preflight with
  | .ok ⟨_, _, .replace payload⟩ =>
    let cleared := ((SignerList.remove tx.account).run view).2
    (View.account? cleared tx.account).bind fun root =>
      if tx.priorBalance < SignerList.required (View.terms cleared) root payload then none
      else Directory.target? cleared (ownerDirectoryKey tx.account)
  | _ => none

theorem Transaction.target?_contents (tx : Transaction) (ledger : Ledger) :
    tx.target? (View.contents ledger) = tx.target? ledger := by
  obtain ⟨-, hcleared⟩ := Procedure.run_contents (SignerList.remove tx.account) ledger
  unfold Transaction.target?
  rw [← hcleared]
  rfl

/-- It comes to that if the balance suffices once the old list is removed. -/
theorem Transaction.target?_eq {tx : Transaction} {payload : Payload} {contents cleared : Contents}
    {refunded : UInt32} {root : AccountRoot}
    (hpreflight : tx.preflight = .ok ⟨tx.account, tx.priorBalance, .replace payload⟩)
    (hremove : (SignerList.remove tx.account).run contents = (.ok refunded, cleared))
    (hroot : View.account? cleared tx.account = some root)
    (hreserve : ¬ tx.priorBalance < SignerList.required cleared.terms root payload) :
    tx.target? contents = Directory.target? cleared (ownerDirectoryKey tx.account) := by
  unfold Transaction.target?
  rw [hpreflight, hremove]
  simp only
  rw [hroot, Option.bind_some]
  exact if_neg hreserve

namespace Inventory.Holds

variable {N : Set UInt64} {live : List (Key × UInt64)} {inventory : Inventory}
  {contents : Contents} {tx : Transaction}

/-- On a ledger that holds its account's inventory, a transaction does not find anything wrong. It
leaves all other keys on their pages, and its list, if there is one, on the page that it names. -/
theorem run_enact (h : Holds contents tx.account N inventory)
    (hlists : Lists tx.account live inventory) (hapart : Apart tx.account N)
    (htarget : ∀ page, tx.target? contents = some page → page ∈ N) :
    (∃ effect contents' inventory', tx.enact.run contents = (.ok effect, contents') ∧
        Holds contents' tx.account N inventory' ∧ Lists tx.account live inventory') ∨
      (∃ rejection contents', tx.enact.run contents = (.error rejection, contents') ∧
        rejection.code.isInternal = false) := by
  obtain ⟨refunded, cleared, root, sheets, hremove, hcleared, hclearedLists⟩ :=
    h.run_remove hlists hapart
  rcases Transaction.run_enact_of_remove hremove h.account?_eq hcleared.account?_eq with
    ⟨rejection, after, hrun, hcode⟩ | ⟨-, hrun⟩ | ⟨payload, hpreflight, hreserve, hrun⟩
  · exact .inr ⟨rejection, after, hrun, hcode⟩
  · exact .inl ⟨_, cleared, _, hrun, hcleared, hclearedLists⟩
  · rw [Transaction.target?_eq hpreflight hremove hcleared.account?_eq hreserve] at htarget
    rw [hrun, Procedure.run_bind]
    rcases hcleared.run_store hclearedLists hapart payload cleared.terms.rules.accounting
        htarget with
      ⟨page, count, contents', inventory', hstore, hholds, hlists'⟩ | hstore
    · rw [hstore]
      exact .inl ⟨_, contents', inventory', rfl, hholds, hlists'⟩
    · rw [hstore]
      exact .inr ⟨_, _, rfl, rfl⟩

/-- The same for a ledger, which a rejected transaction leaves as it was. -/
theorem apply {ledger : Ledger} (h : Holds (View.contents ledger) tx.account N inventory)
    (hlists : Lists tx.account live inventory) (hapart : Apart tx.account N)
    (htarget : ∀ page, tx.target? ledger = some page → page ∈ N) :
    (tx.apply ledger).1.code.isInternal = false ∧
      ∃ inventory', Holds (View.contents (tx.apply ledger).2) tx.account N inventory' ∧
        Lists tx.account live inventory' := by
  rw [← tx.target?_contents] at htarget
  rcases h.run_enact hlists hapart htarget with
    ⟨effect, contents', inventory', hrun, hholds, hlists'⟩ | ⟨rejection, contents', hrun, hcode⟩
  · obtain ⟨changes, changed, happly, rfl⟩ := Transaction.apply_ok hrun
    rw [happly]
    exact ⟨rfl, inventory', hholds, hlists'⟩
  · rw [Transaction.apply_error hrun]
    exact ⟨hcode, inventory, h, hlists⟩

end Inventory.Holds

end Cosign
