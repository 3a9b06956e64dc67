-- SUMMARY: A list is removed from the page that it names, or nothing is done and the ledger is reported as bad.
import Cosign.Proofs.Replacement

/-!
# Removal

A list names the page of its owner's directory that has its key, and the removal of the list goes
by that alone (`SignerList.removal_by_page`). If the key is not there, no other page is searched:
any transaction that would have the list removed is rejected as it stands. If it is there, in a
directory whose pages are linked as they should be, the list goes and the directory gives up its
key and nothing else, whether the page is the root, the last one or one in between, and whether
the key is alone on it or not.
-/

namespace Cosign

open Inventory (Apart)
open Directory (Chain Linked placed)

/-- The transaction has the list of its account removed, if there is one: it stores another, or it is
allowed to destroy it. -/
inductive Transaction.Removes (tx : Transaction) (ledger : Ledger) : Prop
  | replace {payload : Payload}
      (h : tx.preflight = .ok ⟨tx.account, tx.priorBalance, .replace payload⟩)
  | destroy {root : AccountRoot} (h : tx.preflight = .ok ⟨tx.account, tx.priorBalance, .destroy⟩)
      (hroot : View.account? ledger tx.account = some root) (hkey : root.hasAlternativeKey = true)

namespace SignerList

/-- The list of an account is gone and no longer counted, and the account's directory, which was a chain
of the given pages, has lost its key. There is a chain as before if any page is left. -/
structure Removed (id : AccountId) (root : AccountRoot) (list : SignerList) (pages : List UInt64)
    (before after : Contents) : Prop where
  root : ∃ count : UInt32, count.toNat = root.ownerCount.toNat - list.units.toNat ∧
    after.entries (Slot.account id).key = some (.accountRoot { root with ownerCount := count })
  list : after.entries (signersKey id) = none
  directory : ∃ pages', Linked (ownerDirectoryKey id) { number | number ∈ pages } after pages' ∧
    placed after (ownerDirectoryKey id) pages' =
      (placed before (ownerDirectoryKey id) pages).filter (·.1 ≠ signersKey id)
  terms : after.terms = before.terms
  rest : ∀ key, key ≠ (Slot.account id).key → key ≠ signersKey id →
    (∀ number ∈ pages, key ≠ (Slot.page (ownerDirectoryKey id) number).key) →
    after.entries key = before.entries key

variable {id : AccountId} {list : SignerList} {contents : Contents}

/-- The other pages are not searched for the key. -/
theorem run_remove_of_unlisted (hlist : View.signerList? contents id = some list)
    (hunlisted : ∀ page, View.page? contents (ownerDirectoryKey id) list.page = some page →
      signersKey id ∉ page.keys) :
    (remove id).run contents =
      (.error (.internal (.directoryRemove id (.directoryEntryMissing list.page (signersKey id)))),
        contents) := by
  have hdirectory : (OwnerDirectory.remove id list.page (signersKey id)).run contents =
      (.error (.directoryEntryMissing list.page (signersKey id)), contents) :=
    Directory.run_remove_of_unlisted hunlisted false
  unfold remove
  rw [Procedure.run_bind_ok (Procedure.run_signerList? _ _), hlist]
  exact Procedure.run_bind_error (Procedure.run_mapError_error hdirectory)

theorem run_remove_removed {root : AccountRoot} {pages : List UInt64}
    (hroot : View.account? contents id = some root)
    (hlist : View.signerList? contents id = some list)
    (hchain : Chain (ownerDirectoryKey id) { number | number ∈ pages } pages contents)
    (hown : (placed contents (ownerDirectoryKey id) pages).filter (·.1 = signersKey id) =
      [(signersKey id, list.page)]) (hapart : Apart id { number | number ∈ pages }) :
    ∃ after, (remove id).run contents = (.ok list.units, after) ∧
      Removed id root list pages contents after := by
  obtain ⟨count, pages', directory, after, -, hremove, hcount, hroot', hlist', ⟨hlinked, -⟩, hplaced,
    hbut, houtside⟩ := run_remove_of_linked (View.entries_of_account? hroot)
      (View.entries_of_signerList? hlist) (.chain hchain) hown hapart
  refine ⟨after, hremove, ⟨count, hcount, hroot'⟩, hlist', ⟨pages', hlinked, hplaced⟩,
    hbut.terms.trans houtside.terms, ?_⟩
  intro key hneroot hnelist hnepages
  exact (hbut.entries key hneroot hnelist).trans (houtside.entries key hnepages)

end SignerList

/-- Whatever the reason is for the removal, it fails as the removal does. -/
theorem Transaction.Removes.apply {tx : Transaction} {ledger : Ledger} {rejection : Rejection}
    {after : Contents} (h : tx.Removes ledger)
    (hremove : (SignerList.remove tx.account).run (View.contents ledger) =
      (.error rejection, after)) :
    tx.apply ledger = (.rejected rejection, ledger) := by
  cases h with
  | @replace payload hpreflight =>
      exact apply_error ((run_enact_of_preflight hpreflight _).trans
        (SignerList.run_replace_of_error _ payload hremove))
  | destroy hpreflight hroot hkey =>
      exact apply_error ((run_enact_of_preflight hpreflight _).trans
        (SignerList.run_destroy_of_error hroot hkey hremove))

/-- If the page that a list names does not have the list's key, then no transaction removes the list:
the ledger is reported as bad, with the reason, it stays as it is, and the service halts if it is to.
If it is a page of a chain that lists the key there and nowhere else, the list can be removed. -/
theorem SignerList.removal_by_page {ledger : Ledger} {id : AccountId} {list : SignerList}
    (hlist : View.signerList? ledger id = some list) :
    ((∀ page, View.page? ledger (ownerDirectoryKey id) list.page = some page →
        signersKey id ∉ page.keys) →
      ∀ (service : Service) (tx : Transaction), service.halted? = none → tx.account = id →
        tx.Removes ledger →
        ∃ service', service.apply ledger tx =
            .ok (⟨.badLedger, none, 0, some (.internal (.directoryRemove id
              (.directoryEntryMissing list.page (signersKey id))))⟩, service', ledger) ∧
          service'.halted? = if service.config.haltOnInternal then some ⟨.badLedger⟩ else none) ∧
    ∀ (root : AccountRoot) (pages : List UInt64),
      View.account? ledger id = some root →
      Chain (ownerDirectoryKey id) { number | number ∈ pages } pages (View.contents ledger) →
      (placed ledger (ownerDirectoryKey id) pages).filter (·.1 = signersKey id) =
        [(signersKey id, list.page)] →
      Apart id { number | number ∈ pages } →
      ∃ after : Ledger,
        (remove id).run ledger = (.ok (list.accounting.units list.signers.length), after) ∧
          Removed id root list pages (View.contents ledger) (View.contents after) := by
  constructor
  · rintro hunlisted service tx hready rfl hremoves
    let report : Report := .rejected (.internal (.directoryRemove tx.account
      (.directoryEntryMissing list.page (signersKey tx.account))))
    refine ⟨service.note report, ?_, ?_⟩
    · rw [Service.apply_of_ready hready, hremoves.apply (run_remove_of_unlisted hlist hunlisted)]
      rfl
    · have hcode : report.code.isInternal = true := rfl
      unfold Service.note
      simp only [hready, hcode, Bool.true_and]
      rfl
  · intro root pages hroot hchain hown hapart
    obtain ⟨_, hrun, hremoved⟩ := run_remove_removed hroot hlist hchain hown hapart
    obtain ⟨after, hdirect, rfl⟩ := Procedure.run_of_contents hrun
    exact ⟨after, hdirect, hremoved⟩

/-- With one key to a page, another key stands on the root page and the list's on the next. A list that
names the root page cannot be destroyed, one that names the next page is removed from there. -/
theorem SignerList.removal_by_page_of_two :
    let ledger := TwoPages.ledger
    let list : SignerList :=
      { quorum := 1, signers := [⟨.ofLow 1, 1⟩], accounting := .legacy, page := 1 }
    let moved := View.modify ledger (signersKey .zero) fun _ => .signerList { list with page := 0 }
    (∃ service', ({} : Service).apply moved (.destroy .zero 0) =
        .ok (⟨.badLedger, none, 0, some (.internal (.directoryRemove .zero
          (.directoryEntryMissing 0 (signersKey .zero))))⟩, service', moved) ∧
        service'.halted? = some ⟨.badLedger⟩) ∧
      ∃ after, (remove .zero).run ledger = (.ok 3, after) ∧
        Removed .zero { account := .zero, balance := 100000000, ownerCount := 3 } list [0, 1]
          (View.contents ledger) (View.contents after) := by
  intro ledger list moved
  have hpages := TwoPages.twoPages_ledger
  have hroot : View.account? ledger .zero = some
      { account := .zero, balance := 100000000, ownerCount := 3 } := hpages.account?_eq
  have hlist : View.signerList? ledger .zero = some list := hpages.signerList?_eq
  have hapart := hpages.keys.apart
  -- Only the list is another one in the ledger where it names the root page.
  have hsame : ∀ key, key ≠ signersKey .zero → View.find? moved key = View.find? ledger key :=
    fun key hne => (LawfulView.find?_modify _ _ _ _).trans (if_neg hne)
  have hroot' : View.account? moved .zero = View.account? ledger .zero :=
    congrArg (Option.bind · Entry.accountRoot?) (hsame _ hapart.signers_ne_account.symm)
  have hmoved : View.signerList? moved .zero = some { list with page := 0 } := by
    have hentry : View.find? ledger (signersKey .zero) = some (.signerList list) := hpages.list
    unfold View.signerList?
    rw [LawfulView.find?_modify, if_pos rfl, hentry]
    rfl
  have hunlisted : ∀ page, View.page? moved (ownerDirectoryKey .zero) 0 = some page →
      signersKey .zero ∉ page.keys := by
    intro page hfound
    have hpage : View.page? moved (ownerDirectoryKey .zero) 0 =
        View.page? ledger (ownerDirectoryKey .zero) 0 :=
      congrArg (Option.bind · Entry.directoryPage?) (hsame _ (hapart.signers 0 hapart.zero).symm)
    cases hfound.symm.trans (hpage.trans hpages.page?_zero)
    exact fun hmem => hpages.keys.ne (List.mem_singleton.1 hmem).symm
  have hremoves : (Transaction.destroy .zero 0).Removes moved :=
    .destroy (by decide) (hroot'.trans hroot) (by decide)
  refine ⟨(removal_by_page hmoved).1 hunlisted {} _ rfl rfl hremoves, ?_⟩
  exact (removal_by_page hlist).2 _ [0, 1] hroot hpages.chain hpages.own hapart

end Cosign
