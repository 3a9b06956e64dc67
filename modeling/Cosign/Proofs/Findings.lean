-- SUMMARY: When the audit finds nothing, and the one kind of damage that it then may have missed.
import Cosign.Audit
import Cosign.Proofs.Directory.Trail
import Cosign.Proofs.Preflight

/-!
# Findings

A ledger is consistent if every account's directory can be listed and names only
entries that exist, if the owner count is what the account's list was charged, and if
a list ascends and is named once, on the page that it remembers (`Audit.Consistent`).
The audit finds nothing in such a ledger. Conversely it counts names on the pages that
links lead over, but looks up the remembered page by its number. A page that no link
leads to can therefore answer for one of the directory, and the audit finds nothing
although the list is named elsewhere (`passes_stray_page`). That is all it can miss
(`clean_iff`).
-/

namespace Cosign

open Directory

namespace Audit

/-- An account agrees with its directory, of which these are the pages, in all but the page that its
list remembers. -/
structure Agrees (ledger : Ledger) (root : AccountRoot) (pages : List (UInt64 × DirectoryPage)) :
    Prop where
  readable : Reads ledger (ownerDirectoryKey root.account) pages
  live : ∀ key ∈ named pages, View.find? ledger key ≠ none
  counted : root.ownerCount = ((View.signerList? ledger root.account).map SignerList.units).getD 0
  once : ∀ list, View.signerList? ledger root.account = some list →
    (named pages).count (signersKey root.account) = 1
  ascending : ∀ list, View.signerList? ledger root.account = some list →
    list.signers.Pairwise fun a b => a.account < b.account

/-- The page of the directory that names an account's list is the one that the list remembers. -/
def Consistent (ledger : Ledger) : Prop :=
  ∀ key root, View.find? ledger key = some (.accountRoot root) →
    ∃ pages, Agrees ledger root pages ∧
      ∀ list, View.signerList? ledger root.account = some list →
        ∃ page, (list.page, page) ∈ pages ∧ signersKey root.account ∈ page.keys

/-- The page that a list remembers names it, whether it is one of the directory's or not. -/
def Hinted (ledger : Ledger) (owner : AccountId) (list : SignerList) : Prop :=
  ∃ page, View.page? ledger (ownerDirectoryKey owner) list.page = some page ∧
    signersKey owner ∈ page.keys

/-- The page that a list remembers is one of the directory's, whether it names the list or not. -/
def HintsLinked (ledger : Ledger) : Prop :=
  ∀ key root list pages, View.find? ledger key = some (.accountRoot root) →
    View.signerList? ledger root.account = some list →
    Reads ledger (ownerDirectoryKey root.account) pages → list.page ∈ pages.map Prod.fst

/-! ## Account by account -/

variable {ledger : Ledger} {root : AccountRoot} {owner : AccountId} {list : SignerList}

theorem finding_eq_nil {reason : Bool} {violation : Violation} :
    finding reason violation = [] ↔ reason = false := by
  unfold finding
  cases reason <;> simp

/-- The roots that the audit goes through are those in the ledger. -/
theorem mem_roots :
    root ∈ ledger.toList.filterMap (fun (_, entry) => entry.accountRoot?) ↔
      ∃ key, View.find? ledger key = some (.accountRoot root) := by
  rw [List.mem_filterMap]
  constructor
  · rintro ⟨⟨key, entry⟩, hlisted, hroot⟩
    rw [Ledger.toList, Std.ExtTreeMap.mem_toList_iff_getElem?_eq_some] at hlisted
    cases entry <;> cases hroot
    exact ⟨key, hlisted⟩
  · rintro ⟨key, hfound⟩
    refine ⟨(key, .accountRoot root), ?_, rfl⟩
    rw [Ledger.toList, Std.ExtTreeMap.mem_toList_iff_getElem?_eq_some]
    exact hfound

theorem checkCount_eq_nil_iff {list? : Option SignerList} :
    checkCount root list? = [] ↔ root.ownerCount = (list?.map SignerList.units).getD 0 := by
  unfold checkCount
  simp only [finding_eq_nil, bne_eq_false_iff_eq]
  exact eq_comm

theorem checkList_eq_nil_iff {keys : List Key} :
    checkList ledger owner keys list = [] ↔
      keys.count (signersKey owner) = 1 ∧ Hinted ledger owner list ∧
        list.signers.Pairwise fun a b => a.account < b.account := by
  have hhinted : (View.page? ledger (ownerDirectoryKey owner) list.page).any
      (fun page => page.keys.contains (signersKey owner)) = true ↔ Hinted ledger owner list := by
    simp [Option.any_eq_true, Hinted]
  have hascends : ascends list.signers = true ↔
      list.signers.Pairwise fun a b => a.account < b.account :=
    ⟨pairwise_of_ascends, ascends_of_pairwise⟩
  unfold checkList
  simp only [List.append_eq_nil_iff, finding_eq_nil, bne_eq_false_iff_eq, Bool.not_eq_false',
    hhinted, hascends, and_assoc]

theorem checkDirectory_eq_nil_iff {list? : Option SignerList} :
    checkDirectory ledger owner list? = [] ↔
      ∃ pages, Reads ledger (ownerDirectoryKey owner) pages ∧
        (∀ key ∈ named pages, View.find? ledger key ≠ none) ∧
        ∀ list, list? = some list → checkList ledger owner (named pages) list = [] := by
  unfold checkDirectory
  constructor
  · intro h
    cases hkeys : ((OwnerDirectory.keys owner).run ledger).1 with
    | error cause =>
        rw [hkeys] at h
        cases h
    | ok listed =>
        obtain ⟨pages, hreads, rfl⟩ := exists_reads_of_run_keys hkeys
        rw [hkeys] at h
        obtain ⟨hdangling, hlist⟩ := List.append_eq_nil_iff.1 h
        refine ⟨pages, hreads, fun key hkey hnone => ?_, ?_⟩
        · have hfiltered := List.map_eq_nil_iff.1 hdangling
          simpa [hnone] using List.filter_eq_nil_iff.1 hfiltered key hkey
        · rintro list rfl
          exact hlist
  · rintro ⟨pages, hreads, hlive, hlist⟩
    rw [show ((OwnerDirectory.keys owner).run ledger).1 = .ok (named pages) from
      congrArg Prod.fst hreads.run_keys]
    refine List.append_eq_nil_iff.2 ⟨?_, ?_⟩
    · rw [List.map_eq_nil_iff, List.filter_eq_nil_iff]
      intro key hkey
      simpa [Option.isNone_iff_eq_none] using hlive key hkey
    · cases list? with
      | none => rfl
      | some list => exact hlist list rfl

/-- Nothing is found about an account that agrees with its directory and whose list remembers a page
that names it. -/
theorem checkAccount_eq_nil_iff :
    checkAccount ledger root = [] ↔
      ∃ pages, Agrees ledger root pages ∧
        ∀ list, View.signerList? ledger root.account = some list →
          Hinted ledger root.account list := by
  unfold checkAccount
  simp only [List.append_eq_nil_iff, checkCount_eq_nil_iff, checkDirectory_eq_nil_iff,
    checkList_eq_nil_iff]
  constructor
  · rintro ⟨hcount, pages, hreads, hlive, hlist⟩
    exact ⟨pages, ⟨hreads, hlive, hcount, fun list h => (hlist list h).1,
      fun list h => (hlist list h).2.2⟩, fun list h => (hlist list h).2.1⟩
  · rintro ⟨pages, hagrees, hhinted⟩
    exact ⟨hagrees.counted, pages, hagrees.readable, hagrees.live,
      fun list h => ⟨hagrees.once list h, hhinted list h, hagrees.ascending list h⟩⟩

/-! ## Ledgers -/

theorem eq_nil_iff_checkAccount :
    audit ledger = [] ↔
      ∀ key root, View.find? ledger key = some (.accountRoot root) →
        checkAccount ledger root = [] := by
  unfold audit
  rw [List.flatMap_eq_nil_iff]
  exact ⟨fun h key root hroot => h root (mem_roots.2 ⟨key, hroot⟩),
    fun h root hroot => (mem_roots.1 hroot).elim fun key hfound => h key root hfound⟩

/-- Of the pages of a directory, the one that a list remembers names it if the page found under its
number does. -/
theorem exists_mem_iff {pages : List (UInt64 × DirectoryPage)}
    (hreads : Reads ledger (ownerDirectoryKey owner) pages) :
    (∃ page, (list.page, page) ∈ pages ∧ signersKey owner ∈ page.keys) ↔
      Hinted ledger owner list ∧ list.page ∈ pages.map Prod.fst := by
  constructor
  · rintro ⟨page, hmem, hkey⟩
    exact ⟨⟨page, hreads.page?_of_mem hmem, hkey⟩, List.mem_map_of_mem hmem⟩
  · rintro ⟨⟨page, hpage, hkey⟩, hlinked⟩
    obtain ⟨⟨_, found⟩, hmem, rfl⟩ := List.mem_map.1 hlinked
    cases hpage.symm.trans (hreads.page?_of_mem hmem)
    exact ⟨page, hmem, hkey⟩

/-- The audit finds nothing just if every account agrees with its directory and every list remembers a
page that names it. The ledger is consistent just if, besides, all of these pages belong to the
directories of the lists' owners. -/
theorem clean_iff (ledger : Ledger) :
    (audit ledger = [] ↔
      ∀ key root, View.find? ledger key = some (.accountRoot root) →
        ∃ pages, Agrees ledger root pages ∧
          ∀ list, View.signerList? ledger root.account = some list →
            Hinted ledger root.account list) ∧
      (Consistent ledger ↔ audit ledger = [] ∧ HintsLinked ledger) := by
  have hclean : audit ledger = [] ↔ _ := eq_nil_iff_checkAccount.trans <|
    forall_congr' fun key => forall_congr' fun root => imp_congr_right fun _ =>
      checkAccount_eq_nil_iff
  refine ⟨hclean, ?_⟩
  rw [hclean]
  constructor
  · intro h
    refine ⟨fun key root hroot => ?_, fun key root list pages hroot hlist hreads => ?_⟩
    · obtain ⟨pages, hagrees, hnamed⟩ := h key root hroot
      exact ⟨pages, hagrees, fun list hlist =>
        ((exists_mem_iff hagrees.readable).1 (hnamed list hlist)).1⟩
    · obtain ⟨pages', hagrees, hnamed⟩ := h key root hroot
      obtain rfl := hreads.unique hagrees.readable
      exact ((exists_mem_iff hreads).1 (hnamed list hlist)).2
  · rintro ⟨hfound, hlinked⟩ key root hroot
    obtain ⟨pages, hagrees, hhinted⟩ := hfound key root hroot
    exact ⟨pages, hagrees, fun list hlist => (exists_mem_iff hagrees.readable).2
      ⟨hhinted list hlist, hlinked key root list pages hroot hlist hagrees.readable⟩⟩

/-- The list is named on the root page, and on a page 1 that no link leads to and that the list
remembers. Nothing is found. -/
theorem passes_stray_page :
    let id := AccountId.ofLow 1
    let page : DirectoryPage :=
      { root := ownerDirectoryKey id, owner := some id, keys := [signersKey id] }
    let list : SignerList :=
      { quorum := 1, signers := [⟨.ofLow 2, 1⟩], accounting := .current, page := 1 }
    let ledger : Ledger := ⟨.ofList [
      ((Slot.account id).key, Entry.accountRoot { account := id, balance := 0, ownerCount := 1 }),
      (ownerDirectoryKey id, Entry.directoryPage page),
      ((Slot.page (ownerDirectoryKey id) 1).key, Entry.directoryPage page),
      (signersKey id, Entry.signerList list)], {}⟩
    audit ledger = [] ∧ ¬ Consistent ledger := by
  intro id page list ledger
  obtain ⟨hclean, hroot, hlist, hpage⟩ :
      audit ledger = [] ∧
      View.find? ledger (Slot.account id).key =
        some (.accountRoot { account := id, balance := 0, ownerCount := 1 }) ∧
      View.signerList? ledger id = some list ∧
      View.page? ledger (ownerDirectoryKey id) 0 = some page := by
    decide +kernel
  refine ⟨hclean, fun hconsistent => ?_⟩
  obtain ⟨pages, hagrees, hnamed⟩ := hconsistent _ _ hroot
  obtain ⟨found, hmem, -⟩ := hnamed list hlist
  -- The root is linked to itself, so it is the only page of the directory.
  have hreads : Reads ledger (ownerDirectoryKey id) [(0, page)] :=
    .trail (.last hpage rfl) (by decide)
  obtain rfl := hreads.unique hagrees.readable
  simp [list] at hmem

end Audit

end Cosign
