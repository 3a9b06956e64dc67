-- SUMMARY: Directories with another key on the root page and the key of the account's list on the page after it.
import Cosign.Proofs.Directory.InOrder
import Cosign.Proofs.Inventory

/-!
# Two pages

The key of a list need not be on the root page of its owner's directory. The plainest
directory of which this is so has two pages: another key has the root page to itself
(`OnePage`), and the key of the list is put on a page of its own (`TwoPages`). Such
directories are chains whatever the account and the other key are, and it is known what
is placed where. With one key to a page an account comes from the first to the second by
storing a list (`TwoPages.onePage_start`, `TwoPages.twoPages_ledger`).
-/

namespace Cosign

open Inventory (Apart)
open Directory (Chain Without placed)

variable {contents : Contents} {id : AccountId} {other : Key} {root : AccountRoot}
  {list : SignerList}

/-- The keys of an account and of two pages of its directory are different, from each other and from
another one. -/
abbrev TwoPages.KeysApart (id : AccountId) (other : Key) : Prop :=
  (other :: (Slot.account id).key :: signersKey id ::
    [(0 : UInt64), 1].map fun number => (Slot.page (ownerDirectoryKey id) number).key).Nodup

theorem TwoPages.KeysApart.apart (h : TwoPages.KeysApart id other) :
    Apart id { number | number ∈ [0, 1] } :=
  .of_nodup List.mem_cons_self (List.nodup_cons.1 h).2

theorem TwoPages.KeysApart.ne (h : TwoPages.KeysApart id other) : other ≠ signersKey id := by
  have hother := (List.nodup_cons.1 h).1
  simp only [List.mem_cons, not_or] at hother
  exact hother.2.1

/-! ## Before there is a list -/

/-- The account's directory has another key on the root page and no second page. There is no list. -/
structure OnePage (contents : Contents) (id : AccountId) (other : Key) (root : AccountRoot) :
    Prop where
  root : contents.entries (Slot.account id).key = some (.accountRoot root)
  list : contents.entries (signersKey id) = none
  first : contents.entries (ownerDirectoryKey id) = some (.directoryPage
    { root := ownerDirectoryKey id, owner := some id, keys := [other] })
  last : contents.entries (Slot.page (ownerDirectoryKey id) 1).key = none
  keys : TwoPages.KeysApart id other

namespace OnePage

theorem account?_eq (h : OnePage contents id other root) : View.account? contents id = some root :=
  View.account?_of_entries h.root

theorem chain (h : OnePage contents id other root) :
    Chain (ownerDirectoryKey id) { number | number ∈ [0, 1] } [0] contents where
  starts := rfl
  increasing := List.pairwise_singleton _ _
  within := by simp
  stored before number after hsplit := by
    rcases List.singleton_eq_append_iff.1 hsplit with ⟨rfl, hcons⟩ | ⟨-, hcons⟩
    · cases hcons
      exact ⟨_, h.first, rfl, rfl, absurd rfl⟩
    · cases hcons
  free number hnumber hunused := by
    have hne : number ≠ 0 := by simpa using hunused
    obtain rfl : number = 1 := by simpa [hne] using hnumber
    exact h.last

theorem without (h : OnePage contents id other root) :
    Without (ownerDirectoryKey id) { number | number ∈ [0, 1] } (signersKey id) contents := by
  refine .chain h.chain ⟨0, List.mem_cons_self, _, h.first, List.mem_cons_self⟩ ?_
  rintro ⟨number, hnumber, page, hpage, hkey⟩
  obtain rfl : number = 0 := List.mem_singleton.1 hnumber
  cases h.first.symm.trans hpage
  exact h.keys.ne (List.mem_singleton.1 hkey).symm

end OnePage

/-! ## With a list -/

/-- The account's directory has another key on the root page and the key of its list on the page after
it. -/
structure TwoPages (contents : Contents) (id : AccountId) (other : Key) (root : AccountRoot)
    (list : SignerList) : Prop where
  root : contents.entries (Slot.account id).key = some (.accountRoot root)
  list : contents.entries (signersKey id) = some (.signerList list)
  first : contents.entries (ownerDirectoryKey id) = some (.directoryPage
    { root := ownerDirectoryKey id, owner := some id, keys := [other], next := 1, previous := 1 })
  last : contents.entries (Slot.page (ownerDirectoryKey id) 1).key = some (.directoryPage
    { root := ownerDirectoryKey id, owner := some id, keys := [signersKey id] })
  keys : TwoPages.KeysApart id other

namespace TwoPages

theorem account?_eq (h : TwoPages contents id other root list) :
    View.account? contents id = some root :=
  View.account?_of_entries h.root

theorem signerList?_eq (h : TwoPages contents id other root list) :
    View.signerList? contents id = some list :=
  View.signerList?_of_entries h.list

theorem chain (h : TwoPages contents id other root list) :
    Chain (ownerDirectoryKey id) { number | number ∈ [0, 1] } [0, 1] contents :=
  .pair (by decide) h.first h.last ⟨rfl, rfl⟩ ⟨rfl, rfl⟩ (List.cons_ne_nil _ _)

theorem page?_zero (h : TwoPages contents id other root list) :
    View.page? contents (ownerDirectoryKey id) 0 = some
      { root := ownerDirectoryKey id, owner := some id, keys := [other], next := 1, previous := 1 } :=
  congrArg (Option.bind · Entry.directoryPage?) h.first

theorem page?_one (h : TwoPages contents id other root list) :
    View.page? contents (ownerDirectoryKey id) 1 = some
      { root := ownerDirectoryKey id, owner := some id, keys := [signersKey id] } :=
  congrArg (Option.bind · Entry.directoryPage?) h.last

theorem placed_eq (h : TwoPages contents id other root list) :
    placed contents (ownerDirectoryKey id) [0, 1] = [(other, 0), (signersKey id, 1)] := by
  simp [placed, Directory.keysAt, h.page?_zero, h.page?_one]

/-- The list's key is on the second page only. -/
theorem own (h : TwoPages contents id other root list) :
    (placed contents (ownerDirectoryKey id) [0, 1]).filter (·.1 = signersKey id) =
      [(signersKey id, 1)] := by
  simp [h.placed_eq, h.keys.ne]

/-- There is nothing else on it. -/
theorem others (h : TwoPages contents id other root list) :
    (placed contents (ownerDirectoryKey id) [0, 1]).filter (·.1 ≠ signersKey id) =
      [(other, 0)] := by
  simp [h.placed_eq, h.keys.ne]

/-! ## From one page to two -/

/-- A page takes one key, and there is one on the root page. -/
@[irreducible] def start : Ledger :=
  ((OwnerDirectory.insert .zero (Octets.zero 32)).run
    ((Ledger.empty { limits := { keysPerPage := 1 } }).putAccount
      { account := .zero, balance := 100000000 })).2

/-- Stores a list of one signer. -/
def set : Transaction := .set .zero 1 [⟨.ofLow 1, 1⟩] 100000000

/-- The list and its page are stored. -/
@[irreducible] def ledger : Ledger := (set.apply start).2

/-- What has to be computed is computed at once, since keys are costly. -/
theorem entries_start_ledger :
    ((View.contents start).entries (Slot.account .zero).key =
        some (.accountRoot { account := .zero, balance := 100000000 }) ∧
      (View.contents start).entries (signersKey .zero) = none ∧
      (View.contents start).entries (ownerDirectoryKey .zero) = some (.directoryPage
        { root := ownerDirectoryKey .zero, owner := some .zero, keys := [Octets.zero 32] }) ∧
      (View.contents start).entries (Slot.page (ownerDirectoryKey .zero) 1).key = none) ∧
    (set.apply start).1.effect? = some (.replaced .legacy 3 0 1 3) ∧
    ((View.contents ledger).entries (Slot.account .zero).key =
        some (.accountRoot { account := .zero, balance := 100000000, ownerCount := 3 }) ∧
      (View.contents ledger).entries (signersKey .zero) = some (.signerList
        { quorum := 1, signers := [⟨.ofLow 1, 1⟩], accounting := .legacy, page := 1 }) ∧
      (View.contents ledger).entries (ownerDirectoryKey .zero) = some (.directoryPage
        { root := ownerDirectoryKey .zero, owner := some .zero, keys := [Octets.zero 32], next := 1,
          previous := 1 }) ∧
      (View.contents ledger).entries (Slot.page (ownerDirectoryKey .zero) 1).key =
        some (.directoryPage
          { root := ownerDirectoryKey .zero, owner := some .zero, keys := [signersKey .zero] })) ∧
    KeysApart .zero (Octets.zero 32) := by
  decide +kernel

theorem onePage_start : OnePage (View.contents start) .zero (Octets.zero 32)
    { account := .zero, balance := 100000000 } := by
  obtain ⟨⟨hroot, hlist, hfirst, hlast⟩, -, -, hkeys⟩ := entries_start_ledger
  exact ⟨hroot, hlist, hfirst, hlast, hkeys⟩

theorem effect?_set : (set.apply start).1.effect? = some (.replaced .legacy 3 0 1 3) :=
  entries_start_ledger.2.1

theorem twoPages_ledger : TwoPages (View.contents ledger) .zero (Octets.zero 32)
    { account := .zero, balance := 100000000, ownerCount := 3 }
    { quorum := 1, signers := [⟨.ofLow 1, 1⟩], accounting := .legacy, page := 1 } := by
  obtain ⟨-, -, ⟨hroot, hlist, hfirst, hlast⟩, hkeys⟩ := entries_start_ledger
  exact ⟨hroot, hlist, hfirst, hlast, hkeys⟩

end TwoPages

end Cosign
