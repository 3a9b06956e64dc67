-- SUMMARY: Whatever is done to a ledger of accounts and signer lists keeps its estates in order.
import Cosign.Proofs.Holdings

/-!
# Upkeep

A ledger is kept in order if it holds nothing but the estates of some accounts
and each of these is in order: the owner count is what the list was charged, the
list is on the root page and its signers ascend. Putting accounts, changing rules
and fees, applying transactions and removing lists all keep a ledger in order,
and so does every run of such steps (`Run.kept`).
-/

namespace Cosign

open Estate

/-! ## Estates in order -/

namespace Estate

structure Orderly (id : AccountId) (estate : Estate) : Prop extends Placed estate where
  account : ∀ root, estate.root? = some root → root.account = id
  count : ∀ root, estate.root? = some root → root.ownerCount = estate.units
  ascends : ∀ list, estate.list? = some list → Audit.ascends list.signers = true

variable {id : AccountId} {contents : Contents} {estate : Estate} {root : AccountRoot}

theorem Orderly.empty (id : AccountId) : Orderly id ⟨none, none⟩ where
  root _ := rfl
  page _ h := nomatch h
  account _ h := nomatch h
  count _ h := nomatch h
  ascends _ h := nomatch h

/-- Once the list is gone its units are given back, and the account owns nothing. -/
theorem Orderly.cleared (h : Orderly id estate) : Orderly id estate.cleared := by
  obtain ⟨root?, list?⟩ := estate
  cases list? with
  | none => exact h
  | some list =>
      constructor
      · exact h.toPlaced.cleared
      · intro root hroot
        obtain ⟨old, rfl, rfl⟩ := Option.map_eq_some_iff.1 hroot
        exact h.account old rfl
      · intro root hroot
        obtain ⟨old, rfl, rfl⟩ := Option.map_eq_some_iff.1 hroot
        have hcount : old.ownerCount = list.units := h.count old rfl
        rw [← UInt32.toNat_inj, AccountRoot.toNat_adjustOwnerCount_sub, hcount, Nat.sub_self]
        rfl
      · intro other hother
        cases hother

/-- An account that owns nothing and stores a list owns that list. -/
theorem Orderly.withList (h : Orderly id ⟨some root, none⟩) {payload : Payload}
    (hascends : Audit.ascends payload.signers = true) (accounting : Accounting) :
    Orderly id (withList root (stored payload accounting)) := by
  constructor
  · exact placed_withList root payload accounting
  · rintro changed ⟨⟩
    exact h.account root rfl
  · rintro changed ⟨⟩
    have hzero : root.ownerCount = 0 := h.count root rfl
    have hunits := (stored payload accounting).units.toNat_lt
    rw [← UInt32.toNat_inj, AccountRoot.toNat_adjustOwnerCount_add, hzero, UInt32.toNat_zero,
      Nat.zero_add, Nat.min_eq_left (by omega)]
    rfl
  · rintro list ⟨⟩
    exact hascends

/-- A transaction leaves its account's estate in order. -/
theorem Orderly.enacted {terms : Terms} {tx : Transaction} {effect : Effect} {estate' : Estate}
    (h : Orderly id estate) (henacted : Enacted terms tx estate effect estate') :
    Orderly id estate' := by
  cases henacted with
  | @replaced payload root hpreflight hroot =>
      have hbare : Orderly id ⟨some root, none⟩ := by
        rw [← hroot, ← estate.list?_cleared]
        exact h.cleared
      exact hbare.withList
        (Audit.ascends_of_pairwise (Transaction.ascending_of_preflight hpreflight rfl)) _
  | destroyed hroot hkey => exact h.cleared

end Estate

/-! ## Ledgers in order -/

theorem Ledger.find?_empty (terms : Terms) (key : Key) :
    View.find? (Ledger.empty terms) key = none := by
  simp [Ledger.find?_eq, Ledger.empty]

/-- In an empty ledger every account's estate is empty. -/
theorem Estate.holds_empty (terms : Terms) (id : AccountId) :
    Holds (View.contents (Ledger.empty terms)) id ⟨none, none⟩ where
  root := Ledger.find?_empty terms _
  directory := Ledger.find?_empty terms _
  list := Ledger.find?_empty terms _

theorem Estate.confined_empty {accounts : Set AccountId} (terms : Terms) :
    Confined accounts (View.contents (Ledger.empty terms)) := by
  intro key entry hentry
  cases (Ledger.find?_empty terms key).symm.trans hentry

/-- The contents are estates in order and nothing else. -/
structure Kept (accounts : Set AccountId) (contents : Contents) : Prop where
  each : ∀ id ∈ accounts, ∃ estate, Holds contents id estate ∧ Orderly id estate
  only : ∀ key entry, contents.entries key = some entry →
    ∃ id ∈ accounts, ∃ slot ∈ slots id, key = slot.key

namespace Kept

variable {accounts : Set AccountId} {contents contents' : Contents} {id : AccountId}
  {estate : Estate}

theorem empty {terms : Terms} : Kept accounts (View.contents (Ledger.empty terms)) where
  each id _ := ⟨⟨none, none⟩, holds_empty terms id, .empty id⟩
  only := confined_empty terms

/-- Terms do not matter. -/
theorem congr (h : Kept accounts contents) (hsame : contents'.entries = contents.entries) :
    Kept accounts contents' where
  each := Each.congr h.each hsame
  only key entry hentry := h.only key entry (hsame ▸ hentry)

/-- An estate in order can be put in place of another. -/
theorem put (h : Kept accounts contents) (hapart : SlotsApart accounts) (hid : id ∈ accounts)
    (horderly : Orderly id estate) : Kept accounts (put contents id estate) where
  each := Each.put h.each hapart hid horderly fun _ _ _ horderly' => horderly'
  only := Confined.put h.only hid estate

end Kept

/-! ## Steps -/

theorem Ledger.contents_putAccount (ledger : Ledger) (root : AccountRoot) :
    View.contents (ledger.putAccount root) =
      (View.contents ledger).set (Slot.account root.account).key (some (.accountRoot root)) := by
  refine Contents.ext rfl (funext fun key => ?_)
  by_cases hkey : key = (Slot.account root.account).key
  · subst hkey
    simp [View.contents, Ledger.find?_eq, Ledger.putAccount]
  · rw [Contents.entries_set_of_ne _ hkey]
    simp [View.contents, Ledger.find?_eq, Ledger.putAccount, Std.ExtTreeMap.getElem?_insert,
      Ne.symm hkey]

/-- To put a root is to put the estate with that root. -/
theorem Estate.Holds.set_root {contents : Contents} {id : AccountId} {estate : Estate}
    (h : Holds contents id estate) (hapart : Apart id) (root : AccountRoot) :
    contents.set (Slot.account id).key (some (.accountRoot root)) =
      put contents id { estate with root? := some root } := by
  have hholds : Holds (contents.set (Slot.account id).key (some (.accountRoot root))) id
      { estate with root? := some root } := by
    constructor
    · exact Contents.entries_set_self _ _ _
    · rw [Contents.entries_set_of_ne _ hapart.directory_ne_account, h.directory]
    · rw [Contents.entries_set_of_ne _ hapart.signers_ne_account, h.list]
  apply hholds.ext (holds_put hapart _ _) rfl
  intro key hkey
  rw [entries_put_of_ne hkey, Contents.entries_set_of_ne _ (hkey (.account id) (by simp [slots]))]

namespace Kept

variable {accounts : Set AccountId} {ledger : Ledger}

/-- A root may be put if its owner count is the one that is stored, or zero for a new account. -/
theorem putAccount (h : Kept accounts (View.contents ledger)) (hapart : SlotsApart accounts)
    {root : AccountRoot} (hid : root.account ∈ accounts)
    (hcount : root.ownerCount =
      ((View.account? ledger root.account).map AccountRoot.ownerCount).getD 0) :
    Kept accounts (View.contents (ledger.putAccount root)) := by
  obtain ⟨estate, hholds, horderly⟩ := h.each root.account hid
  have hroot : View.account? ledger root.account = estate.root? := hholds.account?_eq
  rw [Ledger.contents_putAccount, hholds.set_root (hapart.apart hid)]
  apply h.put hapart hid
  constructor
  · constructor
    · intro hnone
      cases hnone
    · exact horderly.page
  · rintro other ⟨⟩
    rfl
  · rintro other ⟨⟩
    rw [hcount, hroot]
    cases hold : estate.root? with
    | some old => exact horderly.count old hold
    | none => simp [Estate.units, horderly.root hold]
  · exact horderly.ascends

/-- A list may be removed without asking its owner. -/
theorem remove (h : Kept accounts (View.contents ledger)) (hapart : SlotsApart accounts)
    {id : AccountId} (hid : id ∈ accounts) :
    Kept accounts (View.contents ((SignerList.remove id).transact ledger).2) := by
  obtain ⟨estate, hholds, horderly⟩ := h.each id hid
  obtain ⟨changes, changed, htransact, hchanged⟩ :=
    Procedure.transact_ok (hholds.run_remove (hapart.apart hid) horderly.toPlaced)
  rw [htransact, hchanged]
  exact h.put hapart hid horderly.cleared

theorem apply (h : Kept accounts (View.contents ledger)) (hapart : SlotsApart accounts)
    {tx : Transaction} (hid : tx.account ∈ accounts) :
    Kept accounts (View.contents (tx.apply ledger).2) ∧
      (View.account? ledger tx.account ≠ none →
        (tx.apply ledger).1.code.isInternal = false) := by
  obtain ⟨estate, hholds, horderly⟩ := h.each tx.account hid
  have hroot : View.account? ledger tx.account = estate.root? := hholds.account?_eq
  rcases hholds.apply (hapart.apart hid) horderly.toPlaced with
    ⟨effect, estate', changes, changed, happly, hchanged, henacted⟩ | ⟨rejection, happly, hcode⟩
  · rw [happly, hchanged]
    exact ⟨h.put hapart hid (horderly.enacted henacted), fun _ => rfl⟩
  · rw [happly, hroot]
    exact ⟨h, hcode⟩

end Kept

/-! ## Runs -/

/-- What can become of an empty ledger and a new service when only the accounts given are named. -/
inductive Run (accounts : Set AccountId) (terms : Terms) (config : Config) :
    Service → Ledger → Prop
  | start : Run accounts terms config (.ofConfig config) (.empty terms)
  | putAccount {service : Service} {ledger : Ledger} (h : Run accounts terms config service ledger)
      (root : AccountRoot) (hnamed : root.account ∈ accounts)
      (hcount : root.ownerCount =
        ((View.account? ledger root.account).map AccountRoot.ownerCount).getD 0) :
      Run accounts terms config service (ledger.putAccount root)
  | setRules {service : Service} {ledger : Ledger} (h : Run accounts terms config service ledger)
      (rules : Rules) : Run accounts terms config service (ledger.setRules rules)
  | setFees {service : Service} {ledger : Ledger} (h : Run accounts terms config service ledger)
      (fees : Fees) : Run accounts terms config service (ledger.setFees fees)
  | resume {service : Service} {ledger : Ledger} (h : Run accounts terms config service ledger) :
      Run accounts terms config service.resume ledger
  | apply {service service' : Service} {ledger ledger' : Ledger}
      (h : Run accounts terms config service ledger) (tx : Transaction)
      (hnamed : tx.account ∈ accounts) (report : Report)
      (happly : service.apply ledger tx = .ok (report, service', ledger')) :
      Run accounts terms config service' ledger'
  | refuse {service : Service} {ledger : Ledger} (h : Run accounts terms config service ledger)
      (tx : Transaction) (hnamed : tx.account ∈ accounts) (halted : Halted)
      (happly : service.apply ledger tx = .error halted) : Run accounts terms config service ledger
  | remove {service : Service} {ledger : Ledger} (h : Run accounts terms config service ledger)
      (id : AccountId) (hnamed : id ∈ accounts) :
      Run accounts terms config service ((SignerList.remove id).transact ledger).2

variable {accounts : Set AccountId} {terms : Terms} {config : Config} {service : Service}
  {ledger : Ledger}

/-- Every step keeps a ledger in order. -/
theorem Run.kept (h : Run accounts terms config service ledger) (hapart : SlotsApart accounts) :
    Kept accounts (View.contents ledger) := by
  induction h with
  | start => exact .empty
  | putAccount h root hnamed hcount ih => exact ih.putAccount hapart hnamed hcount
  | setRules h rules ih => exact ih.congr rfl
  | setFees h fees ih => exact ih.congr rfl
  | resume h ih => exact ih
  | apply h tx hnamed report happly ih =>
      rw [(Service.apply_eq_ok happly).2]
      exact (ih.apply hapart hnamed).1
  | refuse h tx hnamed halted happly ih => exact ih
  | remove h id hnamed ih => exact ih.remove hapart hnamed

end Cosign
