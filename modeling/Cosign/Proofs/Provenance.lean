-- SUMMARY: Every signer list in a ledger has passed all checks and is the one its owner set last.
import Cosign.Proofs.Upkeep

/-!
# Provenance

A ledger that starts out empty comes to hold signer lists only through transactions
that set them. So at every moment of every chronicle each list is stored for an
account that has a root, it is what the account's last successful set asked for, with
the signers in order of their accounts, and it would pass the checks again
(`Chronicle.list_sourced`). Roots may be put over each other in any form meanwhile,
owner counts included, since no list depends on them.
-/

namespace Cosign

open Estate

/-! ## Lists and the transactions they come from -/

/-- A list as it may be stored for an account. -/
structure SignerList.Valid (list : SignerList) (owner : AccountId) : Prop where
  passes : Payload.check ⟨list.quorum, list.signers⟩ owner = .ok ()
  ascending : list.signers.Pairwise fun a b => a.account < b.account
  count : 1 ≤ list.signers.length ∧ list.signers.length ≤ 8
  weights : ∀ signer ∈ list.signers, 0 < signer.weight
  others : ∀ signer ∈ list.signers, signer.account ≠ owner
  quorum : 0 < list.quorum ∧ list.quorum.toNat ≤ totalWeight list.signers
  listId : list.listId = 0

/-- A transaction asks for a list of this quorum and these signers, in whatever order. -/
structure Transaction.AsksFor (tx : Transaction) (list : SignerList) : Prop where
  quorum : tx.quorum = list.quorum
  signers : ∃ listed : List Signer, tx.signers = some (listed.map .ofSigner) ∧
    listed.Perm list.signers

/-- The transactions by which an account has set its signer list, in order. -/
def sets (id : AccountId) (records : List (Transaction × Report)) : List Transaction :=
  records.filterMap fun (tx, report) =>
    if tx.account = id ∧ tx.signers.isSome ∧ report.code = .success then some tx else none

theorem sets_append (id : AccountId) (records more : List (Transaction × Report)) :
    sets id (records ++ more) = sets id records ++ sets id more :=
  List.filterMap_append

theorem sets_success {tx : Transaction} (hsigners : tx.signers.isSome) (effect : Effect)
    (changes : Nat) : sets tx.account [(tx, .success effect changes)] = [tx] := by
  simp [sets, Report.success, hsigners]

theorem sets_of_ne {id : AccountId} {tx : Transaction} (hne : tx.account ≠ id) (report : Report) :
    sets id [(tx, report)] = [] := by
  simp [sets, hne]

theorem sets_rejected (id : AccountId) (tx : Transaction) (rejection : Rejection) :
    sets id [(tx, .rejected rejection)] = [] := by
  simp [sets, Report.rejected, rejection.code_ne_success]

section Accepted

variable {tx : Transaction} {request : Request} {payload : Payload}
  (hpreflight : tx.preflight = .ok request) (haction : request.action = .replace payload)
include hpreflight haction

/-- What is stored for an accepted replacement is valid. -/
theorem Estate.valid_stored (accounting : Accounting) :
    (stored payload accounting).Valid tx.account := by
  obtain ⟨hcheck, -⟩ := Transaction.preflight_eq_replace hpreflight haction
  have hfit := Payload.check_eq_ok_iff.1 hcheck
  constructor
  · exact hcheck
  · exact Transaction.ascending_of_preflight hpreflight haction
  · exact hfit.counted
  · exact hfit.weighted
  · intro signer hsigner howner
    exact hfit.foreign (List.mem_map.2 ⟨signer, hsigner, howner⟩)
  · exact ⟨hfit.reachable.1, payload.totalWeight_eq_weight ▸ hfit.reachable.2⟩
  · rfl

theorem Estate.asksFor_stored (accounting : Accounting) :
    tx.AsksFor (stored payload accounting) := by
  obtain ⟨-, listed, hlisted, rfl⟩ := Transaction.preflight_eq_replace hpreflight haction
  exact ⟨rfl, listed, hlisted, (arrange_perm _ listed).symm⟩

end Accepted

/-! ## Estates -/

namespace Estate

variable {id : AccountId} {records : List (Transaction × Report)} {estate estate' : Estate}

/-- The list, if there is one, is valid and the one that was set last. -/
structure Sourced (records : List (Transaction × Report)) (id : AccountId)
    (estate : Estate) : Prop extends Placed estate where
  valid : ∀ list, estate.list? = some list → list.Valid id
  source : ∀ list, estate.list? = some list →
    ∃ tx, (sets id records).getLast? = some tx ∧ tx.AsksFor list

theorem Sourced.empty (id : AccountId) : Sourced [] id ⟨none, none⟩ where
  root _ := rfl
  page _ h := nomatch h
  valid _ h := nomatch h
  source _ h := nomatch h

/-- Whatever root is put, the list is still the one that was set. -/
theorem Sourced.withRoot (h : Sourced records id estate) (root : AccountRoot) :
    Sourced records id { estate with root? := some root } where
  root hroot := nomatch hroot
  page := h.page
  valid := h.valid
  source := h.source

/-- Without a list there is nothing to account for. -/
theorem Sourced.cleared (h : Placed estate) (records : List (Transaction × Report))
    (id : AccountId) : Sourced records id estate.cleared where
  toPlaced := h.cleared
  valid _ hlist := nomatch estate.list?_cleared.symm.trans hlist
  source _ hlist := nomatch estate.list?_cleared.symm.trans hlist

/-- A transaction that succeeds leaves the list that it asks for, or none. -/
theorem Sourced.enacted {tx : Transaction} {terms : Terms} {effect : Effect}
    (h : Sourced records tx.account estate) (henacted : Enacted terms tx estate effect estate')
    (changes : Nat) :
    Sourced (records ++ [(tx, .success effect changes)]) tx.account estate' := by
  cases henacted with
  | @replaced payload root hpreflight hroot =>
      have hasks := asksFor_stored hpreflight rfl terms.rules.accounting
      obtain ⟨listed, hlisted, -⟩ := hasks.signers
      constructor
      · exact placed_withList root payload terms.rules.accounting
      · rintro list ⟨⟩
        exact valid_stored hpreflight rfl terms.rules.accounting
      · rintro list ⟨⟩
        refine ⟨tx, ?_, hasks⟩
        rw [sets_append, sets_success (by rw [hlisted]; rfl)]
        exact List.getLast?_concat
  | destroyed hroot hkey => exact .cleared h.toPlaced _ _

/-- A report that concerns none of the account's sets makes no difference. -/
theorem Sourced.append (h : Sourced records id estate) {tx : Transaction} {report : Report}
    (hnone : sets id [(tx, report)] = []) : Sourced (records ++ [(tx, report)]) id estate where
  toPlaced := h.toPlaced
  valid := h.valid
  source := by
    rw [sets_append, hnone, List.append_nil]
    exact h.source

end Estate

/-! ## Ledgers -/

/-- The contents are estates whose lists are sourced, and nothing else. -/
structure Documented (accounts : Set AccountId) (records : List (Transaction × Report))
    (contents : Contents) : Prop where
  each : Each accounts (Sourced records) contents
  confined : Confined accounts contents

namespace Documented

variable {accounts : Set AccountId} {records : List (Transaction × Report)}
  {contents contents' : Contents} {ledger : Ledger} {id : AccountId} {estate : Estate}

theorem empty (terms : Terms) : Documented accounts [] (View.contents (Ledger.empty terms)) where
  each id _ := ⟨⟨none, none⟩, holds_empty terms id, .empty id⟩
  confined := confined_empty terms

/-- Terms do not matter. -/
theorem congr (h : Documented accounts records contents)
    (hsame : contents'.entries = contents.entries) : Documented accounts records contents' where
  each := h.each.congr hsame
  confined key entry hentry := h.confined key entry (hsame ▸ hentry)

/-- An estate whose list is sourced can be put in place of another. -/
theorem put (h : Documented accounts records contents) (hapart : SlotsApart accounts)
    (hid : id ∈ accounts) (hsourced : Sourced records id estate) :
    Documented accounts records (put contents id estate) where
  each := h.each.put hapart hid hsourced fun _ _ _ hother => hother
  confined := h.confined.put hid estate

theorem putAccount (h : Documented accounts records (View.contents ledger))
    (hapart : SlotsApart accounts) {root : AccountRoot} (hid : root.account ∈ accounts) :
    Documented accounts records (View.contents (ledger.putAccount root)) := by
  obtain ⟨estate, hholds, hsourced⟩ := h.each root.account hid
  rw [Ledger.contents_putAccount, hholds.set_root (hapart.apart hid)]
  exact h.put hapart hid (hsourced.withRoot root)

theorem remove (h : Documented accounts records (View.contents ledger))
    (hapart : SlotsApart accounts) (hid : id ∈ accounts) :
    Documented accounts records (View.contents ((SignerList.remove id).transact ledger).2) := by
  obtain ⟨estate, hholds, hsourced⟩ := h.each id hid
  obtain ⟨changes, changed, htransact, hchanged⟩ :=
    Procedure.transact_ok (hholds.run_remove (hapart.apart hid) hsourced.toPlaced)
  rw [htransact, hchanged]
  exact h.put hapart hid (.cleared hsourced.toPlaced records id)

theorem apply (h : Documented accounts records (View.contents ledger))
    (hapart : SlotsApart accounts) {tx : Transaction} (hid : tx.account ∈ accounts) :
    Documented accounts (records ++ [(tx, (tx.apply ledger).1)])
      (View.contents (tx.apply ledger).2) := by
  obtain ⟨estate, hholds, hsourced⟩ := h.each tx.account hid
  rcases hholds.apply (hapart.apart hid) hsourced.toPlaced with
    ⟨effect, estate', changes, changed, happly, hchanged, henacted⟩ | ⟨rejection, happly, -⟩
  · rw [happly, hchanged]
    constructor
    · apply h.each.put hapart hid (hsourced.enacted henacted changes)
      intro other hne estate hother
      exact hother.append (sets_of_ne hne.symm _)
    · exact h.confined.put hid estate'
  · rw [happly]
    constructor
    · intro other hother
      obtain ⟨estate, hholds, hsourced⟩ := h.each other hother
      exact ⟨estate, hholds, hsourced.append (sets_rejected other tx rejection)⟩
    · exact h.confined

/-- A list can only be where its owner's list belongs. -/
theorem list_eq (h : Documented accounts records contents) {key : Key} {list : SignerList}
    (hstored : contents.entries key = some (.signerList list)) :
    ∃ id ∈ accounts, key = signersKey id ∧
      ∃ estate, Holds contents id estate ∧ Sourced records id estate ∧
        estate.list? = some list := by
  obtain ⟨id, hid, slot, hslot, rfl⟩ := h.confined key _ hstored
  obtain ⟨estate, hholds, hsourced⟩ := h.each id hid
  simp only [slots, List.mem_cons, List.not_mem_nil, or_false] at hslot
  rcases hslot with rfl | rfl | rfl
  · obtain ⟨root, -, hroot⟩ := Option.map_eq_some_iff.1 (hholds.root.symm.trans hstored)
    cases hroot
  · obtain ⟨other, -, hpage⟩ := Option.map_eq_some_iff.1 (hholds.directory.symm.trans hstored)
    cases hpage
  · obtain ⟨other, hlist, heq⟩ := Option.map_eq_some_iff.1 (hholds.list.symm.trans hstored)
    cases heq
    exact ⟨id, hid, rfl, estate, hholds, hsourced, hlist⟩

end Documented

/-! ## Chronicles -/

/-- What can become of an empty ledger and a new service when only the accounts given are named, with
the transactions applied since and their reports. -/
inductive Chronicle (accounts : Set AccountId) (terms : Terms) (config : Config) :
    List (Transaction × Report) → System → Prop
  | start : Chronicle accounts terms config [] ⟨.ofConfig config, .empty terms⟩
  | putAccount {records : List (Transaction × Report)} {now : System}
      (h : Chronicle accounts terms config records now) (root : AccountRoot)
      (hnamed : root.account ∈ accounts) :
      Chronicle accounts terms config records { now with ledger := now.ledger.putAccount root }
  | setRules {records : List (Transaction × Report)} {now : System}
      (h : Chronicle accounts terms config records now) (rules : Rules) :
      Chronicle accounts terms config records (now.setRules rules)
  | setFees {records : List (Transaction × Report)} {now : System}
      (h : Chronicle accounts terms config records now) (fees : Fees) :
      Chronicle accounts terms config records (now.setFees fees)
  | resume {records : List (Transaction × Report)} {now : System}
      (h : Chronicle accounts terms config records now) :
      Chronicle accounts terms config records now.resume
  | apply {records : List (Transaction × Report)} {now : System}
      (h : Chronicle accounts terms config records now) (tx : Transaction)
      (hnamed : tx.account ∈ accounts) :
      Chronicle accounts terms config (records ++ now.record tx) (now.apply tx).2
  | remove {records : List (Transaction × Report)} {now : System}
      (h : Chronicle accounts terms config records now) (id : AccountId)
      (hnamed : id ∈ accounts) :
      Chronicle accounts terms config records
        { now with ledger := ((SignerList.remove id).transact now.ledger).2 }

namespace Chronicle

variable {accounts : Set AccountId} {terms : Terms} {config : Config}
  {records : List (Transaction × Report)} {now : System}

theorem documented (h : Chronicle accounts terms config records now)
    (hapart : SlotsApart accounts) : Documented accounts records (View.contents now.ledger) := by
  induction h with
  | start => exact .empty terms
  | putAccount h root hnamed ih => exact ih.putAccount hapart hnamed
  | setRules h rules ih => exact ih.congr rfl
  | setFees h fees ih => exact ih.congr rfl
  | resume h ih => exact ih
  | @apply records now h tx hnamed ih =>
      cases hhalted : now.service.halted? with
      | some halted =>
          rw [System.apply_of_halted hhalted, System.record_of_halted hhalted, List.append_nil]
          exact ih
      | none =>
          rw [System.apply_of_ready hhalted, System.record_of_ready hhalted]
          exact ih.apply hapart hnamed
  | remove h id hnamed ih => exact ih.remove hapart hnamed

/-- At every moment every list in the ledger is valid for an account that has a root, is stored at that
account's key, and is what the last transaction asked for by which the account has set a list. -/
theorem list_sourced (h : Chronicle accounts terms config records now)
    (hapart : SlotsApart accounts) {key : Key} {list : SignerList}
    (hstored : View.find? now.ledger key = some (.signerList list)) :
    ∃ id ∈ accounts, key = signersKey id ∧ View.account? now.ledger id ≠ none ∧ list.Valid id ∧
      ∃ tx, (sets id records).getLast? = some tx ∧ tx.AsksFor list := by
  obtain ⟨id, hid, hkey, estate, hholds, hsourced, hlist⟩ :=
    (h.documented hapart).list_eq hstored
  refine ⟨id, hid, hkey, ?_, hsourced.valid list hlist, hsourced.source list hlist⟩
  intro hmissing
  have hroot : estate.root? = none := hholds.account?_eq.symm.trans hmissing
  cases (hsourced.root hroot).symm.trans hlist

/-- The list was set under one root and is held under another. A later set that is rejected, for want
of a reserve, leaves it the last that succeeded. -/
theorem list_sourced_after_rejection :
    ∃ records now list, Chronicle {AccountId.zero} {} {} records now ∧
      View.find? now.ledger (signersKey .zero) = some (.signerList list) ∧
      (list.signers = [⟨.ofLow 1, 3⟩, ⟨.ofLow 2, 1⟩] ∧ records.length = 2) ∧
      ∃ id ∈ ({AccountId.zero} : Set AccountId), signersKey .zero = signersKey id ∧
        View.account? now.ledger id ≠ none ∧ list.Valid id ∧
          ∃ tx, (sets id records).getLast? = some tx ∧ tx.AsksFor list := by
  have hapart : SlotsApart {AccountId.zero} := by
    rintro _ rfl _ rfl
    decide +kernel
  have hmem : AccountId.zero ∈ ({AccountId.zero} : Set AccountId) := rfl
  have h : Chronicle {AccountId.zero} {} {} _ _ :=
    (((Chronicle.start.putAccount { account := .zero, balance := 100000000 } hmem).apply
      (.set .zero 2 [⟨.ofLow 2, 1⟩, ⟨.ofLow 1, 3⟩] 100000000) hmem).putAccount
        { account := .zero, balance := 5, ownerCount := 7 } hmem).apply
          (.set .zero 1 [⟨.ofLow 3, 1⟩] 5) hmem
  obtain ⟨records, now, h, hrecords, hstored⟩ :
      ∃ records now, Chronicle {AccountId.zero} {} {} records now ∧ records.length = 2 ∧
        View.find? now.ledger (signersKey .zero) = some (.signerList
          { quorum := 2, signers := [⟨.ofLow 1, 3⟩, ⟨.ofLow 2, 1⟩], accounting := .legacy }) :=
    ⟨_, _, h, by decide +kernel, by decide +kernel⟩
  exact ⟨records, now, _, h, hstored, ⟨rfl, hrecords⟩, h.list_sourced hapart hstored⟩

end Chronicle

end Cosign
