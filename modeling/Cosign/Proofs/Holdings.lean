-- SUMMARY: What a transaction does to its account's estate, and to a ledger that holds many of them.
import Cosign.Proofs.Estate
import Cosign.Proofs.System

/-!
# Holdings

On a ledger that holds its account's estate, a transaction either changes the
estate in one of two ways and nothing else (`Enacted`), or is rejected and
changes nothing (`Holds.apply`). If the slots of some accounts have different
keys, each of them keeps its estate while another's is changed (`Each.put`).
-/

namespace Cosign

namespace Estate

variable {id : AccountId} {contents contents' : Contents} {estate estate' : Estate}

/-! ## Transactions -/

theorem root?_cleared_eq_none (h : estate.root? = none) : estate.cleared.root? = none := by
  unfold Estate.cleared
  split
  · exact h
  · rw [h]
    rfl

/-- Losing the list makes no difference to an account's keys. -/
theorem exists_root?_cleared {root : AccountRoot} (h : estate.root? = some root) :
    ∃ root', estate.cleared.root? = some root' ∧
      root'.hasAlternativeKey = root.hasAlternativeKey := by
  unfold Estate.cleared
  split
  · exact ⟨root, h, rfl⟩
  · rw [h]
    exact ⟨_, rfl, rfl⟩

/-- What a transaction that succeeds does, and what it makes of its account's estate. -/
inductive Enacted (terms : Terms) (tx : Transaction) (estate : Estate) : Effect → Estate → Prop
  | replaced {payload : Payload} {root : AccountRoot}
      (hpreflight : tx.preflight = .ok ⟨tx.account, tx.priorBalance, .replace payload⟩)
      (hroot : estate.cleared.root? = some root) :
      Enacted terms tx estate
        (.replaced terms.rules.accounting
          (terms.rules.accounting.units payload.signers.length) estate.units 0
          (root.adjustOwnerCount (Int64.ofNat
            (stored payload terms.rules.accounting).units.toNat)).ownerCount)
        (withList root (stored payload terms.rules.accounting))
  | destroyed {root : AccountRoot} (hroot : estate.root? = some root)
      (hkey : root.hasAlternativeKey = true) :
      Enacted terms tx estate (.destroyed estate.units) estate.cleared

/-- A transaction succeeds on its account's estate, or fails; and only if there is no account, as if
the ledger were inconsistent. -/
theorem Holds.run_enact {tx : Transaction} (h : Holds contents tx.account estate)
    (hapart : Apart tx.account) (hplaced : Placed estate) :
    (∃ effect estate', tx.enact.run contents = (.ok effect, put contents tx.account estate') ∧
        Enacted contents.terms tx estate effect estate') ∨
      (∃ rejection contents', tx.enact.run contents = (.error rejection, contents') ∧
        (estate.root? ≠ none → rejection.code.isInternal = false)) := by
  have hremove := h.run_remove hapart hplaced
  have hcleared := holds_put hapart contents estate.cleared
  cases hroot : estate.root? with
  | none =>
      have hmissing := hcleared.account?_eq.trans (root?_cleared_eq_none hroot)
      obtain ⟨rejection, after, hrun⟩ :=
        Transaction.run_enact_of_missing hremove (h.account?_eq.trans hroot) hmissing
      exact .inr ⟨rejection, after, hrun, absurd rfl⟩
  | some root =>
      obtain ⟨root', hroot', -⟩ := exists_root?_cleared hroot
      rcases Transaction.run_enact_of_remove hremove (h.account?_eq.trans hroot)
          (hcleared.account?_eq.trans hroot') with
        ⟨rejection, after, hrun, hcode⟩ | ⟨hkey, hrun⟩ | ⟨payload, hpreflight, -, hrun⟩
      · exact .inr ⟨rejection, after, hrun, fun _ => hcode⟩
      · exact .inl ⟨_, _, hrun, .destroyed hroot hkey⟩
      · have hbare : Holds (put contents tx.account estate.cleared) tx.account
            ⟨some root', none⟩ := by
          rw [← hroot', ← estate.list?_cleared]
          exact hcleared
        rw [hrun, Procedure.run_bind, hbare.run_store hapart, put_put hapart]
        exact .inl ⟨_, _, rfl, .replaced hpreflight hroot'⟩

/-- The same for a ledger, which a rejected transaction leaves as it was. -/
theorem Holds.apply {tx : Transaction} {ledger : Ledger}
    (h : Holds (View.contents ledger) tx.account estate) (hapart : Apart tx.account)
    (hplaced : Placed estate) :
    (∃ effect estate' changes changed, tx.apply ledger = (.success effect changes, changed) ∧
        View.contents changed = put (View.contents ledger) tx.account estate' ∧
        Enacted ledger.terms tx estate effect estate') ∨
      (∃ rejection, tx.apply ledger = (.rejected rejection, ledger) ∧
        (estate.root? ≠ none → rejection.code.isInternal = false)) := by
  rcases h.run_enact hapart hplaced with ⟨effect, estate', hrun, henacted⟩ |
    ⟨rejection, contents', hrun, hcode⟩
  · obtain ⟨changes, changed, happly, hchanged⟩ := Transaction.apply_ok hrun
    exact .inl ⟨effect, estate', changes, changed, happly, hchanged, henacted⟩
  · exact .inr ⟨rejection, Transaction.apply_error hrun, hcode⟩

end Estate

open Estate

/-! ## Many accounts -/

/-- The slots of some accounts have different keys. -/
def SlotsApart (accounts : Set AccountId) : Prop :=
  ∀ id ∈ accounts, ∀ id' ∈ accounts, ∀ slot ∈ slots id, ∀ slot' ∈ slots id',
    slot.key = slot'.key → slot = slot'

theorem SlotsApart.apart {accounts : Set AccountId} (h : SlotsApart accounts) {id : AccountId}
    (hid : id ∈ accounts) : Apart id where
  directory_ne_account heq := by
    cases h id hid id hid (.ownerDirectory id) (by simp [slots]) (.account id) (by simp [slots]) heq
  signers_ne_account heq := by
    cases h id hid id hid (.signers id) (by simp [slots]) (.account id) (by simp [slots]) heq
  signers_ne_directory heq := by
    cases h id hid id hid (.signers id) (by simp [slots]) (.ownerDirectory id) (by simp [slots]) heq

/-- A slot of one account is none of another's. -/
theorem SlotsApart.ne {accounts : Set AccountId} (h : SlotsApart accounts) {id id' : AccountId}
    (hid : id ∈ accounts) (hid' : id' ∈ accounts) (hne : id ≠ id') {slot : Slot}
    (hslot : slot ∈ slots id) : ∀ slot' ∈ slots id', slot.key ≠ slot'.key := by
  intro slot' hslot' heq
  have hsame := h id hid id' hid' slot hslot slot' hslot' heq
  simp only [slots, List.mem_cons, List.not_mem_nil, or_false] at hslot hslot'
  rcases hslot with rfl | rfl | rfl <;> rcases hslot' with rfl | rfl | rfl <;> cases hsame <;>
    exact hne rfl

namespace Estate

variable {accounts : Set AccountId} {P Q : AccountId → Estate → Prop} {id : AccountId}
  {contents contents' : Contents} {estate : Estate}

/-- Every account has an estate, of which `P` holds. -/
def Each (accounts : Set AccountId) (P : AccountId → Estate → Prop) (contents : Contents) : Prop :=
  ∀ id ∈ accounts, ∃ estate, Holds contents id estate ∧ P id estate

theorem Holds.congr (h : Holds contents id estate)
    (hsame : ∀ slot ∈ slots id, contents'.entries slot.key = contents.entries slot.key) :
    Holds contents' id estate where
  root := (hsame (.account id) (by simp [slots])).trans h.root
  directory := (hsame (.ownerDirectory id) (by simp [slots])).trans h.directory
  list := (hsame (.signers id) (by simp [slots])).trans h.list

/-- Terms do not matter. -/
theorem Each.congr (h : Each accounts P contents) (hsame : contents'.entries = contents.entries) :
    Each accounts P contents' := by
  intro id hid
  obtain ⟨estate, hholds, hestate⟩ := h id hid
  exact ⟨estate, hholds.congr fun slot _ => congrFun hsame slot.key, hestate⟩

/-- Nothing is stored but in the slots of some accounts. -/
def Confined (accounts : Set AccountId) (contents : Contents) : Prop :=
  ∀ key entry, contents.entries key = some entry →
    ∃ id ∈ accounts, ∃ slot ∈ slots id, key = slot.key

theorem Confined.put (h : Confined accounts contents) (hid : id ∈ accounts) (estate : Estate) :
    Confined accounts (put contents id estate) := by
  intro key entry hentry
  by_cases hkey : ∀ slot ∈ slots id, key ≠ slot.key
  · rw [entries_put_of_ne hkey] at hentry
    exact h key entry hentry
  · push Not at hkey
    exact ⟨id, hid, hkey⟩

/-- One account's estate is exchanged, and all others stay. -/
theorem Each.put (h : Each accounts P contents) (hapart : SlotsApart accounts)
    (hid : id ∈ accounts) (hestate : Q id estate)
    (hothers : ∀ other ≠ id, ∀ estate, P other estate → Q other estate) :
    Each accounts Q (put contents id estate) := by
  intro other hother
  rcases eq_or_ne other id with rfl | hne
  · exact ⟨estate, holds_put (hapart.apart hother) contents estate, hestate⟩
  · obtain ⟨estate', hholds, hestate'⟩ := h other hother
    refine ⟨estate', hholds.congr ?_, hothers other hne estate' hestate'⟩
    intro slot hslot
    exact entries_put_of_ne (hapart.ne hother hid hne hslot) contents estate

end Estate

end Cosign
