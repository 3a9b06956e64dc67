-- SUMMARY: Destroying a list that has just been stored restores the ledger to the last entry.
import Cosign.Proofs.OwnerCount
import Cosign.Proofs.TwoPages

/-!
# Restoration

Storing a list writes to the account's root, its directory and the list's own key.
Destroying the list takes all of it back: the units charged, the key in the
directory with any page that was appended for it, and the list
(`SignerList.run_destroy_replace`). That rules and fees have changed in between does
not matter, since the list says what it was charged (`System.destroy_restores`).
-/

namespace Cosign

open Inventory (Apart)

namespace SignerList

variable {id : AccountId} {N : Set UInt64} {before directory after later restored : Contents}
  {root : AccountRoot} {priorBalance : UInt64} {payload : Payload} {accounting : Accounting}
  {charged refunded : UInt32} {page : UInt64} {count : UInt32}

/-- What a list that is stored where there was none leaves in the ledger. -/
theorem run_replace_eq_ok_of_none (hnone : View.signerList? before id = none)
    (h : (replace id priorBalance payload).run before =
      (.ok (.replaced accounting charged refunded page count), after)) :
    ∃ list directory root, list.units = charged ∧ list.page = page ∧
      (OwnerDirectory.insert id (signersKey id)).run before = (.ok page, directory) ∧
      (directory.set (signersKey id) (some (.signerList list))).entries (Slot.account id).key =
        some (.accountRoot root) ∧
      after = (directory.set (signersKey id) (some (.signerList list))).set (Slot.account id).key
        (some (.accountRoot (root.adjustOwnerCount (Int64.ofNat charged.toNat)))) := by
  obtain ⟨_, _, _, _, _, hremove, -, -, hstore, heffect⟩ := run_replace_eq_ok h
  rw [run_remove_of_none hnone] at hremove
  cases hremove
  obtain ⟨-, hcharged, -, rfl, rfl⟩ := Effect.replaced.inj heffect
  obtain ⟨list, directory, root, hlist, hinsert, -, hroot, -, rfl⟩ := run_store_eq_ok hstore
  have hunits : list.units = charged := by
    rw [hcharged, hlist]
    rfl
  have hpage : list.page = page := by rw [hlist]
  exact ⟨list, directory, root, hunits, hpage, hinsert, hroot, by rw [hunits]⟩

/-- Once the directory is as it was, so is every other entry. -/
theorem entries_restored (hroot : before.entries (Slot.account id).key = some (.accountRoot root))
    (hlist : before.entries (signersKey id) = none)
    (hinserted : Directory.SameOutside (ownerDirectoryKey id) N before directory)
    (hlater : ∀ key, key ≠ signersKey id → key ≠ (Slot.account id).key →
      later.entries key = directory.entries key)
    (hremoved : Directory.SameOutside (ownerDirectoryKey id) N later restored)
    (hpages : Directory.SamePages (ownerDirectoryKey id) N before restored) :
    ((restored.set (Slot.account id).key (some (.accountRoot root))).set
      (signersKey id) none).entries = before.entries := by
  funext key
  rcases Decidable.em (key = signersKey id) with rfl | hnelist
  · rw [Contents.entries_set_self, hlist]
  rw [Contents.entries_set_of_ne _ hnelist]
  rcases Decidable.em (key = (Slot.account id).key) with rfl | hneroot
  · rw [Contents.entries_set_self, hroot]
  rw [Contents.entries_set_of_ne _ hneroot]
  rcases Classical.em (∃ i ∈ N, key = (Slot.page (ownerDirectoryKey id) i).key) with
    ⟨i, hi, rfl⟩ | hnepage
  · exact hpages i hi
  · have hoff : ∀ i ∈ N, key ≠ (Slot.page (ownerDirectoryKey id) i).key :=
      fun i hi heq => hnepage ⟨i, hi, heq⟩
    rw [hremoved.entries _ hoff, hlater key hnelist hneroot, hinserted.entries _ hoff]

/-- What is stored for an account without a list can be destroyed without a trace. -/
theorem run_destroy_replace (hapart : Apart id N)
    (hroot : before.entries (Slot.account id).key = some (.accountRoot root))
    (hkey : root.hasAlternativeKey = true) (hlist : before.entries (signersKey id) = none)
    (hdirectory : Directory.Without (ownerDirectoryKey id) N (signersKey id) before)
    (hreplace : (replace id priorBalance payload).run before =
      (.ok (.replaced accounting charged refunded page count), after))
    (hpage : page ∈ N) (hfits : root.ownerCount.toNat + charged.toNat < 4294967296)
    (hsame : later.entries = after.entries) :
    ∃ restored, (destroy id).run later = (.ok (.destroyed charged), restored) ∧
      restored.entries = before.entries := by
  obtain ⟨list, directory, root', rfl, rfl, hinsert, hroot', rfl⟩ :=
    run_replace_eq_ok_of_none (View.signerList?_of_entries hlist) hreplace
  have hlater : ∀ key, key ≠ signersKey id → key ≠ (Slot.account id).key →
      later.entries key = directory.entries key := by
    intro key hnelist hneroot
    rw [hsame, Contents.entries_set_of_ne _ hneroot, Contents.entries_set_of_ne _ hnelist]
  obtain ⟨hinserted, restored, hdelete, hremoved, hpages⟩ :=
    hdirectory.undone hapart.pages hapart.zero hinsert hpage
      fun i hi => hlater _ (hapart.signers i hi).symm (hapart.account i hi).symm
  obtain rfl : root' = root := by
    rw [Contents.entries_set_of_ne _ hapart.signers_ne_account.symm,
      hinserted.entries _ hapart.account, hroot] at hroot'
    cases hroot'
    rfl
  have hstored : later.entries (signersKey id) = (some list).map Entry.signerList := by
    rw [hsame, Contents.entries_set_of_ne _ hapart.signers_ne_account, Contents.entries_set_self]
    rfl
  have hcharged : later.entries (Slot.account id).key =
      (some (root'.adjustOwnerCount (Int64.ofNat list.units.toNat))).map Entry.accountRoot := by
    rw [hsame, Contents.entries_set_self]
    rfl
  have hremove := run_remove_of_some (View.signerList?_of_entries hstored) hdelete
    ((hremoved.entries _ hapart.account).trans hcharged)
    ((hremoved.entries _ hapart.signers).trans hstored) hapart.signers_ne_account
  rw [AccountRoot.adjustOwnerCount_add_sub hfits] at hremove
  refine ⟨_, ?_, entries_restored hroot hlist hinserted hlater hremoved hpages⟩
  rw [run_destroy (View.account?_of_entries hcharged), if_pos (by exact hkey), Procedure.run_bind,
    hremove]
  rfl

end SignerList

/-! ## Transactions -/

section

variable {tx : Transaction} {N : Set UInt64} {ledger later : Ledger} {root : AccountRoot}
  {accounting : Accounting} {charged refunded : UInt32} {page : UInt64} {count : UInt32}

/-- What a transaction has stored for an account without a list another one can destroy. Then every entry
is what it was. -/
theorem Transaction.apply_destroy (hapart : Apart tx.account N)
    (hroot : View.account? ledger tx.account = some root) (hkey : root.hasAlternativeKey = true)
    (hlist : View.find? ledger (signersKey tx.account) = none)
    (hdirectory : Directory.Without (ownerDirectoryKey tx.account) N (signersKey tx.account)
      (View.contents ledger))
    (heffect : (tx.apply ledger).1.effect? =
      some (.replaced accounting charged refunded page count))
    (hpage : page ∈ N) (hfits : root.ownerCount.toNat + charged.toNat < 4294967296)
    (hlater : later.entries = (tx.apply ledger).2.entries) (balance : UInt64) :
    ∃ changes restored,
      (destroy tx.account balance).apply later = (.success (.destroyed charged) changes, restored) ∧
        restored.entries = ledger.entries := by
  have hrun := run_of_effect? heffect
  rcases run_enact_eq_ok hrun with ⟨payload, -, hreplace⟩ | ⟨-, hdestroy⟩
  · obtain ⟨_, hdestroy, hrestored⟩ := SignerList.run_destroy_replace hapart
      (View.entries_of_account? hroot) hkey hlist hdirectory hreplace hpage hfits
      (Ledger.entries_eq_iff.1 hlater)
    have hpreflight : (destroy tx.account balance).preflight =
        .ok ⟨tx.account, balance, .destroy⟩ := rfl
    obtain ⟨changes, restored, happly, rfl⟩ :=
      apply_ok ((run_enact_of_preflight hpreflight _).trans hdestroy)
    exact ⟨changes, restored, happly, Ledger.entries_eq_iff.2 hrestored⟩
  · obtain ⟨_, _, -, -, -, heffect⟩ := SignerList.run_destroy_eq_ok hdestroy
    cases heffect

end

/-! ## Systems -/

/-- As long as nothing is applied, the entries stay and a service that has not halted goes on. -/
theorem History.idle {start now : System} {records : List (Transaction × Report)}
    (h : History start records now) (hnone : records = [])
    (hready : start.service.halted? = none) :
    now.service.halted? = none ∧ now.ledger.entries = start.ledger.entries := by
  induction h with
  | start => exact ⟨hready, rfl⟩
  | setRules h rules ih => exact ih hnone
  | setFees h fees ih => exact ih hnone
  | resume h ih => exact ⟨rfl, (ih hnone).2⟩
  | apply h tx ih =>
      obtain ⟨hnone, hrecord⟩ := List.append_eq_nil_iff.1 hnone
      rw [System.record_of_ready (ih hnone).1] at hrecord
      cases hrecord

namespace System

variable {system later : System} {tx : Transaction} {N : Set UInt64} {root : AccountRoot}
  {report : Report} {accounting : Accounting} {charged refunded : UInt32} {page : UInt64}
  {count : UInt32}

/-- A list that has been stored for an account without one can be destroyed, whatever rules and fees
are in force by then. The charge is refunded and every entry is again what it was. -/
theorem destroy_restores (hapart : Apart tx.account N)
    (hroot : View.account? system.ledger tx.account = some root)
    (hkey : root.hasAlternativeKey = true)
    (hlist : View.find? system.ledger (signersKey tx.account) = none)
    (hdirectory : Directory.Without (ownerDirectoryKey tx.account) N (signersKey tx.account)
      (View.contents system.ledger))
    (hset : (system.apply tx).1 = .ok report)
    (heffect : report.effect? = some (.replaced accounting charged refunded page count))
    (hpage : page ∈ N) (hfits : root.ownerCount.toNat + charged.toNat < 4294967296)
    (hlater : History (system.apply tx).2 [] later) (balance : UInt64) :
    ∃ changes,
      (later.apply (.destroy tx.account balance)).1 = .ok (.success (.destroyed charged) changes) ∧
        (later.apply (.destroy tx.account balance)).2.ledger.entries = system.ledger.entries := by
  cases hhalted : system.service.halted? with
  | some halted =>
      rw [apply_of_halted hhalted] at hset
      cases hset
  | none =>
      rw [apply_of_ready hhalted] at hset hlater
      cases hset
      obtain ⟨_, _, happly, -⟩ := Transaction.apply_ok (Transaction.run_of_effect? heffect)
      have hready := Service.halted?_note_success hhalted
      obtain ⟨hready, hentries⟩ := hlater.idle rfl (by rw [happly]; exact hready _ _)
      obtain ⟨changes, restored, hdestroy, hrestored⟩ := Transaction.apply_destroy hapart hroot hkey
        hlist hdirectory heffect hpage hfits hentries balance
      rw [apply_of_ready hready, hdestroy]
      exact ⟨changes, rfl, hrestored⟩

/-- With one key to a page, the list goes to a page of its own after that of another key. When it is
destroyed, lists count one unit where three were charged. -/
theorem destroy_restores_appended :
    let start : System := ⟨{}, TwoPages.start⟩
    let set := TwoPages.set
    let later := ((start.apply set).2.setRules { multiSignReserve := true }).setFees { reserve := 7 }
    (set.apply start.ledger).1.effect? = some (.replaced .legacy 3 0 1 3) ∧
      ∃ changes,
        (later.apply (.destroy set.account 0)).1 = .ok (.success (.destroyed 3) changes) ∧
          (later.apply (.destroy set.account 0)).2.ledger.entries = start.ledger.entries := by
  intro start set later
  have heffect : (set.apply start.ledger).1.effect? = some (.replaced .legacy 3 0 1 3) :=
    TwoPages.effect?_set
  have hpage := TwoPages.onePage_start
  have hapart : Apart set.account { number | number ∈ [0, 1] } := hpage.keys.apart
  have hroot : View.account? start.ledger set.account =
      some { account := .zero, balance := 100000000 } := hpage.account?_eq
  have hlist : View.find? start.ledger (signersKey set.account) = none := hpage.list
  have hset : (start.apply set).1 = .ok (set.apply start.ledger).1 :=
    congrArg Prod.fst (apply_of_ready rfl set)
  have hlater : History (start.apply set).2 [] later := (History.start.setRules _).setFees _
  exact ⟨heffect, destroy_restores hapart hroot rfl hlist hpage.without hset heffect (by simp)
    (by decide) hlater 0⟩

end System

end Cosign
