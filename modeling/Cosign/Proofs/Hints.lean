-- SUMMARY: The page that an entered key was put on stays its page, whatever else is done to the directory.
import Cosign.Proofs.Inventory

/-!
# Hints

Whoever enters a key in an account's directory is told its page and needs no more to
remove it later: the hint holds for as long as the key is there, although a
transaction of the account may have taken the signer list off one page and put it on
another, pages may have been appended and unlinked, and transactions may have been
rejected halfway (`Course.hints_hold`). The same goes for the hint in the signer
list itself, so a transaction never finds the ledger inconsistent.
-/

namespace Cosign

/-- Carries a procedure out on the ledger at once, without the service. -/
def System.direct {ε α : Type} (system : System) (procedure : Procedure ε α) :
    Except ε α × System :=
  let (result, ledger) := procedure.run system.ledger
  (result, { system with ledger })

/-- What a procedure does to what the ledger shows, it does to the system. -/
theorem System.direct_of_run {system : System} {ε α : Type} {procedure : Procedure ε α}
    {result : Except ε α} {after : Contents}
    (h : procedure.run (View.contents system.ledger) = (result, after)) :
    (system.direct procedure).1 = result ∧
      View.contents (system.direct procedure).2.ledger = after := by
  obtain ⟨hresult, hafter⟩ := Procedure.run_contents procedure system.ledger
  rw [h] at hresult hafter
  exact ⟨hresult, hafter⟩

/-- A key with the page it was put on, if it was. -/
def entered (key : Key) : Except LedgerError UInt64 → List (Key × UInt64)
  | .ok page => [(key, page)]
  | .error _ => []

/-- What can become of a system while an account sets and destroys its signer list and others enter
keys in its directory and remove them again. The keys of others that are there are `live`, each with
the page that it was put on. All pages that keys are put on have numbers in `N`. -/
inductive Course (id : AccountId) (N : Set UInt64) (start : System) :
    List (Key × UInt64) → System → Prop
  | start : Course id N start [] start
  | insert {live : List (Key × UInt64)} {now : System} (h : Course id N start live now) (key : Key)
      (hother : key ≠ signersKey id)
      (hpage : ∀ page,
        Directory.target? now.ledger (ownerDirectoryKey id) = some page → page ∈ N) :
      Course id N start (live ++ entered key (now.direct (OwnerDirectory.insert id key)).1)
        (now.direct (OwnerDirectory.insert id key)).2
  | remove {live : List (Key × UInt64)} {now : System} (h : Course id N start live now) (key : Key)
      (page : UInt64) (hlive : (key, page) ∈ live) :
      Course id N start (live.erase (key, page)) (now.direct (OwnerDirectory.remove id page key)).2
  | setRules {live : List (Key × UInt64)} {now : System} (h : Course id N start live now)
      (rules : Rules) : Course id N start live (now.setRules rules)
  | setFees {live : List (Key × UInt64)} {now : System} (h : Course id N start live now)
      (fees : Fees) : Course id N start live (now.setFees fees)
  | resume {live : List (Key × UInt64)} {now : System} (h : Course id N start live now) :
      Course id N start live now.resume
  | apply {live : List (Key × UInt64)} {now : System} (h : Course id N start live now)
      (tx : Transaction) (hsender : tx.account = id)
      (hpage : now.service.halted? = none →
        ∀ page, tx.target? now.ledger = some page → page ∈ N) :
      Course id N start live (now.apply tx).2

/-- All keys are on the pages they were put on. -/
structure HintsHold (id : AccountId) (N : Set UInt64) (live : List (Key × UInt64))
    (now : System) : Prop where
  /-- The directory lists the keys of others in the order in which they were entered and, just if
  there is a signer list, that list's key, once. -/
  keys : ∃ keys, (now.direct (OwnerDirectory.keys id)).1 = .ok keys ∧
    keys.filter (· ≠ signersKey id) = live.map Prod.fst ∧
    keys.count (signersKey id) = if (View.signerList? now.ledger id).isSome then 1 else 0
  /-- The signer list names the page that its key is on. -/
  own : ∀ list, View.signerList? now.ledger id = some list →
    ∃ page, View.page? now.ledger (ownerDirectoryKey id) list.page = some page ∧
      signersKey id ∈ page.keys
  /-- The keys of others can be removed from the pages that they were put on. -/
  others : ∀ key page, (key, page) ∈ live →
    (now.direct (OwnerDirectory.remove id page key)).1 = .ok ()
  /-- Unless the service has halted, a transaction that is applied finds nothing wrong. -/
  transactions : ∀ tx : Transaction, tx.account = id →
    (now.service.halted? = none → ∀ page, tx.target? now.ledger = some page → page ∈ N) →
      ∀ report, (now.apply tx).1 = .ok report → report.code.isInternal = false

namespace Inventory

variable {id : AccountId} {N : Set UInt64} {live : List (Key × UInt64)} {now : System}

/-- A system whose ledger holds an inventory. -/
def HeldBy (id : AccountId) (N : Set UInt64) (live : List (Key × UInt64)) (now : System) : Prop :=
  ∃ inventory, Holds (View.contents now.ledger) id N inventory ∧ Lists id live inventory

/-! ## Steps -/

theorem HeldBy.insert (h : HeldBy id N live now) (hapart : Apart id N) {key : Key}
    (hother : key ≠ signersKey id)
    (hpage : ∀ page, Directory.target? now.ledger (ownerDirectoryKey id) = some page → page ∈ N) :
    HeldBy id N (live ++ entered key (now.direct (OwnerDirectory.insert id key)).1)
      (now.direct (OwnerDirectory.insert id key)).2 := by
  obtain ⟨inventory, hholds, hlists⟩ := h
  rcases hholds.run_insert_other hlists hapart hother hpage with
    ⟨page, contents', inventory', hrun, hholds', hlists'⟩ | hrun
  · obtain ⟨hresult, hafter⟩ := System.direct_of_run hrun
    rw [hresult]
    exact ⟨inventory', hafter ▸ hholds', hlists'⟩
  · obtain ⟨hresult, hafter⟩ := System.direct_of_run hrun
    rw [hresult, entered, List.append_nil]
    exact ⟨inventory, hafter ▸ hholds, hlists⟩

theorem HeldBy.remove (h : HeldBy id N live now) (hapart : Apart id N) {key : Key} {page : UInt64}
    (hlive : (key, page) ∈ live) :
    (now.direct (OwnerDirectory.remove id page key)).1 = .ok () ∧
      HeldBy id N (live.erase (key, page)) (now.direct (OwnerDirectory.remove id page key)).2 := by
  obtain ⟨inventory, hholds, hlists⟩ := h
  obtain ⟨contents', inventory', hrun, hholds', hlists'⟩ :=
    hholds.run_remove_other hlists hapart hlive
  obtain ⟨hresult, hafter⟩ := System.direct_of_run hrun
  exact ⟨hresult, inventory', hafter ▸ hholds', hlists'⟩

theorem HeldBy.apply (h : HeldBy id N live now) (hapart : Apart id N) {tx : Transaction}
    (hsender : tx.account = id)
    (hpage : now.service.halted? = none →
      ∀ page, tx.target? now.ledger = some page → page ∈ N) :
    HeldBy id N live (now.apply tx).2 ∧
      ∀ report, (now.apply tx).1 = .ok report → report.code.isInternal = false := by
  subst hsender
  cases hhalted : now.service.halted? with
  | some halted =>
      rw [System.apply_of_halted hhalted]
      refine ⟨h, ?_⟩
      intro report hreport
      cases hreport
  | none =>
      rw [System.apply_of_ready hhalted]
      obtain ⟨inventory, hholds, hlists⟩ := h
      obtain ⟨hcode, hafter⟩ := hholds.apply hlists hapart (hpage hhalted)
      refine ⟨hafter, ?_⟩
      intro report hreport
      rw [← Except.ok.inj hreport]
      exact hcode

/-! ## Hints -/

theorem HeldBy.keys (h : HeldBy id N live now) (hapart : Apart id N) :
    ∃ keys, (now.direct (OwnerDirectory.keys id)).1 = .ok keys ∧
      keys.filter (· ≠ signersKey id) = live.map Prod.fst ∧
      keys.count (signersKey id) = if (View.signerList? now.ledger id).isSome then 1 else 0 := by
  obtain ⟨inventory, hholds, hlists⟩ := h
  obtain ⟨hresult, -⟩ := System.direct_of_run (hholds.ring.run_keys hapart.zero hholds.fits)
  refine ⟨_, hresult, ?_, ?_⟩
  · rw [← Directory.map_fst_listing, List.filter_map, ← hlists.others]
    rfl
  · have hlist : View.signerList? now.ledger id = inventory.list? := hholds.signerList?_eq
    calc (inventory.sheets.flatMap (·.keys)).count (signersKey id)
      _ = ((Directory.listing inventory.sheets).filter
            fun pair => pair.1 = signersKey id).length := by
        rw [← Directory.map_fst_listing, List.count, List.countP_map, List.countP_eq_length_filter]
        simp only [Function.comp_def, beq_eq_decide]
      _ = (inventory.list?.map fun list => (signersKey id, list.page)).toList.length := by
        rw [hlists.own]
      _ = if (View.signerList? now.ledger id).isSome then 1 else 0 := by
        rw [hlist]
        cases inventory.list? <;> rfl

theorem HeldBy.own (h : HeldBy id N live now) {list : SignerList}
    (hlist : View.signerList? now.ledger id = some list) :
    ∃ page, View.page? now.ledger (ownerDirectoryKey id) list.page = some page ∧
      signersKey id ∈ page.keys := by
  obtain ⟨inventory, hholds, hlists⟩ := h
  obtain ⟨sheet, hsheet, hnumber, hkey⟩ := Directory.mem_listing.1
    (hlists.mem_of_list? (hholds.signerList?_eq.symm.trans hlist))
  obtain ⟨before, after, hsplit⟩ := List.append_of_mem hsheet
  have hstored := hholds.ring.stored before sheet after hsplit
  rw [hnumber] at hstored
  refine ⟨sheet.page (ownerDirectoryKey id) (Directory.numbers before) (Directory.numbers after),
    ?_, hkey⟩
  unfold View.page?
  rw [show View.find? now.ledger _ = _ from hstored]
  rfl

end Inventory

/-! ## Courses -/

open Inventory

variable {id : AccountId} {N : Set UInt64} {start now : System} {live : List (Key × UInt64)}

/-- At every moment the ledger holds an inventory that lists what is live. -/
theorem Course.heldBy (h : Course id N start live now) (hapart : Apart id N)
    (hstart : HeldBy id N [] start) : HeldBy id N live now := by
  induction h with
  | start => exact hstart
  | insert h key hother hpage ih => exact ih.insert hapart hother hpage
  | remove h key page hlive ih => exact (ih.remove hapart hlive).2
  | setRules h rules ih =>
      obtain ⟨inventory, hholds, hlists⟩ := ih
      exact ⟨inventory, hholds.congr rfl rfl, hlists⟩
  | setFees h fees ih =>
      obtain ⟨inventory, hholds, hlists⟩ := ih
      exact ⟨inventory, hholds.congr rfl rfl, hlists⟩
  | resume h ih => exact ih
  | apply h tx hsender hpage ih => exact (ih.apply hapart hsender hpage).1

/-- Starting from an account with neither list nor directory, all hints hold at every moment. -/
theorem Course.hints_hold (h : Course id N start live now) (hapart : Apart id N)
    (hroot : View.account? start.ledger id ≠ none)
    (hlist : View.find? start.ledger (signersKey id) = none)
    (hpages : ∀ number ∈ N,
      View.find? start.ledger (Slot.page (ownerDirectoryKey id) number).key = none) :
    HintsHold id N live now := by
  obtain ⟨root, hroot⟩ := Option.ne_none_iff_exists'.1 hroot
  have hfound : View.account? (View.contents start.ledger) id = some root := hroot
  have hstart : HeldBy id N [] start :=
    ⟨⟨root, none, []⟩, ⟨View.entries_of_account? hfound, hlist, .nil hpages, .nil _⟩, ⟨rfl, rfl⟩⟩
  have hheld := h.heldBy hapart hstart
  constructor
  · exact hheld.keys hapart
  · intro list hlist
    exact hheld.own hlist
  · intro key page hlive
    exact (hheld.remove hapart hlive).1
  · intro tx hsender hpage
    exact (hheld.apply hapart hsender hpage).2

/-- With one key to a page, the list is put on the page after that of a first key. Replacing it takes
that page out from between those of the first key and a second one, and appends another. -/
theorem Course.hints_hold_after_replacement :
    ∃ live now,
      Course .zero { number | number ∈ [0, 1, 2, 3] }
        ⟨{}, (Ledger.empty { limits := { keysPerPage := 1 } }).putAccount
          { account := .zero, balance := 100000000 }⟩ live now ∧
      (live = [(Octets.zero 32, 0), (ownerDirectoryKey .zero, 2)] ∧
        (View.signerList? now.ledger .zero).map SignerList.page = some 3) ∧
      HintsHold .zero { number | number ∈ [0, 1, 2, 3] } live now := by
  have hapart : Apart .zero { number | number ∈ [0, 1, 2, 3] } :=
    .of_nodup List.mem_cons_self (by decide +kernel)
  have hwithin : ∀ {target : Option UInt64}, target.all (· ∈ [0, 1, 2, 3]) = true →
      ∀ page, target = some page → page ∈ { number | number ∈ [0, 1, 2, 3] } := by
    rintro _ hall page rfl
    exact of_decide_eq_true hall
  have h : Course .zero { number | number ∈ [0, 1, 2, 3] }
      ⟨{}, (Ledger.empty { limits := { keysPerPage := 1 } }).putAccount
        { account := .zero, balance := 100000000 }⟩ _ _ :=
    (((Course.start.insert (Octets.zero 32) (by decide +kernel) (hwithin (by decide +kernel))).apply
      (.set .zero 1 [⟨.ofLow 1, 1⟩] 100000000) rfl fun _ => hwithin (by decide +kernel)).insert
        (ownerDirectoryKey .zero) (by decide +kernel) (hwithin (by decide +kernel))).apply
          (.set .zero 1 [⟨.ofLow 2, 1⟩] 100000000) rfl fun _ => hwithin (by decide +kernel)
  refine ⟨_, _, h, by decide +kernel, h.hints_hold hapart ?_ ?_ ?_⟩
  · decide +kernel
  · decide +kernel
  · have hfree : ([0, 1, 2, 3].all fun number =>
        (View.find? ((Ledger.empty { limits := { keysPerPage := 1 } }).putAccount
          { account := .zero, balance := 100000000 })
            (Slot.page (ownerDirectoryKey .zero) number).key).isNone) = true := by decide +kernel
    intro number hnumber
    exact Option.isNone_iff_eq_none.1 (List.all_eq_true.1 hfree number hnumber)

end Cosign
