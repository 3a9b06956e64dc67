-- SUMMARY: The audit of a ledger that is kept in order finds nothing, at any moment of any run.
import Cosign.Proofs.Findings
import Cosign.Proofs.Upkeep

/-!
# Audit

The audit looks at less than the order of a ledger. It does not see backward
links, pages outside a ring or entries of no account, so its findings are no
invariant. Estates in order are one, and a ledger of these passes the audit.
-/

namespace Cosign

open Estate

/-! ## The audit -/

namespace Audit

variable {ledger : Ledger} {id : AccountId} {estate : Estate} {root : AccountRoot}

/-- The directory of an estate has a page if there is a list. -/
theorem page?_of_holds (h : Holds (View.contents ledger) id estate) :
    View.page? ledger (ownerDirectoryKey id) 0 = estate.list?.map fun _ => Estate.page id := by
  have hentry : View.find? ledger (ownerDirectoryKey id) =
      estate.list?.map fun _ => .directoryPage (Estate.page id) := h.directory
  unfold View.page?
  rw [Directory.key_page_zero, hentry]
  cases estate.list? <;> rfl

/-- Nothing is wrong with an account whose estate is in order. -/
theorem checkAccount_of_holds (h : Holds (View.contents ledger) id estate)
    (horderly : Orderly id estate) (hroot : estate.root? = some root) :
    checkAccount ledger root = [] := by
  obtain rfl := horderly.account root hroot
  have hpage := page?_of_holds h
  have hlist : View.signerList? ledger root.account = estate.list? := h.signerList?_eq
  have hcount := horderly.count root hroot
  unfold Estate.units at hcount
  rw [checkAccount_eq_nil_iff]
  cases hstored : estate.list? with
  | none =>
      rw [hstored] at hpage hlist hcount
      refine ⟨[], ⟨.absent hpage, nofun, by rw [hlist, hcount], ?_, ?_⟩, ?_⟩ <;>
        exact fun list hsome => nomatch hlist.symm.trans hsome
  | some list =>
      have hentry : View.find? ledger (signersKey root.account) = some (.signerList list) :=
        h.list.trans (congrArg _ hstored)
      rw [hstored] at hpage hlist hcount
      have hreads : Directory.Reads ledger (ownerDirectoryKey root.account)
          [(0, Estate.page root.account)] := .trail (.last hpage rfl) (Nat.le_max_left _ _)
      have honly : ∀ other, View.signerList? ledger root.account = some other → other = list :=
        fun other hother => Option.some_inj.1 (hother.symm.trans hlist)
      refine ⟨_, ⟨hreads, ?_, by rw [hlist, hcount], fun _ _ => ?_, fun other hother => ?_⟩,
        fun other hother => ?_⟩
      · intro key hkey
        have hkey : key = signersKey root.account := by
          simpa [Directory.named, Estate.page] using hkey
        rw [hkey, hentry]
        exact Option.some_ne_none _
      · simp [Directory.named, Estate.page]
      · rw [honly other hother]
        exact pairwise_of_ascends (horderly.ascends list hstored)
      · rw [honly other hother]
        refine ⟨Estate.page root.account, ?_, List.mem_singleton_self _⟩
        rw [horderly.page list hstored, hpage]
        rfl

end Audit

/-- The audit finds nothing in a ledger in order. -/
theorem Kept.audit_eq_nil {accounts : Set AccountId} {ledger : Ledger}
    (h : Kept accounts (View.contents ledger)) : audit ledger = [] := by
  refine Audit.eq_nil_iff_checkAccount.2 fun key root hfound => ?_
  obtain ⟨id, hid, slot, hslot, rfl⟩ := h.only key _ hfound
  obtain ⟨estate, hholds, horderly⟩ := h.each id hid
  have hfound : (View.contents ledger).entries slot.key = some (.accountRoot root) := hfound
  simp only [slots, List.mem_cons, List.not_mem_nil, or_false] at hslot
  rcases hslot with rfl | rfl | rfl
  · rw [hholds.root] at hfound
    obtain ⟨stored, hstored, heq⟩ := Option.map_eq_some_iff.1 hfound
    cases heq
    exact Audit.checkAccount_of_holds hholds horderly hstored
  · rw [show (Slot.ownerDirectory id).key = ownerDirectoryKey id from rfl, hholds.directory]
      at hfound
    obtain ⟨_, _, heq⟩ := Option.map_eq_some_iff.1 hfound
    cases heq
  · rw [show (Slot.signers id).key = signersKey id from rfl, hholds.list] at hfound
    obtain ⟨_, _, heq⟩ := Option.map_eq_some_iff.1 hfound
    cases heq

/-! ## Runs -/

/-- At every moment of every run the audit finds nothing, and no transaction of an account that has
a root is reported as internal. -/
theorem Run.audit_clean (h : Run accounts terms config service ledger)
    (hapart : SlotsApart accounts) :
    audit ledger = [] ∧
      ∀ tx : Transaction, tx.account ∈ accounts → View.account? ledger tx.account ≠ none →
        ∀ report service' ledger', service.apply ledger tx = .ok (report, service', ledger') →
          report.code.isInternal = false := by
  have hkept := h.kept hapart
  refine ⟨hkept.audit_eq_nil, ?_⟩
  intro tx hnamed hroot report service' ledger' happly
  rw [(Service.apply_eq_ok happly).1]
  exact (hkept.apply hapart hnamed).2 hroot

/-- An account that has been put, and has set a signer list. -/
theorem Run.audit_clean_after_set :
    audit ((Transaction.set .zero 1 [⟨.ofLow 1, 1⟩] 100000000).apply
        ((Ledger.empty {}).putAccount { account := .zero, balance := 100000000 })).2 = [] ∧
      ((Transaction.set .zero 1 [⟨.ofLow 1, 1⟩] 100000000).apply
        ((Ledger.empty {}).putAccount
          { account := .zero, balance := 100000000 })).1.code.isInternal = false := by
  have hapart : SlotsApart {AccountId.zero} := by
    rintro _ rfl _ rfl
    decide +kernel
  have hput : Run {AccountId.zero} {} {} (.ofConfig {})
      ((Ledger.empty {}).putAccount { account := .zero, balance := 100000000 }) :=
    .putAccount .start _ rfl (by simp [View.account?, Ledger.find?_eq, Ledger.empty])
  have happly := Service.apply_of_ready (show (Service.ofConfig {}).halted? = none from rfl)
    ((Ledger.empty {}).putAccount { account := .zero, balance := 100000000 })
    (.set .zero 1 [⟨.ofLow 1, 1⟩] 100000000)
  have hnamed : (Transaction.set .zero 1 [⟨.ofLow 1, 1⟩] 100000000).account ∈
      ({AccountId.zero} : Set AccountId) := rfl
  constructor
  · exact ((hput.apply _ hnamed _ happly).audit_clean hapart).1
  · refine (hput.audit_clean hapart).2 _ hnamed ?_ _ _ _ happly
    simp [View.account?, Ledger.find?_eq, Ledger.putAccount, Transaction.set, Entry.accountRoot?]

end Cosign
