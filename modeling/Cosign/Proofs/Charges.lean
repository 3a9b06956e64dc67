-- SUMMARY: Over any history an account is refunded just what its lists were charged, and each list once.
import Cosign.Proofs.Holdings

/-!
# Charges

A list is charged by the rules under which it is stored and refunded by what it
says it was charged, at a time when the rules may be others. On a ledger that
starts out with nothing but accounts, the books balance at every moment of every
history (`History.settled`): an effect refunds what the one before it charged, and
the owner count is the opening count with all charges added and all refunds taken
off. The count never reaches an end of its range, where it would be stopped.
-/

namespace Cosign

/-! ## Amounts -/

namespace Effect

/-- The units charged for the list that was stored, if one was. -/
def charged? : Effect → Option UInt32
  | replaced _ charged _ _ _ => some charged
  | destroyed _ => none

/-- The units given back for the list that was there before. -/
def refunded : Effect → UInt32
  | replaced _ _ refunded _ _ => refunded
  | destroyed refunded => refunded

/-- The list that a transaction has stored if this was its effect. -/
def list? (tx : Transaction) : Effect → Option SignerList
  | replaced accounting _ _ page _ =>
    match tx.preflight with
    | .ok ⟨_, _, .replace payload⟩ =>
      some { quorum := payload.quorum, signers := payload.signers, accounting, page }
    | _ => none
  | destroyed _ => none

end Effect

/-- What the transactions of an account have done, in order, as their reports say. -/
def deeds (id : AccountId) (records : List (Transaction × Report)) : List (Transaction × Effect) :=
  records.filterMap fun record =>
    if record.1.account = id then record.2.effect?.map (record.1, ·) else none

/-- The units charged for each list that was stored. -/
def charges (done : List (Transaction × Effect)) : List UInt32 :=
  done.filterMap fun deed => deed.2.charged?

/-- The units refunded by each effect, which are none where there was no list. -/
def refunds (done : List (Transaction × Effect)) : List UInt32 :=
  done.map fun deed => deed.2.refunded

/-- The units charged by the last effect, if it has stored a list. -/
def due? (done : List (Transaction × Effect)) : Option UInt32 :=
  done.getLast?.bind fun deed => deed.2.charged?

def total : List UInt32 → Nat
  | [] => 0
  | amount :: rest => amount.toNat + total rest

/-- The account's books from `before` to `after`. -/
structure Settled (id : AccountId) (before : Ledger) (done : List (Transaction × Effect))
    (after : Ledger) : Prop where
  /-- The account has the list that it has stored last, and none after destroying it. -/
  list : View.signerList? after id = done.getLast?.bind fun deed => deed.2.list? deed.1
  /-- What is refunded was charged for the list that goes, and is nothing if there is none. -/
  refunded : ∀ earlier deed later, done = earlier ++ deed :: later →
    deed.2.refunded = (due? earlier).getD 0
  /-- In their order, the charges are the refunds and the charge for the list still held. -/
  once : charges done =
    (refunds done).filter (· ≠ 0) ++ ((View.signerList? after id).map SignerList.units).toList
  count :
    (View.account? after id).map (fun root => root.ownerCount.toNat + total (refunds done)) =
      (View.account? before id).map fun root => root.ownerCount.toNat + total (charges done)
  /-- The count can be moved by what is due and by the units of any list without being stopped. -/
  exact : ∀ root, View.account? after id = some root →
    ((due? done).getD 0).toNat ≤ root.ownerCount.toNat ∧
      ∀ (payload : Payload) (accounting : Accounting), payload.checkCount = .ok () →
        root.ownerCount.toNat - ((due? done).getD 0).toNat +
          (accounting.units payload.signers.length).toNat < 4294967296

/-! ## Balances -/

section Balances

variable {id : AccountId} {records : List (Transaction × Report)}
  {done : List (Transaction × Effect)} {tx : Transaction} {effect : Effect}

theorem deeds_append (id : AccountId) (records more : List (Transaction × Report)) :
    deeds id (records ++ more) = deeds id records ++ deeds id more :=
  List.filterMap_append

theorem deeds_success (tx : Transaction) (effect : Effect) (changes : Nat) :
    deeds tx.account [(tx, .success effect changes)] = [(tx, effect)] := by
  simp [deeds, Report.success]

theorem deeds_of_ne (hne : tx.account ≠ id) (report : Report) :
    deeds id [(tx, report)] = [] := by
  simp [deeds, hne]

theorem deeds_rejected (id : AccountId) (tx : Transaction) (rejection : Rejection) :
    deeds id [(tx, .rejected rejection)] = [] := by
  simp [deeds, Report.rejected]

theorem total_append (front back : List UInt32) :
    total (front ++ back) = total front + total back := by
  induction front with
  | nil => simp [total]
  | cons amount rest ih =>
      simp only [List.cons_append, total, ih]
      omega

/-- Effects that refund what is due each time. -/
structure Balanced (done : List (Transaction × Effect)) : Prop where
  refunded : ∀ earlier deed later, done = earlier ++ deed :: later →
    deed.2.refunded = (due? earlier).getD 0
  once : charges done = (refunds done).filter (· ≠ 0) ++ (due? done).toList
  total : total (charges done) = total (refunds done) + ((due? done).getD 0).toNat

theorem Balanced.nil : Balanced [] where
  refunded earlier deed later h := by simp at h
  once := rfl
  total := rfl

theorem due?_append : due? (done ++ [(tx, effect)]) = effect.charged? := by
  simp [due?]

/-- An effect that refunds what is due keeps the balance. -/
theorem Balanced.append (h : Balanced done) (hpositive : due? done ≠ some 0)
    (hrefunded : effect.refunded = (due? done).getD 0) (tx : Transaction) :
    Balanced (done ++ [(tx, effect)]) := by
  have hcharges : charges (done ++ [(tx, effect)]) = charges done ++ effect.charged?.toList := by
    cases effect <;> simp [charges, Effect.charged?]
  have hrefunds : refunds (done ++ [(tx, effect)]) = refunds done ++ [(due? done).getD 0] := by
    simp [refunds, hrefunded]
  constructor
  · intro earlier deed later hsplit
    rcases List.eq_nil_or_concat' later with rfl | ⟨later, last, rfl⟩
    · obtain ⟨rfl, hdeed⟩ := List.append_inj' hsplit rfl
      cases hdeed
      exact hrefunded
    · rw [← List.cons_append, ← List.append_assoc] at hsplit
      exact h.refunded earlier deed later (List.append_inj' hsplit rfl).1
  · rw [hcharges, hrefunds, due?_append, h.once, List.filter_append]
    congr 2
    cases hdue : due? done with
    | none => rfl
    | some units =>
        have hne : units ≠ 0 := fun hzero => hpositive (hzero ▸ hdue)
        simp [hne]
  · rw [hcharges, hrefunds, due?_append, total_append, total_append, h.total]
    cases effect.charged? <;> simp [Cosign.total]

end Balances

/-! ## Books -/

/-- A list of an allowed size costs between one unit and ten. -/
theorem Payload.units_of_checkCount {payload : Payload} (h : payload.checkCount = .ok ())
    (accounting : Accounting) :
    1 ≤ (accounting.units payload.signers.length).toNat ∧
      (accounting.units payload.signers.length).toNat ≤ 10 := by
  have hmost : payload.signers.length ≤ 8 := (checkCount_eq_ok_iff.1 h).2
  have htwo : (2 : UInt32).toNat = 2 := rfl
  have hone : (1 : UInt32).toNat = 1 := rfl
  cases accounting with
  | legacy =>
      simp only [Accounting.units, Saturating.toNat_add32, Saturating.toNat_word32]
      omega
  | current =>
      simp only [Accounting.units]
      omega

namespace Estate

/-- The books of an account whose root was `opening`, after some effects, agree with its estate. -/
structure Books (opening : Option AccountRoot) (done : List (Transaction × Effect))
    (estate : Estate) : Prop extends Placed estate where
  balanced : Balanced done
  list : estate.list? = done.getLast?.bind fun deed => deed.2.list? deed.1
  due : due? done = estate.list?.map SignerList.units
  /-- A list is one that has passed the checks. -/
  small : ∀ list, estate.list? = some list → 1 ≤ list.units.toNat ∧ list.units.toNat ≤ 10
  low : ∀ root, opening = some root → root.ownerCount.toNat ≤ 4294967285
  count : estate.root?.map (·.ownerCount.toNat) =
    opening.map (·.ownerCount.toNat + estate.units.toNat)

theorem Enacted.refunded_eq {terms : Terms} {tx : Transaction} {effect : Effect}
    {estate estate' : Estate} (h : Enacted terms tx estate effect estate') :
    effect.refunded = estate.units := by
  cases h <;> rfl

namespace Books

variable {opening : Option AccountRoot} {done : List (Transaction × Effect)} {estate : Estate}

theorem start (hlow : ∀ root, opening = some root → root.ownerCount.toNat ≤ 4294967285) :
    Books opening [] ⟨opening, none⟩ where
  root _ := rfl
  page _ h := nomatch h
  balanced := .nil
  list := rfl
  due := rfl
  small _ h := nomatch h
  low := hlow
  count := rfl

theorem units_eq (h : Books opening done estate) : estate.units = (due? done).getD 0 := by
  rw [h.due]
  rfl

theorem due?_ne (h : Books opening done estate) : due? done ≠ some 0 := by
  intro hzero
  obtain ⟨list, hlist, hunits⟩ := Option.map_eq_some_iff.1 (h.due.symm.trans hzero)
  have hpositive := (h.small list hlist).1
  rw [hunits] at hpositive
  exact absurd hpositive (by decide)

/-- Clearing the estate brings the count back to what it was at first. -/
theorem count_cleared (h : Books opening done estate) :
    estate.cleared.root?.map (·.ownerCount.toNat) = opening.map (·.ownerCount.toNat) := by
  have hcount := h.count
  obtain ⟨root?, list?⟩ := estate
  cases list? with
  | none => exact hcount
  | some list =>
      cases root? with
      | none =>
          cases opening with
          | none => rfl
          | some first => cases hcount
      | some root =>
          cases opening with
          | none => cases hcount
          | some first =>
              have hroot : root.ownerCount.toNat = first.ownerCount.toNat + list.units.toNat :=
                Option.some.inj hcount
              simp only [Estate.cleared, Option.map_some, Option.some.injEq]
              rw [AccountRoot.toNat_adjustOwnerCount_sub]
              omega

/-- Every effect is entered: what it refunds was due, and what it charges is due next. -/
theorem enacted (h : Books opening done estate) {terms : Terms} {tx : Transaction}
    {effect : Effect} {estate' : Estate} (henacted : Enacted terms tx estate effect estate') :
    Books opening (done ++ [(tx, effect)]) estate' := by
  have hbalanced : Balanced (done ++ [(tx, effect)]) :=
    h.balanced.append h.due?_ne (henacted.refunded_eq.trans h.units_eq) tx
  have hcleared := h.count_cleared
  cases henacted with
  | @replaced payload root hpreflight hroot =>
      have hcheck : payload.checkCount = .ok () := Payload.checkCount_eq_ok_iff.2
        (Payload.check_eq_ok_iff.1 (Transaction.preflight_eq_ok hpreflight).2).counted
      have hunits : 1 ≤ (stored payload terms.rules.accounting).units.toNat ∧
          (stored payload terms.rules.accounting).units.toNat ≤ 10 :=
        Payload.units_of_checkCount hcheck terms.rules.accounting
      constructor
      · exact placed_withList root payload terms.rules.accounting
      · exact hbalanced
      · simp [Estate.withList, stored, Effect.list?, hpreflight]
      · rw [due?_append]
        rfl
      · rintro list ⟨⟩
        exact hunits
      · exact h.low
      · rw [hroot] at hcleared
        obtain ⟨first, rfl, hsame⟩ := Option.map_eq_some_iff.1 hcleared.symm
        have hlow := h.low first rfl
        have hsame : first.ownerCount.toNat = root.ownerCount.toNat := hsame
        apply congrArg some
        calc _ = min (root.ownerCount.toNat + (stored payload terms.rules.accounting).units.toNat)
              4294967295 := root.toNat_adjustOwnerCount_add _
          _ = first.ownerCount.toNat + (stored payload terms.rules.accounting).units.toNat := by
            omega
  | destroyed hroot hkey =>
      constructor
      · exact h.toPlaced.cleared
      · exact hbalanced
      · rw [list?_cleared]
        simp [Effect.list?]
      · rw [due?_append, list?_cleared]
        rfl
      · intro list hlist
        rw [list?_cleared] at hlist
        cases hlist
      · exact h.low
      · rw [hcleared]
        simp [Estate.units, list?_cleared]

end Books

end Estate

open Estate

/-! ## Histories -/

/-- Only roots of some accounts, each at its account's key and with a count that is at least ten below
the greatest, so that there is room for any list. -/
def OnlyRoots (accounts : Set AccountId) (ledger : Ledger) : Prop :=
  ∀ key entry, View.find? ledger key = some entry →
    ∃ root, entry = .accountRoot root ∧ key = (Slot.account root.account).key ∧
      root.account ∈ accounts ∧ root.ownerCount.toNat ≤ 4294967285

section Histories

variable {accounts : Set AccountId} {start now : System} {records : List (Transaction × Report)}
  {id : AccountId}

/-- At first every account's books are those of its root and of no effects. -/
theorem OnlyRoots.books {ledger : Ledger} (h : OnlyRoots accounts ledger)
    (hapart : SlotsApart accounts) :
    Each accounts (fun id => Books (View.account? ledger id) []) (View.contents ledger) := by
  -- An entry at a slot of an account is its root, since other slots have other keys.
  have hslot : ∀ id ∈ accounts, ∀ slot ∈ slots id, ∀ entry,
      View.find? ledger slot.key = some entry →
        ∃ root, entry = .accountRoot root ∧ slot = .account root.account ∧
          root.ownerCount.toNat ≤ 4294967285 := by
    intro id hid slot hslot entry hentry
    obtain ⟨root, rfl, hkey, hroot, hlow⟩ := h slot.key entry hentry
    exact ⟨root, rfl,
      hapart id hid root.account hroot slot hslot (.account root.account) (by simp [slots]) hkey,
      hlow⟩
  have hfree : ∀ id ∈ accounts, ∀ slot ∈ slots id, (∀ other, slot ≠ .account other) →
      View.find? ledger slot.key = none := by
    intro id hid slot hmem hne
    by_contra hsome
    obtain ⟨entry, hentry⟩ := Option.ne_none_iff_exists'.1 hsome
    obtain ⟨root, -, hsame, -⟩ := hslot id hid slot hmem entry hentry
    exact hne root.account hsame
  intro id hid
  refine ⟨⟨View.account? ledger id, none⟩, ⟨?_, ?_, ?_⟩, .start ?_⟩
  · change View.find? ledger (Slot.account id).key = _
    unfold View.account?
    cases hentry : View.find? ledger (Slot.account id).key with
    | none => rfl
    | some entry =>
        obtain ⟨root, rfl, -, -⟩ := hslot id hid (.account id) (by simp [slots]) entry hentry
        rfl
  · apply hfree id hid (.ownerDirectory id) (by simp [slots])
    intro other hsame
    cases hsame
  · apply hfree id hid (.signers id) (by simp [slots])
    intro other hsame
    cases hsame
  · intro root hroot
    obtain ⟨entry, hentry, hroot⟩ := Option.bind_eq_some_iff.1 hroot
    obtain ⟨other, rfl, -, hlow⟩ := hslot id hid (.account id) (by simp [slots]) entry hentry
    cases hroot
    exact hlow

/-- Applying a transaction enters its effect, if it has one, in its account's books and in no
others. -/
theorem Estate.Each.apply_books {opening : AccountId → Option AccountRoot} {ledger : Ledger}
    (h : Each accounts (fun id => Books (opening id) (deeds id records)) (View.contents ledger))
    (hapart : SlotsApart accounts) {tx : Transaction} (htx : tx.account ∈ accounts) :
    Each accounts (fun id => Books (opening id) (deeds id (records ++ [(tx, (tx.apply ledger).1)])))
      (View.contents (tx.apply ledger).2) := by
  obtain ⟨estate, hholds, hbooks⟩ := h tx.account htx
  rcases hholds.apply (hapart.apart htx) hbooks.toPlaced with
    ⟨effect, estate', changes, changed, happly, hchanged, henacted⟩ | ⟨rejection, happly, -⟩
  · rw [happly]
    simp only
    rw [hchanged]
    apply h.put hapart htx
    · rw [deeds_append, deeds_success]
      exact hbooks.enacted henacted
    · intro other hne estate hbooks
      rw [deeds_append, deeds_of_ne hne.symm, List.append_nil]
      exact hbooks
  · rw [happly]
    intro id hid
    obtain ⟨estate, hholds, hbooks⟩ := h id hid
    refine ⟨estate, hholds, ?_⟩
    simp only
    rw [deeds_append, deeds_rejected, List.append_nil]
    exact hbooks

/-- At every moment every account's books agree with its estate. -/
theorem History.books (h : History start records now) (hapart : SlotsApart accounts)
    (hstart : OnlyRoots accounts start.ledger)
    (hsenders : ∀ record ∈ records, record.1.account ∈ accounts) :
    Each accounts (fun id => Books (View.account? start.ledger id) (deeds id records))
      (View.contents now.ledger) := by
  induction h with
  | start => exact hstart.books hapart
  | setRules h rules ih => exact (ih hsenders).congr rfl
  | setFees h fees ih => exact (ih hsenders).congr rfl
  | resume h ih => exact ih hsenders
  | @apply records now h tx ih =>
      have hbefore := ih fun record hrecord => hsenders record (List.mem_append_left _ hrecord)
      cases hhalted : now.service.halted? with
      | some halted =>
          rw [System.apply_of_halted hhalted, System.record_of_halted hhalted, List.append_nil]
          exact hbefore
      | none =>
          rw [System.record_of_ready hhalted] at hsenders ⊢
          rw [System.apply_of_ready hhalted]
          exact hbefore.apply_books hapart (hsenders (tx, (tx.apply now.ledger).1) (by simp))

/-- Starting from accounts without lists, every account's books balance at every moment, whatever
transactions are applied and however rules and fees change in between. -/
theorem History.settled (h : History start records now) (hapart : SlotsApart accounts)
    (hstart : OnlyRoots accounts start.ledger)
    (hsenders : ∀ record ∈ records, record.1.account ∈ accounts) (hid : id ∈ accounts) :
    Settled id start.ledger (deeds id records) now.ledger := by
  obtain ⟨estate, hholds, hbooks⟩ := h.books hapart hstart hsenders id hid
  have hroot : View.account? now.ledger id = estate.root? := hholds.account?_eq
  have hlist : View.signerList? now.ledger id = estate.list? := hholds.signerList?_eq
  have hunits := hbooks.units_eq
  have htotal := hbooks.balanced.total
  constructor
  · rw [hlist, hbooks.list]
  · exact hbooks.balanced.refunded
  · rw [hlist, ← hbooks.due]
    exact hbooks.balanced.once
  · rw [hroot, htotal, ← hunits]
    generalize total (refunds (deeds id records)) = given
    calc estate.root?.map (fun root => root.ownerCount.toNat + given)
      _ = (estate.root?.map (·.ownerCount.toNat)).map (· + given) := by
        rw [Option.map_map]
        rfl
      _ = ((View.account? start.ledger id).map
            (·.ownerCount.toNat + estate.units.toNat)).map (· + given) := by
        rw [hbooks.count]
      _ = (View.account? start.ledger id).map fun root =>
            root.ownerCount.toNat + (given + estate.units.toNat) := by
        rw [Option.map_map]
        congr 1
        funext root
        simp only [Function.comp]
        omega
  · intro root hnow
    have hcount := hbooks.count
    rw [← hroot, hnow] at hcount
    obtain ⟨first, hfirst, hsame⟩ := Option.map_eq_some_iff.1 hcount.symm
    have hlow := hbooks.low first hfirst
    have hsame : first.ownerCount.toNat + estate.units.toNat = root.ownerCount.toNat := hsame
    rw [← hunits]
    constructor
    · omega
    · intro payload accounting hcheck
      have hten := (Payload.units_of_checkCount hcheck accounting).2
      omega

/-- A list that is charged three units as a legacy list is refunded three when it is replaced, though
its successor is charged a single one by then, and that one is refunded when it is destroyed. -/
theorem History.settled_upgrade :
    ∃ records now,
      History ⟨{}, (Ledger.empty {}).putAccount
        { account := .zero, balance := 100000000, ownerCount := 5 }⟩ records now ∧
      (deeds .zero records).map Prod.snd =
        [.replaced .legacy 3 0 0 8, .replaced .current 1 3 0 6, .destroyed 1] ∧
      Settled .zero ((Ledger.empty {}).putAccount
        { account := .zero, balance := 100000000, ownerCount := 5 }) (deeds .zero records)
        now.ledger := by
  have hapart : SlotsApart {AccountId.zero} := by
    rintro _ rfl _ rfl
    decide +kernel
  have hroots : OnlyRoots {AccountId.zero} ((Ledger.empty {}).putAccount
      { account := .zero, balance := 100000000, ownerCount := 5 }) := by
    intro key entry hentry
    simp only [Ledger.find?_eq, Ledger.putAccount, Ledger.empty,
      Std.ExtTreeMap.getElem?_insert, Std.ExtTreeMap.getElem?_empty] at hentry
    split at hentry
    · next hkey =>
      cases hentry
      exact ⟨_, rfl, (Std.LawfulEqOrd.eq_of_compare hkey).symm, rfl, by decide⟩
    · cases hentry
  have h : History ⟨{}, (Ledger.empty {}).putAccount
      { account := .zero, balance := 100000000, ownerCount := 5 }⟩ _ _ :=
    (((History.start.apply (.set .zero 1 [⟨.ofLow 1, 1⟩] 100000000)).setRules
      { multiSignReserve := true }).apply (.set .zero 1 [⟨.ofLow 2, 1⟩] 100000000)).apply
        (.destroy .zero 100000000)
  refine ⟨_, _, h, by decide +kernel, h.settled hapart hroots ?_ rfl⟩
  change ∀ record ∈ _, _ = AccountId.zero
  decide +kernel

end Histories

end Cosign
