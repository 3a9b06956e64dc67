-- SUMMARY: What preflight answers to every transaction, and which fault it names.
import Cosign.Proofs.Reordering
import Mathlib.Order.Bounds.Basic

/-!
# Judgement

Preflight accepts exactly the transactions that make sense, and what it says of all
others is the first thing wrong with them: a signer that is not given in full, then
fields that ask for nothing, then the faults of the list in the order of its checks.
`Payload.Fault` says which fault is found first in a list that is not fit, and
`Transaction.Judged` puts all answers together (`Transaction.preflight_eq_iff`).

The checks make no use of the order of the signers, except that a weight of zero is
reported for the first signer that has it. So their verdicts are described for lists
in any order, and in another order they are of the same kind (`Payload.check_verdict`);
preflight puts the signers in order of their accounts first.
-/

namespace Cosign

/-! ## Faults -/

namespace Payload

/-- The first fault of a list, which has none of those before it. -/
inductive Fault (payload : Payload) (owner : AccountId) : Malformed → Prop where
  | count (hcount : ¬payload.Counted) :
      Fault payload owner (.signerCount payload.signers.length 1 8)
  /-- The least of the accounts that occur more than once, wherever they stand. -/
  | duplicate {account : AccountId} (hcounted : payload.Counted)
      (hleast : IsLeast {account | 2 ≤ payload.accounts.count account} account) :
      Fault payload owner (.duplicateSigner account)
  /-- The first of the signers without weight. -/
  | zeroWeight {before after : List Signer} {signer : Signer} (hcounted : payload.Counted)
      (hdistinct : payload.accounts.Nodup) (hzero : signer.weight = 0)
      (hsigners : payload.signers = before ++ signer :: after)
      (hbefore : ∀ other ∈ before, 0 < other.weight) :
      Fault payload owner (.zeroWeight signer.account)
  | selfReference (hcounted : payload.Counted) (hdistinct : payload.accounts.Nodup)
      (hweighted : payload.Weighted) (howner : owner ∈ payload.accounts) :
      Fault payload owner (.selfReference owner)
  | quorum (hcounted : payload.Counted) (hdistinct : payload.accounts.Nodup)
      (hweighted : payload.Weighted) (hforeign : owner ∉ payload.accounts)
      (hquorum : ¬payload.Reachable) :
      Fault payload owner (.quorumUnreachable payload.quorum payload.weight)

/-- What is to be said of a list: that it can be stored, or its first fault. -/
inductive Verdict (payload : Payload) (owner : AccountId) : Except Malformed Unit → Prop where
  | fit (h : payload.Fit owner) : Verdict payload owner (.ok ())
  | fault {cause : Malformed} (h : payload.Fault owner cause) : Verdict payload owner (.error cause)

/-- Two verdicts are the same, or both report a weight of zero, for whichever signer. -/
inductive SameKind : Except Malformed Unit → Except Malformed Unit → Prop where
  | same (verdict : Except Malformed Unit) : SameKind verdict verdict
  | zeroWeight (account account' : AccountId) :
      SameKind (.error (.zeroWeight account)) (.error (.zeroWeight account'))

end Payload

/-! ## The least duplicate -/

theorem isLeast_of_head_repeated {a : AccountId} {rest : List AccountId}
    (hsorted : (a :: a :: rest).Pairwise fun a b => (compare a b).isLE) :
    IsLeast {account | 2 ≤ (a :: a :: rest).count account} a := by
  refine ⟨by simp, fun other hother => ?_⟩
  have hfirst := (List.pairwise_cons.1 hsorted).1
  have hmem : other ∈ a :: a :: rest :=
    List.count_pos_iff.1 (Nat.lt_of_lt_of_le Nat.zero_lt_two hother)
  rcases List.mem_cons.1 hmem with rfl | hmem
  · exact hfirst other (by simp)
  · exact hfirst other hmem

/-- In an arranged list the first repetition is that of the least account that is repeated. -/
theorem repeated?_eq_some_iff {xs : List AccountId} {account : AccountId}
    (hsorted : xs.Pairwise fun a b => (compare a b).isLE) :
    repeated? xs = some account ↔ IsLeast {account | 2 ≤ xs.count account} account := by
  induction xs with
  | nil => simp [repeated?, IsLeast]
  | cons a xs ih =>
      cases xs with
      | nil =>
          have hsingle : ∀ other, ¬2 ≤ [a].count other := by
            intro other
            have hlength := List.count_le_length (a := other) (l := [a])
            simp only [List.length_singleton] at hlength
            omega
          simp [repeated?, IsLeast, hsingle]
      | cons b rest =>
          unfold repeated?
          by_cases heq : a = b
          · subst heq
            have hleast := isLeast_of_head_repeated hsorted
            rw [if_pos rfl, Option.some_inj]
            refine ⟨fun hsame => hsame ▸ hleast, fun hother => ?_⟩
            exact eq_of_isLE_of_isLE (hleast.2 hother.1) (hother.2 hleast.1)
          · have hnew : a ∉ b :: rest := not_mem_of_ne_head hsorted heq
            have hsame : ∀ other, 2 ≤ (a :: b :: rest).count other ↔ 2 ≤ (b :: rest).count other := by
              intro other
              by_cases hother : a = other
              · subst hother
                simp [List.count_eq_zero_of_not_mem hnew]
              · rw [List.count_cons_of_ne hother]
            rw [if_neg heq, ih (List.pairwise_cons.1 hsorted).2]
            simp only [hsame]

/-! ## Checks that fail -/

namespace Payload

variable {payload payload' : Payload} {owner : AccountId} {cause : Malformed}

theorem checkCount_eq_error_iff :
    payload.checkCount = .error cause ↔
      ¬payload.Counted ∧ .signerCount payload.signers.length 1 8 = cause := by
  unfold checkCount Counted leastSigners mostSigners
  simp only
  split <;> simp_all

theorem checkDistinct_eq_error_iff :
    payload.checkDistinct = .error cause ↔
      ∃ account, IsLeast {account | 2 ≤ payload.accounts.count account} account ∧
        .duplicateSigner account = cause := by
  have hcount : ∀ account,
      (arrange id payload.accounts).count account = payload.accounts.count account :=
    (arrange_perm id payload.accounts).count_eq
  have hfound : ∀ account, repeated? (arrange id payload.accounts) = some account ↔
      IsLeast {account | 2 ≤ payload.accounts.count account} account := by
    intro account
    simp only [repeated?_eq_some_iff (pairwise_arrange id payload.accounts), hcount]
  simp only [← hfound]
  unfold checkDistinct accounts
  cases repeated? (arrange id (payload.signers.map (·.account))) <;> simp

theorem checkWeights_eq_error_iff :
    payload.checkWeights = .error cause ↔
      ∃ signer, (signer.weight = 0 ∧ ∃ before after, payload.signers = before ++ signer :: after ∧
        ∀ other ∈ before, 0 < other.weight) ∧ .zeroWeight signer.account = cause := by
  have hfound : ∀ signer, payload.signers.find? (·.weight == 0) = some signer ↔
      signer.weight = 0 ∧ ∃ before after, payload.signers = before ++ signer :: after ∧
        ∀ other ∈ before, 0 < other.weight := by
    intro signer
    simp only [List.find?_eq_some_iff_append, beq_iff_eq, Bool.not_eq_true', beq_eq_false_iff_ne,
      UInt16.pos_iff_ne_zero]
  simp only [← hfound]
  unfold checkWeights
  cases payload.signers.find? (·.weight == 0) <;> simp

theorem checkOwner_eq_error_iff :
    payload.checkOwner owner = .error cause ↔
      owner ∈ payload.accounts ∧ .selfReference owner = cause := by
  unfold checkOwner accounts
  split <;> simp_all

theorem checkQuorum_eq_error_iff :
    payload.checkQuorum = .error cause ↔
      ¬payload.Reachable ∧ .quorumUnreachable payload.quorum payload.weight = cause := by
  rw [← checkQuorum_eq_ok_iff, ← totalWeight_eq_weight]
  unfold checkQuorum
  simp only
  split <;> simp

/-! ## Verdicts -/

/-- The checks find the first fault. -/
theorem check_eq_error_iff : payload.check owner = .error cause ↔ payload.Fault owner cause := by
  unfold check
  rw [seq_eq_error_iff, seq_eq_error_iff, seq_eq_error_iff, seq_eq_error_iff,
    checkCount_eq_error_iff, checkCount_eq_ok_iff, checkDistinct_eq_error_iff,
    checkDistinct_eq_ok_iff, checkWeights_eq_error_iff, checkWeights_eq_ok_iff,
    checkOwner_eq_error_iff, checkOwner_eq_ok_iff, checkQuorum_eq_error_iff]
  constructor
  · rintro (⟨hcount, rfl⟩ | ⟨hcounted, ⟨account, hleast, rfl⟩ | ⟨hdistinct,
      ⟨signer, ⟨hzero, before, after, hsigners, hbefore⟩, rfl⟩ | ⟨hweighted,
        ⟨howner, rfl⟩ | ⟨hforeign, hquorum, rfl⟩⟩⟩⟩)
    · exact .count hcount
    · exact .duplicate hcounted hleast
    · exact .zeroWeight hcounted hdistinct hzero hsigners hbefore
    · exact .selfReference hcounted hdistinct hweighted howner
    · exact .quorum hcounted hdistinct hweighted hforeign hquorum
  · intro hfault
    cases hfault with
    | count hcount => exact .inl ⟨hcount, rfl⟩
    | duplicate hcounted hleast => exact .inr ⟨hcounted, .inl ⟨_, hleast, rfl⟩⟩
    | zeroWeight hcounted hdistinct hzero hsigners hbefore =>
        exact .inr ⟨hcounted, .inr ⟨hdistinct, .inl ⟨_, ⟨hzero, _, _, hsigners, hbefore⟩, rfl⟩⟩⟩
    | selfReference hcounted hdistinct hweighted howner =>
        exact .inr ⟨hcounted, .inr ⟨hdistinct, .inr ⟨hweighted, .inl ⟨howner, rfl⟩⟩⟩⟩
    | quorum hcounted hdistinct hweighted hforeign hquorum =>
        exact .inr ⟨hcounted, .inr ⟨hdistinct, .inr ⟨hweighted, .inr ⟨hforeign, hquorum, rfl⟩⟩⟩⟩

/-- There is a first signer without weight if there is any. -/
theorem exists_first_unweighted (h : ¬payload.Weighted) :
    ∃ before signer after, payload.signers = before ++ signer :: after ∧ signer.weight = 0 ∧
      ∀ other ∈ before, 0 < other.weight := by
  cases hweights : payload.checkWeights with
  | ok passed => exact absurd (checkWeights_eq_ok_iff.1 hweights) h
  | error cause =>
      obtain ⟨signer, ⟨hzero, before, after, hsigners, hbefore⟩, -⟩ :=
        checkWeights_eq_error_iff.1 hweights
      exact ⟨before, signer, after, hsigners, hzero, hbefore⟩

/-! ### Other orders -/

section

variable (hperm : payload.signers.Perm payload'.signers)
include hperm

theorem accounts_perm : payload.accounts.Perm payload'.accounts := hperm.map _

theorem counted_iff_of_perm : payload.Counted ↔ payload'.Counted := by
  unfold Counted
  rw [hperm.length_eq]

theorem weighted_iff_of_perm : payload.Weighted ↔ payload'.Weighted :=
  ⟨fun h signer hsigner => h signer (hperm.mem_iff.2 hsigner),
    fun h signer hsigner => h signer (hperm.mem_iff.1 hsigner)⟩

theorem weight_eq_of_perm : payload.weight = payload'.weight := (hperm.map _).sum_nat

theorem reachable_iff_of_perm (hquorum : payload.quorum = payload'.quorum) :
    payload.Reachable ↔ payload'.Reachable := by
  unfold Reachable
  rw [hquorum, weight_eq_of_perm hperm]

end

/-- The order of the signers makes no difference to whether they can be stored. -/
theorem Fit.of_perm (h : payload.Fit owner) (hperm : payload.signers.Perm payload'.signers)
    (hquorum : payload.quorum = payload'.quorum) : payload'.Fit owner where
  counted := (counted_iff_of_perm hperm).1 h.counted
  distinct := (accounts_perm hperm).nodup_iff.1 h.distinct
  weighted := (weighted_iff_of_perm hperm).1 h.weighted
  foreign := fun howner => h.foreign ((accounts_perm hperm).mem_iff.2 howner)
  reachable := (reachable_iff_of_perm hperm hquorum).1 h.reachable

/-- Nor does it to the fault, but for the signer that is the first without weight. -/
theorem Fault.of_perm (h : payload.Fault owner cause)
    (hperm : payload.signers.Perm payload'.signers) (hquorum : payload.quorum = payload'.quorum) :
    ∃ cause', payload'.Fault owner cause' ∧ SameKind (.error cause) (.error cause') := by
  have haccounts := accounts_perm hperm
  have hcounted' := (counted_iff_of_perm hperm).1
  have hweighted' := (weighted_iff_of_perm hperm).1
  cases h with
  | count hcount =>
      have hfault : payload'.Fault owner _ := .count (mt (counted_iff_of_perm hperm).2 hcount)
      exact ⟨_, hperm.length_eq ▸ hfault, .same _⟩
  | duplicate hcounted hleast =>
      simp only [haccounts.count_eq] at hleast
      exact ⟨_, .duplicate (hcounted' hcounted) hleast, .same _⟩
  | @zeroWeight before after signer hcounted hdistinct hzero hsigners hbefore =>
      have hunweighted : ¬payload'.Weighted := by
        intro hweighted
        have hpositive := hweighted signer (hperm.mem_iff.1 (by simp [hsigners]))
        exact UInt16.pos_iff_ne_zero.1 hpositive hzero
      obtain ⟨before', signer', after', hsigners', hzero', hbefore'⟩ :=
        exists_first_unweighted hunweighted
      exact ⟨_, .zeroWeight (hcounted' hcounted) (haccounts.nodup_iff.1 hdistinct) hzero' hsigners'
        hbefore', .zeroWeight _ _⟩
  | selfReference hcounted hdistinct hweighted howner =>
      exact ⟨_, .selfReference (hcounted' hcounted) (haccounts.nodup_iff.1 hdistinct)
        (hweighted' hweighted) (haccounts.mem_iff.1 howner), .same _⟩
  | quorum hcounted hdistinct hweighted hforeign hreachable =>
      have hfault := Fault.quorum (hcounted' hcounted) (haccounts.nodup_iff.1 hdistinct)
        (hweighted' hweighted) (mt haccounts.mem_iff.2 hforeign)
        (mt (reachable_iff_of_perm hperm hquorum).2 hreachable)
      rw [← hquorum, ← weight_eq_of_perm hperm] at hfault
      exact ⟨_, hfault, .same _⟩

/-- The checks give the verdict that is to be given, on signers in any order, and in another order a
verdict of the same kind. -/
theorem check_verdict (payload : Payload) (owner : AccountId) :
    (∀ verdict, payload.check owner = verdict ↔ payload.Verdict owner verdict) ∧
      ∀ signers, payload.signers.Perm signers →
        SameKind (payload.check owner) (check ⟨payload.quorum, signers⟩ owner) := by
  refine ⟨fun verdict => ?_, fun signers hperm => ?_⟩
  · cases verdict with
    | ok passed =>
        rw [check_eq_ok_iff]
        exact ⟨.fit, fun h => by cases h with | fit h => exact h⟩
    | error cause =>
        rw [check_eq_error_iff]
        exact ⟨.fault, fun h => by cases h with | fault h => exact h⟩
  · let other : Payload := ⟨payload.quorum, signers⟩
    have hperm : payload.signers.Perm other.signers := hperm
    cases hcheck : payload.check owner with
    | ok passed =>
        have hfit : other.Fit owner := (check_eq_ok_iff.1 hcheck).of_perm hperm rfl
        rw [check_eq_ok_iff.2 hfit]
        exact .same _
    | error cause =>
        obtain ⟨cause', hfault, hsame⟩ := (check_eq_error_iff.1 hcheck).of_perm hperm rfl
        rw [check_eq_error_iff.2 hfault]
        exact hsame

/-- Two signers have no weight, the owner is the third, and the quorum is out of reach. The order decides
which of the two is reported. -/
theorem check_verdict_two_unweighted :
    let payload : Payload := ⟨9, [⟨.ofLow 2, 0⟩, ⟨.ofLow 1, 0⟩, ⟨.ofLow 3, 5⟩]⟩
    let reversed : Payload := ⟨9, payload.signers.reverse⟩
    payload.Verdict (.ofLow 3) (.error (.zeroWeight (.ofLow 2))) ∧
      reversed.Verdict (.ofLow 3) (.error (.zeroWeight (.ofLow 1))) ∧
      SameKind (payload.check (.ofLow 3)) (reversed.check (.ofLow 3)) := by
  intro payload reversed
  refine ⟨?_, ?_, ?_⟩
  · exact ((check_verdict payload _).1 _).1 (by decide +kernel)
  · exact ((check_verdict reversed _).1 _).1 (by decide +kernel)
  · exact (check_verdict payload _).2 _ (List.reverse_perm _).symm

end Payload

/-! ## Transactions -/

theorem RawSigner.complete?_eq_none_iff {raw : RawSigner} :
    raw.complete? = none ↔ raw.account = none ∨ raw.weight = none := by
  obtain ⟨account?, weight?⟩ := raw
  cases account? <;> cases weight? <;> simp [complete?]

namespace Transaction

/-- What is answered to a transaction. -/
inductive Judged (tx : Transaction) : Except Malformed Request → Prop where
  | destroyed (hquorum : tx.quorum = 0) (hsigners : tx.signers = none) :
      Judged tx (.ok ⟨tx.account, tx.priorBalance, .destroy⟩)
  | replaced {listed arranged : List Signer} (hlisted : tx.signers = some (listed.map .ofSigner))
      (hfit : Payload.Fit ⟨tx.quorum, listed⟩ tx.account) (hperm : arranged.Perm listed)
      (hascending : arranged.Pairwise fun a b => a.account < b.account) :
      Judged tx (.ok ⟨tx.account, tx.priorBalance, .replace ⟨tx.quorum, arranged⟩⟩)
  /-- The signers before the one in question are all given in full. -/
  | incomplete {front : List Signer} {raw : RawSigner} {rest : List RawSigner}
      (hlisted : tx.signers = some (front.map .ofSigner ++ raw :: rest))
      (hmissing : raw.account = none ∨ raw.weight = none) :
      Judged tx (.error (.signerFormat front.length))
  | withoutQuorum {listed : List Signer} (hquorum : tx.quorum = 0)
      (hlisted : tx.signers = some (listed.map .ofSigner)) : Judged tx (.error .unknownOperation)
  | withoutSigners (hquorum : tx.quorum ≠ 0) (hsigners : tx.signers = none) :
      Judged tx (.error .unknownOperation)
  | unfit {listed arranged : List Signer} {cause : Malformed} (hquorum : tx.quorum ≠ 0)
      (hlisted : tx.signers = some (listed.map .ofSigner)) (hperm : arranged.Perm listed)
      (hsorted : arranged.Pairwise fun a b => a.account ≤ b.account)
      (hfault : Payload.Fault ⟨tx.quorum, arranged⟩ tx.account cause) : Judged tx (.error cause)

variable {tx : Transaction}

/-- Signers are given in full up to the first that is not. -/
theorem exists_first_incomplete (listed : List RawSigner) :
    (∃ signers : List Signer, listed = signers.map .ofSigner) ∨
      ∃ (front : List Signer) (raw : RawSigner) (rest : List RawSigner),
        listed = front.map .ofSigner ++ raw :: rest ∧ raw.complete? = none := by
  induction listed with
  | nil => exact .inl ⟨[], rfl⟩
  | cons raw rest ih =>
      cases hraw : raw.complete? with
      | none => exact .inr ⟨[], raw, rest, rfl, hraw⟩
      | some signer =>
          obtain rfl := RawSigner.complete?_eq_some_iff.1 hraw
          rcases ih with ⟨signers, rfl⟩ | ⟨front, other, later, rfl, hother⟩
          · exact .inl ⟨signer :: signers, rfl⟩
          · exact .inr ⟨signer :: front, other, later, rfl, hother⟩

theorem completeSigners_of_incomplete (index : Nat) (front : List Signer) {raw : RawSigner}
    (rest : List RawSigner) (hraw : raw.complete? = none) :
    completeSigners index (front.map .ofSigner ++ raw :: rest) =
      .error (.signerFormat (index + front.length)) := by
  induction front generalizing index with
  | nil => simp [completeSigners, hraw]
  | cons signer front ih =>
      have hsigner : (RawSigner.ofSigner signer).complete? = some signer :=
        RawSigner.complete?_eq_some_iff.2 rfl
      rw [List.map_cons, List.cons_append, completeSigners, hsigner]
      simp only [ih (index + 1), List.length_cons]
      rw [Nat.add_right_comm]
      rfl

theorem preflight_of_incomplete {front : List Signer} {raw : RawSigner} {rest : List RawSigner}
    (hlisted : tx.signers = some (front.map .ofSigner ++ raw :: rest))
    (hraw : raw.complete? = none) : tx.preflight = .error (.signerFormat front.length) := by
  unfold preflight request operation
  simp only [hlisted, completeSigners_of_incomplete 0 front rest hraw, Nat.zero_add]
  rfl

theorem preflight_of_none (hsigners : tx.signers = none) :
    tx.preflight =
      if tx.quorum = 0 then .ok ⟨tx.account, tx.priorBalance, .destroy⟩
      else .error .unknownOperation := by
  unfold preflight request operation
  simp only [hsigners]
  split <;> rfl

/-- Every transaction is answered as described. -/
theorem judged_preflight (tx : Transaction) : tx.Judged tx.preflight := by
  cases hsigners : tx.signers with
  | none =>
      rw [preflight_of_none hsigners]
      split
      · next hquorum => exact .destroyed hquorum hsigners
      · next hquorum => exact .withoutSigners hquorum hsigners
  | some listed =>
      rcases exists_first_incomplete listed with ⟨signers, rfl⟩ | ⟨front, raw, rest, rfl, hraw⟩
      · have hperm := arrange_perm Signer.account signers
        have hsorted := pairwise_arrange Signer.account signers
        rw [preflight_of_signers hsigners]
        split
        · next hquorum => exact .withoutQuorum hquorum hsigners
        · next hquorum =>
          cases hcheck : Payload.check ⟨tx.quorum, arrange (·.account) signers⟩ tx.account with
          | error cause =>
              exact .unfit hquorum hsigners hperm hsorted (Payload.check_eq_error_iff.1 hcheck)
          | ok _ =>
              have hfit := Payload.check_eq_ok_iff.1 hcheck
              exact .replaced hsigners (hfit.of_perm hperm rfl) hperm
                (ascending_of_nodup hsorted hfit.distinct)
      · rw [preflight_of_incomplete hsigners hraw]
        exact .incomplete hsigners (RawSigner.complete?_eq_none_iff.1 hraw)

/-- What a transaction is judged to be is what it is answered. -/
theorem Judged.preflight_eq {result : Except Malformed Request} (h : tx.Judged result) :
    tx.preflight = result := by
  cases h with
  | destroyed hquorum hsigners => rw [preflight_of_none hsigners, if_pos hquorum]
  | @replaced listed arranged hlisted hfit hperm hascending =>
      have hfit' : Payload.Fit ⟨tx.quorum, arranged⟩ tx.account := hfit.of_perm hperm.symm rfl
      have hcheck := Payload.check_eq_ok_iff.2 hfit'
      have hsorted : arranged.Pairwise fun a b => (compare a.account b.account).isLE :=
        hascending.imp Ordering.isLE_of_eq_lt
      rcases Payload.eq_or_check_eq_error (hperm.trans (arrange_perm Signer.account listed).symm)
        hsorted (pairwise_arrange Signer.account listed) tx.quorum tx.account
        with rfl | ⟨cause, hfails, -⟩
      · rw [preflight_of_signers hlisted, if_neg (UInt32.pos_iff_ne_zero.1 hfit.reachable.1), hcheck]
        rfl
      · cases hcheck.symm.trans hfails
  | incomplete hlisted hmissing =>
      exact preflight_of_incomplete hlisted (RawSigner.complete?_eq_none_iff.2 hmissing)
  | withoutQuorum hquorum hlisted => rw [preflight_of_signers hlisted, if_pos hquorum]
  | withoutSigners hquorum hsigners => rw [preflight_of_none hsigners, if_neg hquorum]
  | @unfit listed arranged cause hquorum hlisted hperm hsorted hfault =>
      have hcheck := Payload.check_eq_error_iff.2 hfault
      have harranged : Payload.check ⟨tx.quorum, arrange (·.account) listed⟩ tx.account =
          .error cause := by
        rcases Payload.eq_or_check_eq_error (hperm.trans (arrange_perm Signer.account listed).symm)
          hsorted (pairwise_arrange Signer.account listed) tx.quorum tx.account
          with rfl | ⟨other, hother, hsame⟩
        · exact hcheck
        · exact hsame.trans (hother.symm.trans hcheck)
      rw [preflight_of_signers hlisted, if_neg hquorum, harranged]
      rfl

/-- Preflight accepts just the transactions that make sense, and rejects every other one for the first
thing wrong with it. -/
theorem preflight_eq_iff (tx : Transaction) (result : Except Malformed Request) :
    tx.preflight = result ↔ tx.Judged result := by
  constructor
  · rintro rfl
    exact judged_preflight tx
  · exact Judged.preflight_eq

/-- A signer that is incomplete is reported even where the fields ask for nothing. -/
example : preflight { account := .zero, signers := some [.ofSigner ⟨.ofLow 1, 1⟩, {}] } =
    .error (.signerFormat 1) := by decide

end Transaction

end Cosign
