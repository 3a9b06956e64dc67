-- SUMMARY: What a request that passes preflight is known to be.
import Cosign.Audit
import Cosign.Transaction.Request
import Mathlib.Algebra.Ring.Nat
import Mathlib.Data.List.Nodup

/-!
# Preflight

The lists that pass the checks are those that are fit to be stored (`Payload.Fit`). A
replacement that passes preflight has its signers in strictly ascending order: reading
the transaction arranges them, and the search for duplicates finds two equal
neighbours in an arranged list whenever any two accounts are equal.
-/

namespace Cosign

/-! ## Duplicates -/

theorem eq_of_isLE_of_isLE {n : Nat} {a b : Octets n} (hab : (compare a b).isLE)
    (hba : (compare b a).isLE) : a = b := by
  apply Std.LawfulEqOrd.eq_of_compare
  rw [Std.OrientedOrd.eq_swap (a := b) (b := a)] at hba
  cases hc : compare a b with
  | eq => rfl
  | lt => simp [hc] at hba
  | gt => simp [hc] at hab

/-- In an arranged list equal elements are neighbours. -/
theorem not_mem_of_ne_head {a b : AccountId} {rest : List AccountId}
    (hsorted : (a :: b :: rest).Pairwise fun a b => (compare a b).isLE) (hne : a ≠ b) :
    a ∉ b :: rest := by
  obtain ⟨hfirst, hrest⟩ := List.pairwise_cons.1 hsorted
  intro hmem
  rcases List.mem_cons.1 hmem with hsame | hlater
  · exact hne hsame
  · exact hne (eq_of_isLE_of_isLE (hfirst b (by simp)) ((List.pairwise_cons.1 hrest).1 a hlater))

theorem repeated?_eq_none_iff {xs : List AccountId}
    (hsorted : xs.Pairwise fun a b => (compare a b).isLE) : repeated? xs = none ↔ xs.Nodup := by
  induction xs with
  | nil => simp [repeated?]
  | cons a xs ih =>
      cases xs with
      | nil => simp [repeated?]
      | cons b rest =>
          unfold repeated?
          by_cases heq : a = b
          · simp [heq]
          · have hnew : a ∉ b :: rest := not_mem_of_ne_head hsorted heq
            rw [if_neg heq, ih (List.pairwise_cons.1 hsorted).2]
            exact ⟨fun hnodup => List.nodup_cons.2 ⟨hnew, hnodup⟩,
              fun hnodup => (List.nodup_cons.1 hnodup).2⟩

/-! ## Checks in turn -/

theorem seq_eq_ok_iff {ε : Type} {first second : Except ε Unit} :
    (do first; second) = .ok () ↔ first = .ok () ∧ second = .ok () := by
  cases first <;> simp [bind, Except.bind]

/-- What fails in two checks is the first, or the second after the first has passed. -/
theorem seq_eq_error_iff {ε : Type} {first second : Except ε Unit} {cause : ε} :
    (do first; second) = .error cause ↔
      first = .error cause ∨ first = .ok () ∧ second = .error cause := by
  cases first <;> simp [bind, Except.bind]

/-! ## Lists that pass -/

namespace Payload

def accounts (payload : Payload) : List AccountId := payload.signers.map (·.account)

/-- The number of signers is within its bounds. -/
def Counted (payload : Payload) : Prop :=
  1 ≤ payload.signers.length ∧ payload.signers.length ≤ 8

def Weighted (payload : Payload) : Prop := ∀ signer ∈ payload.signers, 0 < signer.weight

/-- The exact sum of the weights. -/
def weight (payload : Payload) : Nat := (payload.signers.map (·.weight.toNat)).sum

/-- The quorum asks for something, and all signers together come up to it. -/
def Reachable (payload : Payload) : Prop :=
  0 < payload.quorum ∧ payload.quorum.toNat ≤ payload.weight

/-- A list that can be stored for its owner. -/
structure Fit (payload : Payload) (owner : AccountId) : Prop where
  counted : payload.Counted
  distinct : payload.accounts.Nodup
  weighted : payload.Weighted
  foreign : owner ∉ payload.accounts
  reachable : payload.Reachable

variable {payload : Payload} {owner : AccountId}

theorem checkCount_eq_ok_iff : payload.checkCount = .ok () ↔ payload.Counted := by
  unfold checkCount Counted leastSigners mostSigners
  simp only
  split <;> simp_all

/-- No account occurs twice in signers that pass the check. -/
theorem checkDistinct_eq_ok_iff : payload.checkDistinct = .ok () ↔ payload.accounts.Nodup := by
  rw [← (arrange_perm id payload.accounts).nodup_iff,
    ← repeated?_eq_none_iff (pairwise_arrange id _)]
  unfold checkDistinct accounts
  cases repeated? (arrange id (payload.signers.map (·.account))) <;> simp

theorem checkWeights_eq_ok_iff : payload.checkWeights = .ok () ↔ payload.Weighted := by
  unfold checkWeights Weighted
  cases hfound : payload.signers.find? (·.weight == 0) with
  | none => simpa [UInt16.pos_iff_ne_zero] using hfound
  | some signer =>
      have hzero : signer.weight = 0 := by simpa using List.find?_some hfound
      have hmem : signer ∈ payload.signers := List.mem_of_find?_eq_some hfound
      simp only [reduceCtorEq, false_iff, not_forall]
      exact ⟨signer, hmem, by simp [hzero]⟩

theorem checkOwner_eq_ok_iff : payload.checkOwner owner = .ok () ↔ owner ∉ payload.accounts := by
  unfold checkOwner accounts
  split <;> simp_all

theorem totalWeight_eq_weight (payload : Payload) :
    totalWeight payload.signers = payload.weight := by
  unfold totalWeight weight
  rw [List.sum_eq_foldr, List.foldr_map]

theorem checkQuorum_eq_ok_iff : payload.checkQuorum = .ok () ↔ payload.Reachable := by
  unfold checkQuorum Reachable
  simp only [UInt32.pos_iff_ne_zero, totalWeight_eq_weight]
  split
  · next hfails =>
    simp only [reduceCtorEq, false_iff, not_and_or, not_not, Nat.not_le]
    exact hfails
  · next hpasses =>
    simp only [not_or, Nat.not_lt] at hpasses
    simp only [true_iff]
    exact hpasses

/-- A list passes if it passes every check. -/
theorem check_eq_ok_iff : payload.check owner = .ok () ↔ payload.Fit owner := by
  unfold check
  rw [seq_eq_ok_iff, seq_eq_ok_iff, seq_eq_ok_iff, seq_eq_ok_iff, checkCount_eq_ok_iff,
    checkDistinct_eq_ok_iff, checkWeights_eq_ok_iff, checkOwner_eq_ok_iff, checkQuorum_eq_ok_iff]
  constructor
  · rintro ⟨hcounted, hdistinct, hweighted, hforeign, hreachable⟩
    exact ⟨hcounted, hdistinct, hweighted, hforeign, hreachable⟩
  · rintro ⟨hcounted, hdistinct, hweighted, hforeign, hreachable⟩
    exact ⟨hcounted, hdistinct, hweighted, hforeign, hreachable⟩

end Payload

/-! ## Order -/

theorem lt_of_isLE_of_ne {n : Nat} {a b : Octets n} (hle : (compare a b).isLE) (hne : a ≠ b) :
    a < b := by
  cases hc : compare a b with
  | lt => exact hc
  | eq => exact absurd (Std.LawfulEqOrd.eq_of_compare hc) hne
  | gt => simp [hc] at hle

/-- Arranged signers without duplicates ascend strictly. -/
theorem ascending_of_nodup {signers : List Signer}
    (hsorted : signers.Pairwise fun a b => (compare a.account b.account).isLE)
    (hdistinct : (signers.map (·.account)).Nodup) :
    signers.Pairwise fun a b => a.account < b.account :=
  (hsorted.and (List.pairwise_map.1 hdistinct)).imp fun h => lt_of_isLE_of_ne h.1 h.2

theorem Audit.ascends_of_pairwise {signers : List Signer}
    (h : signers.Pairwise fun a b => a.account < b.account) : Audit.ascends signers = true := by
  induction signers with
  | nil => rfl
  | cons a rest ih =>
      cases rest with
      | nil => rfl
      | cons b rest =>
          obtain ⟨hfirst, hrest⟩ := List.pairwise_cons.1 h
          unfold ascends
          rw [ih hrest, Bool.and_true]
          exact decide_eq_true (hfirst b (by simp))

theorem Audit.pairwise_of_ascends {signers : List Signer} (h : Audit.ascends signers = true) :
    signers.Pairwise fun a b => a.account < b.account := by
  induction signers with
  | nil => exact .nil
  | cons a rest ih =>
      cases rest with
      | nil => exact List.pairwise_singleton _ _
      | cons b rest =>
          unfold ascends at h
          simp only [Bool.and_eq_true, decide_eq_true_eq] at h
          obtain ⟨hab, hrest⟩ := h
          have hpairwise := ih hrest
          refine List.pairwise_cons.2 ⟨fun c hc => ?_, hpairwise⟩
          rcases List.mem_cons.1 hc with rfl | hc
          · exact hab
          · exact Std.TransCmp.lt_trans hab ((List.pairwise_cons.1 hpairwise).1 c hc)

/-! ## Accepted requests -/

theorem RawSigner.ofSigner_inj {a b : Signer} : ofSigner a = ofSigner b ↔ a = b := by
  obtain ⟨account, weight⟩ := a
  obtain ⟨account', weight'⟩ := b
  simp [ofSigner]

/-- A signer with both its fields is what that signer is submitted as. -/
theorem RawSigner.complete?_eq_some_iff {raw : RawSigner} {signer : Signer} :
    raw.complete? = some signer ↔ raw = .ofSigner signer := by
  obtain ⟨account?, weight?⟩ := raw
  obtain ⟨account, weight⟩ := signer
  cases account? <;> cases weight? <;> simp [complete?, ofSigner]

namespace Transaction

variable {tx : Transaction} {request : Request}

/-- Just lists of signers that are all given in full can be read. -/
theorem completeSigners_eq_ok_iff (index : Nat) {listed : List RawSigner} {signers : List Signer} :
    completeSigners index listed = .ok signers ↔ listed = signers.map .ofSigner := by
  induction listed generalizing index signers with
  | nil => cases signers <;> simp [completeSigners]
  | cons raw rest ih =>
      unfold completeSigners
      cases hraw : raw.complete? with
      | none =>
          cases signers with
          | nil => simp
          | cons signer more =>
              have hne : raw ≠ .ofSigner signer := by
                intro heq
                cases hraw.symm.trans (RawSigner.complete?_eq_some_iff.2 heq)
              simp [hne]
      | some found =>
          obtain rfl := RawSigner.complete?_eq_some_iff.1 hraw
          cases signers with
          | nil => cases completeSigners (index + 1) rest <;> simp [bind, Except.bind, pure, Except.pure]
          | cons signer more =>
              rw [List.map_cons, List.cons.injEq, ← ih (index + 1), RawSigner.ofSigner_inj]
              cases completeSigners (index + 1) rest <;>
                simp [bind, Except.bind, pure, Except.pure]

/-- What is set are the quorum and the signers listed, arranged. -/
theorem operation_eq_set {payload : Payload} (h : tx.operation = .ok (.set payload)) :
    ∃ signers : List Signer, tx.signers = some (signers.map .ofSigner) ∧
      payload = ⟨tx.quorum, arrange (·.account) signers⟩ := by
  unfold operation at h
  cases hlisted : tx.signers with
  | none =>
      rw [hlisted] at h
      simp only at h
      split at h <;> cases h
  | some listed =>
      rw [hlisted] at h
      cases hsigners : completeSigners 0 listed with
      | error cause =>
          simp only [hsigners] at h
          cases h
      | ok signers =>
          simp only [hsigners, bind, Except.bind, pure, Except.pure, Except.ok.injEq] at h
          split at h
          · cases h
          · cases h
            exact ⟨signers, congrArg some ((completeSigners_eq_ok_iff 0).1 hsigners), rfl⟩

/-- A request is made for the account of its transaction, with its balance, and a replacement stores
what the operation sets. -/
theorem request_eq_ok (h : tx.request = .ok request) :
    request.account = tx.account ∧ request.priorBalance = tx.priorBalance ∧
      ∀ payload, request.action = .replace payload → tx.operation = .ok (.set payload) := by
  unfold Transaction.request at h
  cases hoperation : tx.operation with
  | error cause =>
      rw [hoperation] at h
      cases h
  | ok operation =>
      rw [hoperation] at h
      cases operation with
      | set payload =>
          cases h
          refine ⟨rfl, rfl, fun other hother => ?_⟩
          cases hother
          rfl
      | destroy =>
          cases h
          exact ⟨rfl, rfl, fun other hother => nomatch hother⟩
      | invalid => cases h

theorem preflight_eq_ok (h : tx.preflight = .ok request) :
    tx.request = .ok request ∧ request.check = .ok () := by
  unfold preflight at h
  cases hrequest : tx.request with
  | error cause =>
      rw [hrequest] at h
      cases h
  | ok found =>
      rw [hrequest] at h
      cases hcheck : found.check with
      | error cause =>
          simp only [bind, Except.bind, hcheck] at h
          cases h
      | ok passed =>
          simp only [bind, Except.bind, hcheck] at h
          cases h
          exact ⟨rfl, hcheck⟩

/-- An accepted replacement stores the signers listed, arranged, and they pass the checks. -/
theorem preflight_eq_replace {payload : Payload} (h : tx.preflight = .ok request)
    (haction : request.action = .replace payload) :
    payload.check tx.account = .ok () ∧
      ∃ listed : List Signer, tx.signers = some (listed.map .ofSigner) ∧
        payload = ⟨tx.quorum, arrange (·.account) listed⟩ := by
  obtain ⟨hrequest, hcheck⟩ := preflight_eq_ok h
  obtain ⟨haccount, -, hoperation⟩ := request_eq_ok hrequest
  simp only [Request.check, haction, haccount] at hcheck
  exact ⟨hcheck, operation_eq_set (hoperation payload haction)⟩

/-- The signers of an accepted replacement ascend strictly. -/
theorem ascending_of_preflight {payload : Payload} (h : tx.preflight = .ok request)
    (haction : request.action = .replace payload) :
    payload.signers.Pairwise fun a b => a.account < b.account := by
  obtain ⟨hcheck, listed, -, hpayload⟩ := preflight_eq_replace h haction
  have hsorted : payload.signers.Pairwise fun a b => (compare a.account b.account).isLE := by
    rw [hpayload]
    exact pairwise_arrange _ listed
  exact ascending_of_nodup hsorted
    (Payload.check_eq_ok_iff.1 hcheck).distinct

end Transaction

end Cosign
