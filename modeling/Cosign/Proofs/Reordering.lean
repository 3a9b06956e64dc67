-- SUMMARY: The order in which a transaction lists its signers makes no difference to anything.
import Cosign.Proofs.Preflight
import Cosign.Proofs.System

/-!
# Reordering

Signers are arranged before anything else is done with them, but signers of the same
account keep the order they were listed in, so a list with duplicates may be arranged
in several ways. It gets the same answer all the same, because the search for
duplicates comes before any check that the arrangement could matter to, and the
account it reports depends on the accounts alone. Without duplicates there is only
one arrangement (`eq_of_perm_of_pairwise`).
-/

namespace Cosign

/-! ## Arrangements -/

/-- Elements that differ in their keys can be arranged in one way only. -/
theorem eq_of_perm_of_pairwise {α : Type} {n : Nat} {key : α → Octets n} {xs ys : List α}
    (hperm : xs.Perm ys) (hxs : xs.Pairwise fun a b => (compare (key a) (key b)).isLE)
    (hys : ys.Pairwise fun a b => (compare (key a) (key b)).isLE)
    (hkey : ∀ x ∈ xs, ∀ y ∈ xs, key x = key y → x = y) : xs = ys := by
  refine List.Perm.eq_of_pairwise ?_ hxs hys hperm
  intro a b ha hb hab hba
  exact hkey a ha b (hperm.mem_iff.2 hb) (eq_of_isLE_of_isLE hab hba)

theorem arrange_eq_of_perm {n : Nat} {xs ys : List (Octets n)} (hperm : xs.Perm ys) :
    arrange id xs = arrange id ys := by
  have hsame : (arrange id xs).Perm (arrange id ys) :=
    (arrange_perm id xs).trans (hperm.trans (arrange_perm id ys).symm)
  exact eq_of_perm_of_pairwise hsame (pairwise_arrange id xs) (pairwise_arrange id ys)
    fun _ _ _ _ heq => heq

/-! ## Checks -/

namespace Payload

variable {payload payload' : Payload} (hperm : payload.signers.Perm payload'.signers)
include hperm

theorem checkCount_eq_of_perm : payload.checkCount = payload'.checkCount := by
  unfold checkCount
  rw [hperm.length_eq]

/-- The duplicate that is found does not depend on where its occurrences stand. -/
theorem checkDistinct_eq_of_perm : payload.checkDistinct = payload'.checkDistinct := by
  have harranged : arrange id (payload.signers.map (·.account)) =
      arrange id (payload'.signers.map (·.account)) := arrange_eq_of_perm (hperm.map _)
  unfold checkDistinct
  rw [harranged]

/-- Duplicates are found before any check that could tell the two orders apart. -/
theorem exists_check_eq_error (hduplicate : payload.checkDistinct ≠ .ok ()) (owner : AccountId) :
    ∃ cause, payload.check owner = .error cause ∧ payload'.check owner = .error cause := by
  have hcount := checkCount_eq_of_perm hperm
  have hdistinct := checkDistinct_eq_of_perm hperm
  unfold check
  rw [← hcount, ← hdistinct]
  cases payload.checkCount with
  | error cause => exact ⟨cause, rfl, rfl⟩
  | ok _ =>
      cases hresult : payload.checkDistinct with
      | error cause => exact ⟨cause, rfl, rfl⟩
      | ok _ => exact absurd hresult hduplicate

end Payload

/-- Two arranged lists of the same signers are one, or fail for the same cause. -/
theorem Payload.eq_or_check_eq_error {signers signers' : List Signer} (hperm : signers.Perm signers')
    (hsorted : signers.Pairwise fun a b => (compare a.account b.account).isLE)
    (hsorted' : signers'.Pairwise fun a b => (compare a.account b.account).isLE)
    (quorum : UInt32) (owner : AccountId) :
    signers = signers' ∨ ∃ cause, check ⟨quorum, signers⟩ owner = .error cause ∧
      check ⟨quorum, signers'⟩ owner = .error cause := by
  by_cases hdistinct : checkDistinct ⟨quorum, signers⟩ = .ok ()
  · have hnodup : (signers.map (·.account)).Nodup := checkDistinct_eq_ok_iff.1 hdistinct
    left
    exact eq_of_perm_of_pairwise hperm hsorted hsorted'
      fun x hx y hy => List.inj_on_of_nodup_map hnodup hx hy
  · right
    exact @exists_check_eq_error ⟨quorum, signers⟩ ⟨quorum, signers'⟩ hperm hdistinct owner

/-! ## Transactions -/

/-- Signers listed in full are those that can be read from the list. -/
theorem RawSigner.map_filterMap_complete? {listed : List RawSigner}
    (hfull : ∀ raw ∈ listed, raw.complete?.isSome) :
    (listed.filterMap complete?).map .ofSigner = listed := by
  induction listed with
  | nil => rfl
  | cons raw rest ih =>
      obtain ⟨signer, hraw⟩ := Option.isSome_iff_exists.1 (hfull raw (by simp))
      rw [List.filterMap_cons_some hraw, List.map_cons,
        ih fun other hother => hfull other (List.mem_cons_of_mem _ hother),
        complete?_eq_some_iff.1 hraw]

namespace Transaction

variable {tx : Transaction}

/-- The judgement on a transaction that lists its signers in full. -/
theorem preflight_of_signers {signers : List Signer}
    (h : tx.signers = some (signers.map .ofSigner)) :
    tx.preflight =
      if tx.quorum = 0 then .error .unknownOperation
      else do
        Payload.check ⟨tx.quorum, arrange (·.account) signers⟩ tx.account
        return ⟨tx.account, tx.priorBalance,
          .replace ⟨tx.quorum, arrange (·.account) signers⟩⟩ := by
  unfold preflight request operation
  simp only [h, (completeSigners_eq_ok_iff 0).2 rfl]
  split <;> rfl

/-- Two orders of the same signers come to the same. -/
theorem preflight_eq_of_perm {signers signers' : List Signer} (hperm : signers.Perm signers')
    (h : tx.signers = some (signers.map .ofSigner)) :
    { tx with signers := some (signers'.map .ofSigner) }.preflight = tx.preflight := by
  have harranged : (arrange (·.account) signers').Perm (arrange (·.account) signers) :=
    (arrange_perm _ signers').trans (hperm.symm.trans (arrange_perm _ signers).symm)
  rw [preflight_of_signers h, preflight_of_signers rfl]
  rcases Payload.eq_or_check_eq_error harranged (pairwise_arrange _ signers')
    (pairwise_arrange _ signers) tx.quorum tx.account with heq | ⟨cause, hcheck', hcheck⟩
  · rw [heq]
  · simp only [hcheck, hcheck']
    rfl

/-- A transaction that lists its signers in full, in any order, or lists none is judged the same, and
does the same to every service and every ledger. -/
theorem order_irrelevant {listed? : Option (List RawSigner)}
    (hperm : Option.Rel List.Perm tx.signers listed?)
    (hfull : ∀ listed, tx.signers = some listed → ∀ raw ∈ listed, raw.complete?.isSome) :
    { tx with signers := listed? }.preflight = tx.preflight ∧
      ∀ system : System, system.apply { tx with signers := listed? } = system.apply tx := by
  have hpreflight : { tx with signers := listed? }.preflight = tx.preflight := by
    cases hsigners : tx.signers with
    | none =>
        rw [hsigners] at hperm
        cases hperm
        rw [← hsigners]
    | some listed =>
        rw [hsigners] at hperm
        cases hperm with
        | @some _ listed' hperm =>
            have hfull := hfull listed hsigners
            have hfull' : ∀ raw ∈ listed', raw.complete?.isSome :=
              fun raw hraw => hfull raw (hperm.mem_iff.2 hraw)
            rw [← RawSigner.map_filterMap_complete? hfull']
            apply preflight_eq_of_perm (hperm.filterMap RawSigner.complete?)
            rw [RawSigner.map_filterMap_complete? hfull, hsigners]
  refine ⟨hpreflight, fun system => ?_⟩
  unfold System.apply Service.apply Transaction.apply enact
  rw [hpreflight]

/-- The two orders are arranged differently, with weights zero and five or five and zero for the account
that is listed twice. Both are rejected for that account. -/
theorem order_irrelevant_duplicate :
    let listed := [⟨some (.ofLow 2), some 0⟩, ⟨some (.ofLow 1), some 1⟩, ⟨some (.ofLow 2), some 5⟩]
    let tx : Transaction := { account := .zero, quorum := 3, signers := some listed }
    tx.preflight = .error (.duplicateSigner (.ofLow 2)) ∧
      { tx with signers := some listed.reverse }.preflight = tx.preflight ∧
      ∀ system : System, system.apply { tx with signers := some listed.reverse } = system.apply tx := by
  intro listed tx
  refine ⟨by decide +kernel, ?_⟩
  apply order_irrelevant
  · exact .some (List.reverse_perm _).symm
  · rintro listed ⟨⟩
    decide

end Transaction

end Cosign
