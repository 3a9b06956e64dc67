-- SUMMARY: A directory answers its calls as a plain list of keys with pages does.
import Cosign.Proofs.Directory.Calls

/-!
# Refinement

To its callers a directory is a list of keys, each with the page it was put on.
Insertion appends a pair with a page of its choice, or is refused because the
directory is full. Removal erases the first occurrence of a pair, or is refused
because there is none. Listing gives the keys. Pages that fill up, run empty, are
linked and unlinked do not show, and a refused call changes nothing.
-/

namespace Cosign

namespace Directory

/-- How a list of keys with pages answers a call on a ledger. A directory is full only when a page
with no number after it holds as many keys as a page may. -/
inductive Answers (root : Key) (ledger : Ledger) (pairs : List (Key × UInt64)) :
    Call → Except LedgerError Answer × Ledger → List (Key × UInt64) → Prop
  | inserted {owner : Option AccountId} {key : Key} {number : UInt64} {ledger' : Ledger} :
      Answers root ledger pairs (.insert owner key) (.ok (.inserted number), ledger')
        (pairs ++ [(key, number)])
  | full {owner : Option AccountId} {key : Key} (last : UInt64)
      (hlast : ledger.terms.limits.pages.toNat ≤ last.toNat + 1)
      (hkeys : ledger.terms.limits.keysPerPage.toNat ≤ pairs.countP fun pair => pair.2 = last) :
      Answers root ledger pairs (.insert owner key) (.error (.directoryFull root), ledger) pairs
  | removed {number : UInt64} {key : Key} {keepRoot : Bool} {ledger' : Ledger}
      (hmem : (key, number) ∈ pairs) :
      Answers root ledger pairs (.remove number key keepRoot) (.ok .removed, ledger')
        (pairs.erase (key, number))
  | missing {number : UInt64} {key : Key} {keepRoot : Bool} (hmem : (key, number) ∉ pairs) :
      Answers root ledger pairs (.remove number key keepRoot)
        (.error (.directoryEntryMissing number key), ledger) pairs
  | listed :
      Answers root ledger pairs .keys (.ok (.listed (pairs.map Prod.fst)), ledger) pairs

/-- Every call of a run is answered as by a list, which each call leaves for the next. -/
inductive Refines (root : Key) : List (Key × UInt64) → List Call → Ledger → Prop
  | done {pairs : List (Key × UInt64)} {ledger : Ledger} : Refines root pairs [] ledger
  | call {pairs pairs' : List (Key × UInt64)} {call : Call} {calls : List Call} {ledger : Ledger}
      (hcall : Answers root ledger pairs call ((call.operation root).run ledger) pairs')
      (hcalls : Refines root pairs' calls (call.after root ledger)) :
      Refines root pairs (call :: calls) ledger

variable {root : Key} {N : Set UInt64} {sheets sheets' : List Sheet} {ledger ledger' : Ledger}
  {call : Call} {result : Except LedgerError Answer}

/-- An effect on sheets is an answer of their listing. -/
theorem Effect.answers (h : Effect root (View.contents ledger) sheets call
      (result, View.contents ledger') sheets') (hordered : Ordered sheets) :
    Answers root ledger (listing sheets) call (result, ledger') (listing sheets') := by
  generalize hcontents : View.contents ledger' = contents' at h
  cases h with
  | inserted hinsertion =>
      rw [hinsertion.listing_eq]
      exact .inserted
  | full hfull =>
      obtain rfl := Ledger.ext_contents hcontents
      obtain ⟨front, tail, rfl, hkeys, hlast⟩ := hfull
      refine .full tail.number ?_ ?_
      · unfold successor? at hlast
        split at hlast
        · cases hlast
        · next hnot => exact Nat.le_of_not_lt hnot
      · rw [hordered.countP_listing]
        exact hkeys
  | removed hremoval =>
      rw [hremoval.listing_eq hordered]
      exact .removed hremoval.mem_listing
  | missing hmissing =>
      obtain rfl := Ledger.ext_contents hcontents
      exact .missing hmissing
  | listed =>
      obtain rfl := Ledger.ext_contents hcontents
      rw [← map_fst_listing]
      exact .listed

/-- A run on a ledger that holds a ring is answered as by the ring's listing. -/
theorem Ring.refines (calls : List Call) (ledger : Ledger) {sheets : List Sheet}
    (h : Ring root N sheets (View.contents ledger)) (hapart : KeysApart root N)
    (hfits : Fits ledger.terms.limits sheets)
    (hnumbers : ∀ number ∈ occurring root calls ledger, number ∈ N) :
    Refines root (listing sheets) calls ledger := by
  induction calls generalizing ledger sheets with
  | nil => exact .done
  | cons call calls ih =>
      simp only [occurring, List.mem_append] at hnumbers
      obtain ⟨sheets', heffect, hring, hfits, -⟩ :=
        h.run_call_ledger hapart hfits call fun number hnumber => hnumbers number (.inl hnumber)
      refine .call (heffect.answers h.ordered) ?_
      exact ih _ hring hfits fun number hnumber => hnumbers number (.inr hnumber)

/-- A run of calls on a directory that has no pages yet is answered as by a list that is empty at
first, if the pages that occur in the run have different keys and nothing else is kept there. -/
theorem calls_refine_list (root : Key) (calls : List Call) (ledger : Ledger)
    (hapart : ∀ i ∈ occurring root calls ledger, ∀ j ∈ occurring root calls ledger,
      (Slot.page root i).key = (Slot.page root j).key → i = j)
    (hfree : ∀ i ∈ occurring root calls ledger, View.find? ledger (Slot.page root i).key = none) :
    Refines root [] calls ledger := by
  have hring : Ring root { i | i ∈ occurring root calls ledger } [] (View.contents ledger) :=
    .nil hfree
  have hinjective : KeysApart root { i | i ∈ occurring root calls ledger } :=
    fun i hi j hj heq => hapart i hi j hj heq
  exact hring.refines calls ledger hinjective (.nil _) fun number hnumber => hnumber

/-- With one key to a page: the second key goes to a page of its own, and the root is emptied but
stays before it. -/
theorem calls_refine_list_two_pages :
    Refines (Octets.zero 32) []
      [.insert none (Octets.zero 32), .insert none (Octets.zero 32), .remove 0 (Octets.zero 32) false,
        .remove 0 (Octets.zero 32) false, .keys]
      (.empty { limits := { keysPerPage := 1 } }) := by
  have hoccurring : occurring (Octets.zero 32)
      [.insert none (Octets.zero 32), .insert none (Octets.zero 32), .remove 0 (Octets.zero 32) false,
        .remove 0 (Octets.zero 32) false, .keys]
      (.empty { limits := { keysPerPage := 1 } }) = [0, 0, 0, 1, 0, 0, 0] := by decide +kernel
  have hkey : (Slot.page (Octets.zero 32) 1).key ≠ Octets.zero 32 := by decide +kernel
  apply calls_refine_list
  · rw [hoccurring]
    simp [hkey, hkey.symm]
  · intro i hi
    simp [Ledger.find?_eq, Ledger.empty]

end Directory

end Cosign
