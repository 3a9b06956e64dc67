-- SUMMARY: Calls on a directory, the pages they go to, and what a run of calls does to the sheets.
import Cosign.Proofs.Commit
import Cosign.Proofs.Directory.Run

/-!
# Calls

A call inserts, removes or lists. Its effect on a directory is an effect on the
sheets (`Effect`), whatever the call is and whether it fails or not. The effect
is proved for contents once (`Ring.run_call`), and carries over to ledgers.
-/

namespace Cosign

namespace Directory

inductive Call where
  | insert (owner : Option AccountId) (key : Key)
  | remove (index : UInt64) (key : Key) (keepRoot : Bool)
  | keys

inductive Answer where
  | inserted (number : UInt64)
  | removed
  | listed (keys : List Key)

/-- The number of the page that an inserted key goes to, unless the directory is full. -/
def target? {σ : Type} [View σ] (view : σ) (root : Key) : Option UInt64 :=
  let limits := (View.terms view).limits
  match View.find? view root with
  | none => some 0
  | some entry => do
    let first ← entry.directoryPage?
    let tail ← View.page? view root first.previous
    if tail.keys.length < limits.keysPerPage.toNat then some first.previous
    else successor? limits first.previous

namespace Call

def operation (root : Key) : Call → Procedure LedgerError Answer
  | insert owner key => do return .inserted (← Directory.insert root owner key)
  | remove index key keepRoot => do
    Directory.remove root index key keepRoot
    return .removed
  | keys => do return .listed (← Directory.keys root)

/-- The numbers of the pages that a call starts from or goes to. -/
def numbers {σ : Type} [View σ] (view : σ) (root : Key) : Call → List UInt64
  | insert _ _ => 0 :: (target? view root).toList
  | remove index _ _ => [index]
  | keys => [0]

/-- The ledger after a call. -/
def after (root : Key) (ledger : Ledger) (call : Call) : Ledger :=
  ((call.operation root).run ledger).2

end Call

/-- The numbers of the pages that the calls of a run start from or go to. -/
def occurring (root : Key) : List Call → Ledger → List UInt64
  | [], _ => []
  | call :: calls, ledger =>
    call.numbers ledger root ++ occurring root calls (call.after root ledger)

/-- The ledger after a run of calls. -/
def afterCalls (root : Key) (calls : List Call) (ledger : Ledger) : Ledger :=
  calls.foldl (Call.after root) ledger

theorem occurring_append (root : Key) (calls rest : List Call) (ledger : Ledger) :
    occurring root (calls ++ rest) ledger =
      occurring root calls ledger ++ occurring root rest (afterCalls root calls ledger) := by
  induction calls generalizing ledger with
  | nil => rfl
  | cons call calls ih => simp [occurring, ih, afterCalls]

theorem Call.terms_after (root : Key) (ledger : Ledger) (call : Call) :
    (call.after root ledger).terms = ledger.terms :=
  Procedure.terms_run (call.operation root) ledger

/-- What a call makes of the sheets and what it answers. Refusals and listings change nothing. -/
inductive Effect (root : Key) (contents : Contents) (sheets : List Sheet) :
    Call → Except LedgerError Answer × Contents → List Sheet → Prop
  | inserted {owner : Option AccountId} {key : Key} {number : UInt64} {sheets' : List Sheet}
      {contents' : Contents}
      (h : Insertion contents.terms.limits owner key sheets number sheets') :
      Effect root contents sheets (.insert owner key) (.ok (.inserted number), contents') sheets'
  | full {owner : Option AccountId} {key : Key} (h : Full contents.terms.limits sheets) :
      Effect root contents sheets (.insert owner key) (.error (.directoryFull root), contents) sheets
  | removed {index : UInt64} {key : Key} {keepRoot : Bool} {sheets' : List Sheet}
      {contents' : Contents} (h : Removal key index keepRoot sheets sheets') :
      Effect root contents sheets (.remove index key keepRoot) (.ok .removed, contents') sheets'
  | missing {index : UInt64} {key : Key} {keepRoot : Bool} (h : (key, index) ∉ listing sheets) :
      Effect root contents sheets (.remove index key keepRoot)
        (.error (.directoryEntryMissing index key), contents) sheets
  | listed :
      Effect root contents sheets .keys (.ok (.listed (sheets.flatMap (·.keys))), contents) sheets

variable {root : Key} {N : Set UInt64} {contents : Contents} {sheets sheets' : List Sheet}

theorem Ring.target?_eq (h : Ring root N sheets contents) (hzero : 0 ∈ N)
    {owner : Option AccountId} {key : Key} {number : UInt64}
    (hinsertion : Insertion contents.terms.limits owner key sheets number sheets') :
    target? contents root = some number := by
  unfold target?
  cases hinsertion with
  | first =>
      have hnone : contents.entries root = none := h.free 0 hzero (by simp)
      simp [View.find?, hnone]
  | push hroom =>
      obtain ⟨first, hfirst, hprevious⟩ := h.exists_root
      simp [View.find?, View.terms, View.page?, hfirst, hprevious, h.entries_last,
        Entry.directoryPage?, hroom]
  | append hfull hfresh =>
      obtain ⟨first, hfirst, hprevious⟩ := h.exists_root
      simp [View.find?, View.terms, View.page?, hfirst, hprevious, h.entries_last,
        Entry.directoryPage?, Nat.not_lt_of_le hfull, hfresh]

/-- The numbers that an insertion starts from and may go to are among those of the call. -/
theorem Ring.number_mem (h : Ring root N sheets contents) {owner : Option AccountId} {key : Key}
    (hnumbers : ∀ number ∈ (Call.insert owner key).numbers contents root, number ∈ N) :
    0 ∈ N ∧ ∀ number sheets',
      Insertion contents.terms.limits owner key sheets number sheets' → number ∈ N := by
  have hzero : 0 ∈ N := hnumbers 0 (by simp [Call.numbers])
  refine ⟨hzero, fun number sheets' hinsertion => hnumbers number ?_⟩
  simp [Call.numbers, h.target?_eq hzero hinsertion]

/-- What a call does to contents that hold a ring. -/
theorem Ring.run_call (h : Ring root N sheets contents) (hapart : KeysApart root N)
    (hfits : Fits contents.terms.limits sheets) (call : Call)
    (hnumbers : ∀ number ∈ call.numbers contents root, number ∈ N) :
    ∃ sheets', Effect root contents sheets call ((call.operation root).run contents) sheets' ∧
      Ring root N sheets' ((call.operation root).run contents).2 ∧
      Fits contents.terms.limits sheets' ∧
      SameOutside root N contents ((call.operation root).run contents).2 := by
  cases call with
  | insert owner key =>
      obtain ⟨hzero, htarget⟩ := h.number_mem hnumbers
      simp only [Call.operation]
      rcases h.run_insert hapart hzero owner key htarget with
        ⟨number, sheets', contents', hinsertion, hrun, hring, hsame⟩ | ⟨hfull, hrun⟩
      · rw [Procedure.run_bind_ok hrun]
        exact ⟨sheets', .inserted hinsertion, hring, hinsertion.fits hfits, hsame⟩
      · rw [Procedure.run_bind_error hrun]
        exact ⟨sheets, .full hfull, h, hfits, .refl contents⟩
  | remove index key keepRoot =>
      have hindex : index ∈ N := hnumbers index (by simp [Call.numbers])
      simp only [Call.operation]
      rcases h.run_remove hapart hindex key keepRoot with
        ⟨sheets', contents', hremoval, hrun, hring, hsame⟩ | ⟨hmissing, hrun⟩
      · rw [Procedure.run_bind_ok hrun]
        exact ⟨sheets', .removed hremoval, hring, hremoval.fits hfits, hsame⟩
      · rw [Procedure.run_bind_error hrun]
        exact ⟨sheets, .missing hmissing, h, hfits, .refl contents⟩
  | keys =>
      have hzero : 0 ∈ N := hnumbers 0 (by simp [Call.numbers])
      simp only [Call.operation]
      rw [Procedure.run_bind_ok (h.run_keys hzero hfits)]
      exact ⟨sheets, .listed, h, hfits, .refl contents⟩

/-- The same for a ledger. -/
theorem Ring.run_call_ledger {ledger : Ledger} (h : Ring root N sheets (View.contents ledger))
    (hapart : KeysApart root N) (hfits : Fits ledger.terms.limits sheets) (call : Call)
    (hnumbers : ∀ number ∈ call.numbers ledger root, number ∈ N) :
    ∃ sheets',
      Effect root (View.contents ledger) sheets call
        (((call.operation root).run ledger).1, View.contents (call.after root ledger)) sheets' ∧
      Ring root N sheets' (View.contents (call.after root ledger)) ∧
      Fits (call.after root ledger).terms.limits sheets' ∧
      SameOutside root N (View.contents ledger) (View.contents (call.after root ledger)) := by
  obtain ⟨sheets', heffect, hring, hfits, hsame⟩ := h.run_call hapart hfits call hnumbers
  obtain ⟨hresult, hafter⟩ := Procedure.run_contents (call.operation root) ledger
  have hterms := call.terms_after root ledger
  unfold Call.after at hterms ⊢
  rw [hresult, hafter, hterms]
  exact ⟨sheets', heffect, hring, hfits, hsame⟩

end Directory

end Cosign
