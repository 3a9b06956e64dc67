-- SUMMARY: After any run of calls, the pages of a directory are a sound ring and nothing else is left.
import Cosign.Proofs.Directory.Calls

/-!
# Soundness

Whatever calls are made on a directory, its pages stay linked in the order of
their numbers, from the root to the last and back, only the root may be empty, no
limit is exceeded, each page has the owner it was put with, and no page is left
behind outside the ring. Once all keys are gone the pages are gone too, apart from
a root that the last removal was told to keep.

The owners and that wish are known from the calls only, so they are recorded
beside the ledger.
-/

namespace Cosign

namespace Directory

/-- A ledger with what the calls on a directory have said about it. -/
structure Recorded where
  ledger : Ledger
  /-- The owner given by the call that last put a page of a number where there was none. -/
  owners : UInt64 → Option AccountId
  /-- Whether the last removal that went through was told to keep the root. -/
  kept : Bool

namespace Recorded

/-- A ledger before any calls. -/
def start (ledger : Ledger) : Recorded := ⟨ledger, fun _ => none, false⟩

def call (root : Key) (recorded : Recorded) (call : Call) : Recorded where
  ledger := call.after root recorded.ledger
  owners :=
    match call, ((call.operation root).run recorded.ledger).1 with
    | .insert owner _, .ok (.inserted number) =>
      fun other =>
        if other = number ∧ View.find? recorded.ledger (Slot.page root number).key = none then owner
        else recorded.owners other
    | _, _ => recorded.owners
  kept :=
    match call, ((call.operation root).run recorded.ledger).1 with
    | .remove _ _ keepRoot, .ok _ => keepRoot
    | _, _ => recorded.kept

/-- The record after a run of calls. -/
def after (root : Key) (recorded : Recorded) (calls : List Call) : Recorded :=
  calls.foldl (Recorded.call root) recorded

end Recorded

/-- The sheets are all there is of a directory, and are as the calls have made them. -/
structure Sound (root : Key) (N : Set UInt64) (sheets : List Sheet) (recorded : Recorded) :
    Prop where
  ring : Ring root N sheets (View.contents recorded.ledger)
  fits : Fits recorded.ledger.terms.limits sheets
  owner : ∀ sheet ∈ sheets, sheet.owner = recorded.owners sheet.number
  only : ∀ key page, View.find? recorded.ledger key = some (.directoryPage page) →
    page.root = root → ∃ sheet ∈ sheets, key = (Slot.page root sheet.number).key
  drained : listing sheets = [] →
    sheets = [] ∨ recorded.kept = true ∧ ∃ owner, sheets = [⟨0, owner, []⟩]

namespace Sound

variable {root : Key} {N : Set UInt64} {sheets sheets' : List Sheet} {recorded : Recorded}

/-- No page of the directory is anywhere but in the ring. -/
theorem only_of_sameOutside (h : Sound root N sheets recorded) {contents : Contents}
    (hring : Ring root N sheets' contents)
    (hsame : SameOutside root N (View.contents recorded.ledger) contents) {key : Key}
    {page : DirectoryPage} (hpage : contents.entries key = some (.directoryPage page))
    (hroot : page.root = root) : ∃ sheet ∈ sheets', key = (Slot.page root sheet.number).key := by
  by_cases hkey : ∃ number ∈ N, key = (Slot.page root number).key
  · obtain ⟨number, hnumber, rfl⟩ := hkey
    by_cases hused : number ∈ numbers sheets'
    · obtain ⟨sheet, hsheet, rfl⟩ := List.mem_map.1 hused
      exact ⟨sheet, hsheet, rfl⟩
    · rw [hring.free number hnumber hused] at hpage
      cases hpage
  · have hold : View.find? recorded.ledger key = some (.directoryPage page) := by
      rw [← hpage, hsame.entries key fun number hnumber heq => hkey ⟨number, hnumber, heq⟩]
      rfl
    obtain ⟨sheet, hsheet, heq⟩ := h.only key page hold hroot
    exact absurd ⟨sheet.number, h.ring.within _ (List.mem_map_of_mem hsheet), heq⟩ hkey

/-- The owners recorded are those of the pages. -/
theorem owner_of_effect (h : Sound root N sheets recorded) {call : Call} {contents : Contents}
    (heffect : Effect root (View.contents recorded.ledger) sheets call
      (((call.operation root).run recorded.ledger).1, contents) sheets')
    (hring : Ring root N sheets' contents) {sheet : Sheet} (hsheet : sheet ∈ sheets') :
    sheet.owner = (recorded.call root call).owners sheet.number := by
  generalize hresult : ((call.operation root).run recorded.ledger).1 = result at heffect
  cases heffect with
  | @inserted owner key number _ _ hinsertion =>
      simp only [Recorded.call, hresult]
      rcases hinsertion.owner_eq h.ring.ordered hsheet with
        ⟨old, hold, hnumber, howner⟩ | ⟨hnumber, howner, hnew⟩
      · rw [← howner, ← hnumber, h.owner old hold, if_neg]
        rintro ⟨rfl, hnone⟩
        obtain ⟨page, hpage⟩ := h.ring.exists_page (List.mem_map_of_mem hold)
        rw [show View.find? recorded.ledger _ = _ from hpage] at hnone
        cases hnone
      · have hmem : number ∈ N := hnumber ▸ hring.within _ (List.mem_map_of_mem hsheet)
        have hnone : View.find? recorded.ledger (Slot.page root number).key = none :=
          h.ring.free number hmem hnew
        rw [howner, if_pos ⟨hnumber, hnone⟩]
  | removed hremoval =>
      obtain ⟨old, hold, hnumber, howner, -⟩ := hremoval.exists_old hsheet
      simp only [Recorded.call, hresult]
      rw [← howner, ← hnumber, h.owner old hold]
  | full | missing | listed =>
      simp only [Recorded.call, hresult]
      exact h.owner sheet hsheet

/-- Without keys no pages are left, or the root is, because it was to be kept. -/
theorem drained_of_effect (h : Sound root N sheets recorded) {call : Call} {contents : Contents}
    (heffect : Effect root (View.contents recorded.ledger) sheets call
      (((call.operation root).run recorded.ledger).1, contents) sheets')
    (hring : Ring root N sheets' contents) (hempty : listing sheets' = []) :
    sheets' = [] ∨ (recorded.call root call).kept = true ∧ ∃ owner, sheets' = [⟨0, owner, []⟩] := by
  generalize hresult : ((call.operation root).run recorded.ledger).1 = result at heffect
  cases heffect with
  | inserted hinsertion => simp [hinsertion.listing_eq] at hempty
  | @removed index key keepRoot _ _ hremoval =>
      simp only [Recorded.call, hresult]
      cases keepRoot with
      | false => exact .inl (hremoval.eq_nil_of_listing_eq_nil h.ring.ordered hempty)
      | true =>
          cases sheets' with
          | nil => exact .inl rfl
          | cons first rest =>
              obtain ⟨-, hnumber, hkeys, rfl⟩ :=
                (show Ordered ([] ++ first :: rest) from hring.ordered).alone_of_listing_eq_nil hempty
              refine .inr ⟨rfl, first.owner, ?_⟩
              rw [← hnumber, ← hkeys]
  | full | missing | listed =>
      simp only [Recorded.call, hresult]
      exact h.drained hempty

/-- One call, whatever it is and answers, leaves a sound directory. -/
theorem call (h : Sound root N sheets recorded) (hapart : KeysApart root N) (call : Call)
    (hnumbers : ∀ number ∈ call.numbers recorded.ledger root, number ∈ N) :
    ∃ sheets', Sound root N sheets' (recorded.call root call) := by
  obtain ⟨sheets', heffect, hring, hfits, hsame⟩ :=
    h.ring.run_call_ledger hapart h.fits call hnumbers
  refine ⟨sheets', ?_⟩
  constructor
  · exact hring
  · exact hfits
  · intro sheet hsheet
    exact h.owner_of_effect heffect hring hsheet
  · intro key page hpage hroot
    exact h.only_of_sameOutside hring hsame hpage hroot
  · intro hempty
    exact h.drained_of_effect heffect hring hempty

/-- So does any run of calls. -/
theorem after (calls : List Call) {recorded : Recorded} {sheets : List Sheet}
    (h : Sound root N sheets recorded) (hapart : KeysApart root N)
    (hnumbers : ∀ number ∈ occurring root calls recorded.ledger, number ∈ N) :
    ∃ sheets', Sound root N sheets' (recorded.after root calls) := by
  induction calls generalizing recorded sheets with
  | nil => exact ⟨sheets, h⟩
  | cons call calls ih =>
      simp only [occurring, List.mem_append] at hnumbers
      obtain ⟨sheets', hcall⟩ := h.call hapart call fun number hnumber =>
        hnumbers number (.inl hnumber)
      exact ih hcall fun number hnumber => hnumbers number (.inr hnumber)

end Sound

theorem mem_occurring_append {root : Key} {number : UInt64} (calls rest : List Call)
    {ledger : Ledger} (h : number ∈ occurring root calls ledger) :
    number ∈ occurring root (calls ++ rest) ledger := by
  rw [occurring_append]
  exact List.mem_append_left _ h

/-- After every call of a run, failed or not, the directory is sound, if it had no pages at first
and the pages that occur in the run have different keys where nothing else is kept. -/
theorem sound_after_calls (root : Key) (calls : List Call) (ledger : Ledger)
    (hapart : ∀ i ∈ occurring root calls ledger, ∀ j ∈ occurring root calls ledger,
      (Slot.page root i).key = (Slot.page root j).key → i = j)
    (hfree : ∀ i ∈ occurring root calls ledger, View.find? ledger (Slot.page root i).key = none)
    (hnone : ∀ key page, View.find? ledger key = some (.directoryPage page) → page.root ≠ root)
    (before after : List Call) (hcalls : calls = before ++ after) :
    ∃ sheets, Sound root { i | i ∈ occurring root calls ledger } sheets
      ((Recorded.start ledger).after root before) := by
  have hsound : Sound root { i | i ∈ occurring root calls ledger } [] (.start ledger) := by
    constructor
    · exact .nil hfree
    · exact .nil _
    · intro sheet hsheet
      cases hsheet
    · intro key page hpage hroot
      exact absurd hroot (hnone key page hpage)
    · intro hempty
      exact .inl rfl
  apply hsound.after before fun i hi j hj heq => hapart i hi j hj heq
  intro number hnumber
  rw [hcalls]
  exact mem_occurring_append before after hnumber

/-- With one key to a page: after the root is emptied under a second page. -/
theorem sound_after_calls_two_pages :
    ∃ sheets,
      Sound (Octets.zero 32)
        { i | i ∈ occurring (Octets.zero 32)
          [.insert none (Octets.zero 32), .insert none (Octets.zero 32),
            .remove 0 (Octets.zero 32) false, .remove 1 (Octets.zero 32) true]
          (.empty { limits := { keysPerPage := 1 } }) }
        sheets
        ((Recorded.start (.empty { limits := { keysPerPage := 1 } })).after (Octets.zero 32)
          [.insert none (Octets.zero 32), .insert none (Octets.zero 32),
            .remove 0 (Octets.zero 32) false]) := by
  have hoccurring : occurring (Octets.zero 32)
      [.insert none (Octets.zero 32), .insert none (Octets.zero 32),
        .remove 0 (Octets.zero 32) false, .remove 1 (Octets.zero 32) true]
      (.empty { limits := { keysPerPage := 1 } }) = [0, 0, 0, 1, 0, 1] := by decide +kernel
  have hkey : (Slot.page (Octets.zero 32) 1).key ≠ Octets.zero 32 := by decide +kernel
  refine sound_after_calls _ _ _ ?_ ?_ ?_ _ [.remove 1 (Octets.zero 32) true] rfl
  · rw [hoccurring]
    simp [hkey, hkey.symm]
  · intro i hi
    simp [Ledger.find?_eq, Ledger.empty]
  · intro key page hpage
    simp [Ledger.find?_eq, Ledger.empty] at hpage

end Directory

end Cosign
