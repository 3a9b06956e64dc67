-- SUMMARY: A directory as a list of sheets: pages without links, and what insertion and removal make of them.
import Cosign.Directory
import Mathlib.Data.List.Basic
import Mathlib.Data.List.Nodup

/-!
# Sheets

A sheet is what a page holds apart from its links. A directory is determined by
the list of its sheets in the order of the ring, since each page's links follow
from the numbers of the pages around it (`Sheet.page`). On such lists an insertion
and a removal are plain changes of a list (`Insertion`, `Removal`). Both keep the
list in order (`Ordered`) and within the limits (`Fits`), and to the keys listed
with their pages they do what appending and erasing do (`Insertion.listing_eq`,
`Removal.listing_eq`).
-/

namespace Cosign

namespace Directory

/-- A page without its links. -/
structure Sheet where
  number : UInt64
  owner : Option AccountId
  keys : List Key

namespace Sheet

/-- The sheet with `key` after its other keys. -/
def push (sheet : Sheet) (key : Key) : Sheet := { sheet with keys := sheet.keys ++ [key] }

/-- The sheet without the first occurrence of `key`. -/
def drop (sheet : Sheet) (key : Key) : Sheet := { sheet with keys := sheet.keys.erase key }

@[simp] theorem number_push (sheet : Sheet) (key : Key) : (sheet.push key).number = sheet.number :=
  rfl

@[simp] theorem number_drop (sheet : Sheet) (key : Key) : (sheet.drop key).number = sheet.number :=
  rfl

/-- The page of a sheet that stands after and before pages of the given numbers. The last page's
successor is the root; the root's predecessor is the last page. -/
def page (sheet : Sheet) (root : Key) (before after : List UInt64) : DirectoryPage where
  root
  owner := sheet.owner
  keys := sheet.keys
  next := after.headD 0
  previous := if before = [] then after.getLastD 0 else before.getLastD 0

@[simp] theorem keys_page (sheet : Sheet) (root : Key) (before after : List UInt64) :
    (sheet.page root before after).keys = sheet.keys := rfl

end Sheet

/-- The numbers of the pages, in the order of the ring. -/
def numbers (sheets : List Sheet) : List UInt64 := sheets.map (·.number)

@[simp] theorem numbers_nil : numbers [] = [] := rfl

@[simp] theorem numbers_cons (sheet : Sheet) (sheets : List Sheet) :
    numbers (sheet :: sheets) = sheet.number :: numbers sheets := rfl

@[simp] theorem numbers_append (front back : List Sheet) :
    numbers (front ++ back) = numbers front ++ numbers back := List.map_append

@[simp] theorem numbers_eq_nil {sheets : List Sheet} : numbers sheets = [] ↔ sheets = [] :=
  List.map_eq_nil_iff

/-- Every key with the number of its page, in the order of the ring. -/
def listing (sheets : List Sheet) : List (Key × UInt64) :=
  sheets.flatMap fun sheet => sheet.keys.map (·, sheet.number)

@[simp] theorem listing_nil : listing [] = [] := rfl

@[simp] theorem listing_cons (sheet : Sheet) (sheets : List Sheet) :
    listing (sheet :: sheets) = sheet.keys.map (·, sheet.number) ++ listing sheets := rfl

@[simp] theorem listing_append (front back : List Sheet) :
    listing (front ++ back) = listing front ++ listing back := List.flatMap_append

theorem mem_numbers_of_unlinked {before after : List Sheet} {number : UInt64} (sheet : Sheet)
    (h : number ∈ numbers (before ++ after)) : number ∈ numbers (before ++ sheet :: after) := by
  rw [numbers_append, List.mem_append] at h ⊢
  exact h.imp_right (List.mem_cons_of_mem _)

theorem mem_listing {sheets : List Sheet} {key : Key} {number : UInt64} :
    (key, number) ∈ listing sheets ↔
      ∃ sheet ∈ sheets, sheet.number = number ∧ key ∈ sheet.keys := by
  simp only [listing, List.mem_flatMap, List.mem_map, Prod.mk.injEq]
  constructor
  · rintro ⟨sheet, hsheet, _, hkey, rfl, rfl⟩
    exact ⟨sheet, hsheet, rfl, hkey⟩
  · rintro ⟨sheet, hsheet, rfl, hkey⟩
    exact ⟨sheet, hsheet, key, hkey, rfl, rfl⟩

theorem map_fst_listing (sheets : List Sheet) :
    (listing sheets).map Prod.fst = sheets.flatMap (·.keys) := by
  simp [listing, List.map_flatMap, Function.comp_def]

/-! ## Order -/

/-- Two ways of taking a list apart at an element. -/
theorem split_cases {α : Type} {before after front back : List α} {x y : α}
    (h : before ++ x :: after = front ++ y :: back) :
    (∃ mid, front = before ++ x :: mid ∧ after = mid ++ y :: back) ∨
      (before = front ∧ x = y ∧ after = back) ∨
      (∃ mid, before = front ++ y :: mid ∧ back = mid ++ x :: after) := by
  rcases List.append_eq_append_iff.1 h with ⟨rest, hfront, hrest⟩ | ⟨rest, hbefore, hrest⟩
  · cases rest with
    | nil =>
        simp only [List.nil_append, List.cons.injEq] at hrest
        exact .inr (.inl ⟨by simpa using hfront.symm, hrest⟩)
    | cons z mid =>
        simp only [List.cons_append, List.cons.injEq] at hrest
        obtain ⟨rfl, rfl⟩ := hrest
        exact .inl ⟨mid, hfront, rfl⟩
  · cases rest with
    | nil =>
        simp only [List.nil_append, List.cons.injEq] at hrest
        exact .inr (.inl ⟨by simpa using hbefore, hrest.1.symm, hrest.2.symm⟩)
    | cons z mid =>
        simp only [List.cons_append, List.cons.injEq] at hrest
        obtain ⟨rfl, rfl⟩ := hrest
        exact .inr (.inr ⟨mid, hbefore, rfl⟩)

/-- The sheets of a sound directory: numbers ascend from the root's, and only the root may be
empty. -/
structure Ordered (sheets : List Sheet) : Prop where
  ascending : (numbers sheets).Pairwise (· < ·)
  starts : (numbers sheets).headD 0 = 0
  filled : ∀ sheet ∈ sheets, sheet.number ≠ 0 → sheet.keys ≠ []

namespace Ordered

variable {sheets before after : List Sheet} {sheet : Sheet}

theorem nil : Ordered [] where
  ascending := .nil
  starts := rfl
  filled _ h := nomatch h

theorem nodup (h : Ordered sheets) : (numbers sheets).Nodup :=
  h.ascending.imp UInt64.ne_of_lt

/-- Pages before a page have smaller numbers, and pages after it greater ones. -/
theorem lt_of_split (h : Ordered (before ++ sheet :: after)) :
    (∀ number ∈ numbers before, number < sheet.number) ∧
      (∀ number ∈ numbers after, sheet.number < number) := by
  have hascending := h.ascending
  rw [numbers_append, numbers_cons, List.pairwise_append, List.pairwise_cons] at hascending
  obtain ⟨-, ⟨hafter, -⟩, hbefore⟩ := hascending
  exact ⟨fun number hnumber => hbefore number hnumber _ List.mem_cons_self, hafter⟩

theorem ne_of_mem (h : Ordered (before ++ sheet :: after)) {number : UInt64}
    (hmem : number ∈ numbers (before ++ after)) : number ≠ sheet.number := by
  rw [numbers_append, List.mem_append] at hmem
  rcases hmem with hmem | hmem
  · exact UInt64.ne_of_lt (h.lt_of_split.1 number hmem)
  · exact (UInt64.ne_of_lt (h.lt_of_split.2 number hmem)).symm

/-- No page after another is the root. -/
theorem ne_zero_of_mem (h : Ordered (before ++ sheet :: after)) {number : UInt64}
    (hmem : number ∈ numbers after) : number ≠ 0 := by
  rintro rfl
  exact UInt64.not_lt_zero (h.lt_of_split.2 0 hmem)

theorem notMem_of_lt (h : Ordered (before ++ [sheet])) {number : UInt64}
    (hlt : sheet.number < number) : number ∉ numbers (before ++ [sheet]) := by
  intro hmem
  simp only [numbers_append, numbers_cons, numbers_nil, List.mem_append,
    List.mem_singleton] at hmem
  rcases hmem with hmem | rfl
  · exact UInt64.lt_asymm hlt (h.lt_of_split.1 number hmem)
  · exact UInt64.lt_irrefl _ hlt

/-- Just the first page is the root. -/
theorem number_eq_zero_iff (h : Ordered (before ++ sheet :: after)) :
    sheet.number = 0 ↔ before = [] := by
  constructor
  · intro hzero
    cases before with
    | nil => rfl
    | cons first rest =>
        have hlt := h.lt_of_split.1 first.number (by simp)
        rw [hzero] at hlt
        exact absurd hlt UInt64.not_lt_zero
  · rintro rfl
    exact h.starts

theorem zero_mem (h : Ordered sheets) (hne : sheets ≠ []) : 0 ∈ numbers sheets := by
  cases sheets with
  | nil => exact absurd rfl hne
  | cons first rest => exact List.mem_cons.2 (.inl (show first.number = 0 from h.starts).symm)

/-- The page that a page is linked to, which for the last one is the root. -/
theorem next_mem (h : Ordered (before ++ sheet :: after)) :
    (numbers after).headD 0 ∈ numbers (before ++ sheet :: after) := by
  cases after with
  | nil => exact h.zero_mem (by simp)
  | cons next rest => simp

/-- The listing holds the keys of a page as often as the page does. -/
theorem countP_listing (h : Ordered (before ++ sheet :: after)) :
    (listing (before ++ sheet :: after)).countP (fun pair => pair.2 = sheet.number) =
      sheet.keys.length := by
  have hother : ∀ others : List Sheet, (∀ number ∈ numbers others, number ≠ sheet.number) →
      (listing others).countP (fun pair => pair.2 = sheet.number) = 0 := by
    intro others hne
    rw [List.countP_eq_zero]
    intro pair hpair
    obtain ⟨other, hmem, hnumber, -⟩ := mem_listing.1 hpair
    simpa [← hnumber] using hne other.number (List.mem_map_of_mem hmem)
  have hbefore := hother before fun number hmem => h.ne_of_mem (by simp [hmem])
  have hafter := hother after fun number hmem => h.ne_of_mem (by simp [hmem])
  have hsheet : (sheet.keys.map (·, sheet.number)).countP (fun pair => pair.2 = sheet.number) =
      sheet.keys.length := by
    simp [List.countP_map, Function.comp_def]
  rw [listing_append, listing_cons, List.countP_append, List.countP_append, hbefore, hafter, hsheet]
  omega

/-- Replacing a page by one of the same number keeps the order, if only the root may be empty. -/
theorem replace {sheet' : Sheet} (h : Ordered (before ++ sheet :: after))
    (hnumber : sheet'.number = sheet.number) (hkeys : before ≠ [] → sheet'.keys ≠ []) :
    Ordered (before ++ sheet' :: after) where
  ascending := by simpa [hnumber] using h.ascending
  starts := by
    have hstarts := h.starts
    cases before <;> simp_all
  filled other hother hne := by
    simp only [List.mem_append, List.mem_cons] at hother
    rcases hother with hother | rfl | hother
    · exact h.filled other (by simp [hother]) hne
    · exact hkeys fun hbefore => hne (hnumber.trans (h.number_eq_zero_iff.2 hbefore))
    · exact h.filled other (by simp [hother]) hne

/-- Taking a page out that is not the root keeps the order. -/
theorem unlink (h : Ordered (before ++ sheet :: after)) (hbefore : before ≠ []) :
    Ordered (before ++ after) where
  ascending := by
    refine h.ascending.sublist (List.Sublist.map _ ?_)
    exact List.Sublist.append_left (List.sublist_cons_self _ _) _
  starts := by
    have hstarts := h.starts
    cases before <;> simp_all
  filled other hother hne := by
    refine h.filled other ?_ hne
    simp only [List.mem_append, List.mem_cons] at hother ⊢
    rcases hother with hother | hother
    · exact .inl hother
    · exact .inr (.inr hother)

theorem unlink_after {left : Sheet} (h : Ordered (before ++ left :: sheet :: after)) :
    Ordered (before ++ left :: after) := by
  rw [List.append_cons] at h ⊢
  exact h.unlink (by simp)

/-- A page of a greater number can be put at the end. -/
theorem append (h : Ordered (before ++ [sheet])) (fresh : Sheet)
    (hnumber : sheet.number < fresh.number) (hkeys : fresh.keys ≠ []) :
    Ordered (before ++ [sheet, fresh]) where
  ascending := by
    have hascending := h.ascending
    have hbefore := h.lt_of_split.1
    simp only [numbers_append, numbers_cons, numbers_nil, List.pairwise_append] at hascending ⊢
    refine ⟨hascending.1, by simp [hnumber], fun number hmem other hother => ?_⟩
    have hlt := hbefore number hmem
    simp only [List.mem_cons, List.not_mem_nil, or_false] at hother
    rcases hother with rfl | rfl
    · exact hlt
    · exact UInt64.lt_trans hlt hnumber
  starts := by
    have hstarts := h.starts
    cases before <;> simp_all
  filled other hother hne := by
    simp only [List.mem_append, List.mem_cons, List.not_mem_nil, or_false] at hother
    rcases hother with hother | rfl | rfl
    · exact h.filled other (by simp [hother]) hne
    · exact h.filled other (by simp) hne
    · exact hkeys

/-- In a directory without keys a page is the root and is alone. -/
theorem alone_of_listing_eq_nil (h : Ordered (before ++ sheet :: after))
    (hempty : listing (before ++ sheet :: after) = []) :
    before = [] ∧ sheet.number = 0 ∧ sheet.keys = [] ∧ after = [] := by
  have hkeys : ∀ other ∈ before ++ sheet :: after, other.keys = [] := by
    intro other hother
    simpa using List.flatMap_eq_nil_iff.1 hempty other hother
  have hroot : ∀ other ∈ before ++ sheet :: after, other.number = 0 := by
    intro other hother
    by_contra hne
    exact h.filled other hother hne (hkeys other hother)
  have hzero : sheet.number = 0 := hroot sheet (by simp)
  refine ⟨h.number_eq_zero_iff.1 hzero, hzero, hkeys sheet (by simp), ?_⟩
  cases after with
  | nil => rfl
  | cons right rest => exact absurd (hroot right (by simp)) (h.ne_zero_of_mem (by simp))

/-! ## Links -/

/-- Behind a new last page the old one is followed by it, and the root preceded. -/
theorem page_append {front mid : List Sheet} {tail : Sheet} (h : Ordered (front ++ [tail]))
    (hsplit : front ++ [tail] = before ++ sheet :: mid) (root : Key) (fresh : Sheet) :
    sheet.page root (numbers before) (numbers (mid ++ fresh :: [])) =
      { sheet.page root (numbers before) (numbers mid) with
        next := if sheet.number = tail.number then fresh.number
          else (sheet.page root (numbers before) (numbers mid)).next
        previous := if sheet.number = 0 then fresh.number
          else (sheet.page root (numbers before) (numbers mid)).previous } := by
  have hroot : sheet.number = 0 ↔ before = [] := (hsplit ▸ h).number_eq_zero_iff
  rcases List.eq_nil_or_concat' mid with rfl | ⟨mid, last, rfl⟩
  · obtain ⟨rfl, htail⟩ := List.append_inj' hsplit rfl
    obtain rfl : tail = sheet := by simpa using htail
    by_cases hfirst : front = [] <;> simp [Sheet.page, hroot, hfirst]
  · have hnetail : sheet.number ≠ tail.number := by
      rw [← List.cons_append, ← List.append_assoc] at hsplit
      obtain ⟨rfl, hlast⟩ := List.append_inj' hsplit rfl
      obtain rfl : tail = last := by simpa using hlast
      exact UInt64.ne_of_lt (h.lt_of_split.1 _ (by simp))
    by_cases hfirst : before = [] <;> cases mid <;>
      simp [Sheet.page, hroot, hfirst, hnetail, List.getLast?_cons]

/-- Without a page its left neighbour is followed by the page after it, which the left neighbour
precedes. -/
theorem page_unlink {front back : List Sheet} {left other : Sheet}
    (h : Ordered (front ++ left :: sheet :: after))
    (hsplit : front ++ left :: after = before ++ other :: back) (root : Key) :
    ∃ before' back', front ++ left :: sheet :: after = before' ++ other :: back' ∧
      other.page root (numbers before) (numbers back) =
        { other.page root (numbers before') (numbers back') with
          next := if other.number = left.number then (numbers after).headD 0
            else (other.page root (numbers before') (numbers back')).next
          previous := if other.number = (numbers after).headD 0 then left.number
            else (other.page root (numbers before') (numbers back')).previous } := by
  have hordered : Ordered (front ++ left :: after) := h.unlink_after
  have hroot : other.number = 0 ↔ before = [] := (hsplit ▸ hordered).number_eq_zero_iff
  obtain ⟨hbelow, habove⟩ := (hsplit ▸ hordered).lt_of_split
  rcases split_cases hsplit.symm with ⟨mid, rfl, rfl⟩ | ⟨rfl, rfl, rfl⟩ | ⟨mid, rfl, rfl⟩
  · -- A page before the left neighbour: only the root's predecessor may change.
    refine ⟨before, mid ++ left :: sheet :: after, by simp, ?_⟩
    have hneleft : other.number ≠ left.number := UInt64.ne_of_lt (habove _ (by simp))
    cases after with
    | nil =>
        by_cases hfirst : before = [] <;> cases mid <;>
          simp [Sheet.page, hroot, hfirst, hneleft, List.getLast?_cons]
    | cons right rest =>
        have hneright : other.number ≠ right.number := UInt64.ne_of_lt (habove _ (by simp))
        by_cases hfirst : before = [] <;> cases mid <;>
          simp [Sheet.page, hfirst, hneleft, hneright, List.getLast?_cons]
  · -- The left neighbour, whose successor changes.
    refine ⟨before, sheet :: back, rfl, ?_⟩
    cases back with
    | nil =>
        by_cases hfirst : before = []
        · simp [Sheet.page, hroot.2 hfirst, hfirst]
        · simp [Sheet.page, hroot, hfirst]
    | cons right rest =>
        have hneright : other.number ≠ right.number := UInt64.ne_of_lt (habove _ (by simp))
        by_cases hfirst : before = [] <;>
          simp [Sheet.page, hneright, hfirst, List.getLast?_cons]
  · -- A page after: the predecessor of the first of them changes.
    refine ⟨front ++ left :: sheet :: mid, back, by simp, ?_⟩
    have hneleft : other.number ≠ left.number := (UInt64.ne_of_lt (hbelow _ (by simp))).symm
    cases mid with
    | nil => simp [Sheet.page, hneleft]
    | cons right rest =>
        have hneright : other.number ≠ right.number := (UInt64.ne_of_lt (hbelow _ (by simp))).symm
        simp [Sheet.page, hneleft, hneright, List.getLast?_cons]

end Ordered

end Directory

end Cosign
