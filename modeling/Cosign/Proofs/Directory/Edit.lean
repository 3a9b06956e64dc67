-- SUMMARY: Insertions and removals on lists of sheets, and what they do to order, limits and listing.
import Cosign.Proofs.Directory.Sheet

/-!
# Edits

An insertion starts a directory, fills up its last page or appends a page. A
removal leaves its page with other keys, leaves an empty root, or retires the
page, an empty root that is left alone going with it. These are all the cases
there are, and each says what was found.
-/

namespace Cosign

namespace Directory

/-- Nothing exceeds the limits. However small they are, a page holds one key and the root exists. -/
def Fits (limits : Limits) (sheets : List Sheet) : Prop :=
  ∀ sheet ∈ sheets, sheet.keys.length ≤ max 1 limits.keysPerPage.toNat ∧
    sheet.number.toNat < max 1 limits.pages.toNat

theorem Fits.nil (limits : Limits) : Fits limits [] := fun _ h => nomatch h

theorem successor?_eq_some {limits : Limits} {index fresh : UInt64}
    (h : successor? limits index = some fresh) :
    fresh.toNat = index.toNat + 1 ∧ fresh.toNat < limits.pages.toNat := by
  unfold successor? at h
  split at h
  · next hlt =>
    cases h
    have hbound := limits.pages.toNat_lt
    have hsum : (index + 1).toNat = index.toNat + 1 := by
      rw [UInt64.toNat_add]
      simp only [UInt64.toNat_one]
      omega
    exact ⟨hsum, hsum ▸ hlt⟩
  · cases h

theorem lt_of_successor? {limits : Limits} {index fresh : UInt64}
    (h : successor? limits index = some fresh) : index < fresh := by
  rw [UInt64.lt_iff_toNat_lt, (successor?_eq_some h).1]
  exact Nat.lt_succ_self _

/-! ## Insertion -/

/-- What inserting `key` makes of a list of sheets, with the page the key goes to. -/
inductive Insertion (limits : Limits) (owner : Option AccountId) (key : Key) :
    List Sheet → UInt64 → List Sheet → Prop
  | first : Insertion limits owner key [] 0 [⟨0, owner, [key]⟩]
  | push {front : List Sheet} {tail : Sheet}
      (hroom : tail.keys.length < limits.keysPerPage.toNat) :
      Insertion limits owner key (front ++ [tail]) tail.number (front ++ [tail.push key])
  | append {front : List Sheet} {tail : Sheet} {fresh : UInt64}
      (hfull : limits.keysPerPage.toNat ≤ tail.keys.length)
      (hfresh : successor? limits tail.number = some fresh) :
      Insertion limits owner key (front ++ [tail]) fresh
        (front ++ [tail, ⟨fresh, owner, [key]⟩])

/-- The last page is full and may not have a successor. -/
def Full (limits : Limits) (sheets : List Sheet) : Prop :=
  ∃ front tail, sheets = front ++ [tail] ∧ limits.keysPerPage.toNat ≤ tail.keys.length ∧
    successor? limits tail.number = none

namespace Insertion

variable {limits : Limits} {owner : Option AccountId} {key : Key} {number : UInt64}
  {sheets sheets' : List Sheet}

theorem ordered (h : Insertion limits owner key sheets number sheets') (hsheets : Ordered sheets) :
    Ordered sheets' := by
  cases h with
  | first =>
      constructor
      · simp
      · rfl
      · simp
  | push hroom => exact hsheets.replace rfl (by simp [Sheet.push])
  | append hfull hfresh => exact hsheets.append _ (lt_of_successor? hfresh) (by simp)

theorem fits (h : Insertion limits owner key sheets number sheets') (hsheets : Fits limits sheets) :
    Fits limits sheets' := by
  cases h with
  | first =>
      intro sheet hsheet
      rw [List.mem_singleton.1 hsheet]
      exact ⟨Nat.le_max_left _ _, Nat.lt_of_lt_of_le Nat.zero_lt_one (Nat.le_max_left _ _)⟩
  | @push front tail hroom =>
      intro sheet hsheet
      simp only [List.mem_append, List.mem_singleton] at hsheet
      rcases hsheet with hsheet | rfl
      · exact hsheets sheet (by simp [hsheet])
      · have htail := hsheets tail (by simp)
        simp only [Sheet.push, List.length_append, List.length_singleton]
        omega
  | @append front tail fresh hfull hfresh =>
      intro sheet hsheet
      simp only [List.mem_append, List.mem_cons, List.not_mem_nil, or_false] at hsheet
      rcases hsheet with hsheet | rfl | rfl
      · exact hsheets sheet (by simp [hsheet])
      · exact hsheets sheet (by simp)
      · have hbound := (successor?_eq_some hfresh).2
        simp only [List.length_singleton]
        omega

/-- To the listing, an insertion is an append. -/
theorem listing_eq (h : Insertion limits owner key sheets number sheets') :
    listing sheets' = listing sheets ++ [(key, number)] := by
  cases h with
  | first => rfl
  | push hroom => simp [Sheet.push]
  | append hfull hfresh => simp

/-- A page after an insertion was there before, or is the new page of the key. -/
theorem owner_eq (h : Insertion limits owner key sheets number sheets') (hsheets : Ordered sheets)
    {sheet : Sheet} (hsheet : sheet ∈ sheets') :
    (∃ old ∈ sheets, old.number = sheet.number ∧ old.owner = sheet.owner) ∨
      (sheet.number = number ∧ sheet.owner = owner ∧ number ∉ numbers sheets) := by
  cases h with
  | first =>
      rw [List.mem_singleton.1 hsheet]
      exact .inr ⟨rfl, rfl, by simp⟩
  | @push front tail hroom =>
      simp only [List.mem_append, List.mem_singleton] at hsheet
      rcases hsheet with hsheet | rfl
      · exact .inl ⟨sheet, by simp [hsheet], rfl, rfl⟩
      · exact .inl ⟨tail, by simp, rfl, rfl⟩
  | @append front tail _ hfull hfresh =>
      simp only [List.mem_append, List.mem_cons, List.not_mem_nil, or_false] at hsheet
      rcases hsheet with hsheet | rfl | rfl
      · exact .inl ⟨sheet, by simp [hsheet], rfl, rfl⟩
      · exact .inl ⟨sheet, by simp, rfl, rfl⟩
      · exact .inr ⟨rfl, rfl, hsheets.notMem_of_lt (lt_of_successor? hfresh)⟩

end Insertion

/-! ## Removal -/

/-- What removing `key` from page `index` makes of a list of sheets. -/
inductive Removal (key : Key) (index : UInt64) (keepRoot : Bool) : List Sheet → List Sheet → Prop
  /-- The page holds other keys, or it is a root that is wanted or not alone. -/
  | drop {before after : List Sheet} {sheet : Sheet}
      (hnumber : sheet.number = index) (hkey : key ∈ sheet.keys)
      (hstays : (sheet.drop key).keys ≠ [] ∨ before = [] ∧ (after ≠ [] ∨ keepRoot = true)) :
      Removal key index keepRoot (before ++ sheet :: after) (before ++ sheet.drop key :: after)
  | retireRoot {sheet : Sheet}
      (hnumber : sheet.number = index) (hkey : key ∈ sheet.keys)
      (hempty : (sheet.drop key).keys = []) (hkeep : keepRoot = false) :
      Removal key index keepRoot [sheet] []
  | retirePage {before after : List Sheet} {sheet : Sheet}
      (hnumber : sheet.number = index) (hkey : key ∈ sheet.keys)
      (hempty : (sheet.drop key).keys = []) (hbefore : before ≠ [])
      (hstays : keepRoot = true ∨ listing (before ++ after) ≠ []) :
      Removal key index keepRoot (before ++ sheet :: after) (before ++ after)
  /-- The last page that held keys goes, and the empty root with it. -/
  | retireBoth {first sheet : Sheet}
      (hnumber : sheet.number = index) (hkey : key ∈ sheet.keys)
      (hempty : (sheet.drop key).keys = []) (hfirst : first.keys = []) (hkeep : keepRoot = false) :
      Removal key index keepRoot [first, sheet] []

/-- The first occurrence of a key with its page is on that page. -/
theorem listing_erase {before after : List Sheet} {sheet : Sheet} {key : Key}
    (h : Ordered (before ++ sheet :: after)) (hkey : key ∈ sheet.keys) :
    (listing (before ++ sheet :: after)).erase (key, sheet.number) =
      listing (before ++ sheet.drop key :: after) := by
  have hbefore : (key, sheet.number) ∉ listing before := by
    rw [mem_listing]
    rintro ⟨other, hother, hnumber, -⟩
    have hlt := h.lt_of_split.1 other.number (List.mem_map_of_mem hother)
    rw [hnumber] at hlt
    exact UInt64.lt_irrefl _ hlt
  have hmem : (key, sheet.number) ∈ sheet.keys.map (·, sheet.number) := by
    simpa using hkey
  have hinjective : Function.Injective fun key : Key => (key, sheet.number) :=
    fun _ _ heq => (Prod.mk.inj heq).1
  rw [listing_append, listing_cons, List.erase_append_right _ hbefore,
    List.erase_append_left _ hmem, listing_append, listing_cons, Sheet.number_drop]
  congr 2
  exact (List.map_erase hinjective _).symm

namespace Removal

variable {key : Key} {index : UInt64} {keepRoot : Bool} {sheets sheets' : List Sheet}

theorem ordered (h : Removal key index keepRoot sheets sheets') (hsheets : Ordered sheets) :
    Ordered sheets' := by
  cases h with
  | drop hnumber hkey hstays =>
      apply hsheets.replace (Sheet.number_drop _ _)
      intro hbefore
      rcases hstays with hkeys | ⟨hnone, -⟩
      · exact hkeys
      · exact absurd hnone hbefore
  | retireRoot | retireBoth => exact .nil
  | retirePage hnumber hkey hempty hbefore hstays => exact hsheets.unlink hbefore

/-- To the listing, a removal is an erasure. -/
theorem listing_eq (h : Removal key index keepRoot sheets sheets') (hsheets : Ordered sheets) :
    listing sheets' = (listing sheets).erase (key, index) := by
  cases h with
  | drop hnumber hkey hstays => rw [← hnumber, listing_erase hsheets hkey]
  | @retireRoot sheet hnumber hkey hempty hkeep =>
      have herase := listing_erase (show Ordered ([] ++ sheet :: []) from hsheets) hkey
      rw [← hnumber]
      simpa [hempty] using herase.symm
  | retirePage hnumber hkey hempty hbefore hstays =>
      rw [← hnumber, listing_erase hsheets hkey]
      simp [hempty]
  | @retireBoth first sheet hnumber hkey hempty hfirst hkeep =>
      have herase := listing_erase (show Ordered ([first] ++ sheet :: []) from hsheets) hkey
      rw [← hnumber]
      simpa [hempty, hfirst] using herase.symm

theorem mem_listing (h : Removal key index keepRoot sheets sheets') :
    (key, index) ∈ listing sheets := by
  rw [Directory.mem_listing]
  cases h with
  | @drop _ _ sheet hnumber hkey | @retirePage _ _ sheet hnumber hkey
  | @retireRoot sheet hnumber hkey | @retireBoth _ sheet hnumber hkey =>
      exact ⟨sheet, by simp, hnumber, hkey⟩

/-- Every page after a removal was there before, with at least its keys. -/
theorem exists_old (h : Removal key index keepRoot sheets sheets') {sheet : Sheet}
    (hsheet : sheet ∈ sheets') :
    ∃ old ∈ sheets, old.number = sheet.number ∧ old.owner = sheet.owner ∧
      sheet.keys.length ≤ old.keys.length := by
  cases h with
  | @drop before after page hnumber hkey hstays =>
      simp only [List.mem_append, List.mem_cons] at hsheet
      rcases hsheet with hsheet | rfl | hsheet
      · exact ⟨sheet, by simp [hsheet], rfl, rfl, Nat.le_refl _⟩
      · exact ⟨page, by simp, rfl, rfl, List.length_erase_le⟩
      · exact ⟨sheet, by simp [hsheet], rfl, rfl, Nat.le_refl _⟩
  | retireRoot | retireBoth => cases hsheet
  | retirePage hnumber hkey hempty hbefore hstays =>
      refine ⟨sheet, ?_, rfl, rfl, Nat.le_refl _⟩
      simp only [List.mem_append, List.mem_cons] at hsheet ⊢
      rcases hsheet with hsheet | hsheet
      · exact .inl hsheet
      · exact .inr (.inr hsheet)

theorem fits {limits : Limits} (h : Removal key index keepRoot sheets sheets')
    (hsheets : Fits limits sheets) : Fits limits sheets' := by
  intro sheet hsheet
  obtain ⟨old, hold, hnumber, -, hlength⟩ := h.exists_old hsheet
  obtain ⟨hkeys, hbound⟩ := hsheets old hold
  exact ⟨Nat.le_trans hlength hkeys, hnumber ▸ hbound⟩

/-- Unless the root is to be kept, nothing is left of a directory without keys. -/
theorem eq_nil_of_listing_eq_nil (h : Removal key index false sheets sheets')
    (hsheets : Ordered sheets) (hempty : listing sheets' = []) : sheets' = [] := by
  cases h with
  | @drop before after sheet hnumber hkey hstays =>
      simp only [listing_append, listing_cons, List.append_eq_nil_iff, List.map_eq_nil_iff] at hempty
      obtain ⟨-, hkeys, hafter⟩ := hempty
      rcases hstays with hstays | ⟨-, hstays | hkeep⟩
      · exact absurd hkeys hstays
      · obtain ⟨next, rest, rfl⟩ := List.exists_cons_of_ne_nil hstays
        have hne : next.number ≠ 0 := hsheets.ne_zero_of_mem (by simp)
        have hfilled := hsheets.filled next (by simp) hne
        simp [hfilled] at hafter
      · cases hkeep
  | retireRoot | retireBoth => rfl
  | retirePage hnumber hkey hempty' hbefore hstays =>
      rcases hstays with hkeep | hstays
      · cases hkeep
      · exact absurd hempty hstays

end Removal

end Directory

end Cosign
