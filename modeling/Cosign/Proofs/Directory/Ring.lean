-- SUMMARY: How sheets lie in a ledger as a ring of linked pages, and how writes to pages change the sheets.
import Cosign.Proofs.Contents
import Cosign.Proofs.Directory.Edit
import Mathlib.Data.Set.Function

/-!
# Rings

`Ring root N sheets contents` says that of the pages with numbers in `N`, the
contents hold those of `sheets`, each linked to its neighbours, and nothing else.
That the pages of numbers in `N` have different keys is a hypothesis apart, since
keys are digests. The lemmas here are about the three kinds of writes that edits
of directories are made of: replacing a page, appending one, unlinking one.
-/

namespace Cosign

namespace Directory

/-- The pages with numbers in `N` are those of the sheets, linked in their order. -/
structure Ring (root : Key) (N : Set UInt64) (sheets : List Sheet) (contents : Contents) : Prop where
  ordered : Ordered sheets
  within : ∀ number ∈ numbers sheets, number ∈ N
  stored : ∀ before sheet after, sheets = before ++ sheet :: after →
    contents.entries (Slot.page root sheet.number).key =
      some (.directoryPage (sheet.page root (numbers before) (numbers after)))
  free : ∀ number ∈ N, number ∉ numbers sheets →
    contents.entries (Slot.page root number).key = none

/-- The pages with numbers in `N` have different keys. -/
def KeysApart (root : Key) (N : Set UInt64) : Prop :=
  Set.InjOn (fun number => (Slot.page root number).key) N

@[simp] theorem key_page_zero (root : Key) : (Slot.page root 0).key = root := rfl

theorem KeysApart.ne {root : Key} {N : Set UInt64} (h : KeysApart root N) {i j : UInt64}
    (hi : i ∈ N) (hj : j ∈ N) (hne : i ≠ j) : (Slot.page root i).key ≠ (Slot.page root j).key :=
  fun heq => hne (h hi hj heq)

namespace Ring

variable {root : Key} {N : Set UInt64} {sheets before after : List Sheet} {sheet : Sheet}
  {contents : Contents}

theorem exists_page (h : Ring root N sheets contents) {number : UInt64}
    (hnumber : number ∈ numbers sheets) :
    ∃ page, contents.entries (Slot.page root number).key = some (.directoryPage page) := by
  obtain ⟨sheet, hsheet, rfl⟩ := List.mem_map.1 hnumber
  obtain ⟨before, after, hsplit⟩ := List.append_of_mem hsheet
  exact ⟨_, h.stored before sheet after hsplit⟩

/-- Nothing but the pages with numbers in `N` matters. -/
theorem congr (h : Ring root N sheets contents) {contents' : Contents}
    (hsame : ∀ number ∈ N, contents'.entries (Slot.page root number).key =
      contents.entries (Slot.page root number).key) : Ring root N sheets contents' where
  ordered := h.ordered
  within := h.within
  stored before sheet after hsplit := by
    have hnumber : sheet.number ∈ numbers sheets := by simp [hsplit]
    rw [hsame _ (h.within _ hnumber), h.stored before sheet after hsplit]
  free number hnumber hunused := by
    rw [hsame number hnumber, h.free number hnumber hunused]

theorem mem_of_mem_listing (h : Ring root N sheets contents) {key : Key} {number : UInt64}
    (hmem : (key, number) ∈ listing sheets) : number ∈ N := by
  obtain ⟨sheet, hsheet, rfl, -⟩ := mem_listing.1 hmem
  exact h.within _ (List.mem_map_of_mem hsheet)

/-- Without pages there is nothing at any of the keys. -/
theorem nil (h : ∀ number ∈ N, contents.entries (Slot.page root number).key = none) :
    Ring root N [] contents where
  ordered := .nil
  within _ hnumber := nomatch hnumber
  stored before sheet after hsplit := by simp at hsplit
  free number hnumber _ := h number hnumber

/-! ## Replacing a page -/

/-- A page is replaced by one with the same number and links. -/
theorem replace (h : Ring root N (before ++ sheet :: after) contents) (hapart : KeysApart root N)
    {sheet' : Sheet} (hnumber : sheet'.number = sheet.number)
    (hordered : Ordered (before ++ sheet' :: after)) :
    Ring root N (before ++ sheet' :: after)
      (contents.set (Slot.page root sheet.number).key
        (some (.directoryPage (sheet'.page root (numbers before) (numbers after))))) := by
  have hnumbers : numbers (before ++ sheet' :: after) = numbers (before ++ sheet :: after) := by
    simp [hnumber]
  have hsheet : sheet.number ∈ N := h.within _ (by simp)
  have hother : ∀ number ∈ N, number ≠ sheet.number → ∀ entry,
      (contents.set (Slot.page root sheet.number).key entry).entries (Slot.page root number).key =
        contents.entries (Slot.page root number).key := by
    intro number hmem hne entry
    exact contents.entries_set_of_ne (hapart.ne hmem hsheet hne) entry
  constructor
  · exact hordered
  · rw [hnumbers]
    exact h.within
  · intro front other back hsplit
    obtain ⟨hlt, hgt⟩ := h.ordered.lt_of_split
    rcases split_cases hsplit.symm with ⟨mid, rfl, rfl⟩ | ⟨rfl, rfl, rfl⟩ | ⟨mid, rfl, rfl⟩
    · have hne : other.number ≠ sheet.number := UInt64.ne_of_lt (hlt _ (by simp))
      rw [hother _ (h.within _ (by simp)) hne, h.stored front other (mid ++ sheet :: after) (by simp)]
      simp [hnumber]
    · rw [hnumber, Contents.entries_set_self]
    · have hne : other.number ≠ sheet.number := (UInt64.ne_of_lt (hgt _ (by simp))).symm
      rw [hother _ (h.within _ (by simp)) hne, h.stored (before ++ sheet :: mid) other back (by simp)]
      simp [hnumber]
  · intro number hmem hfree
    rw [hnumbers] at hfree
    have hne : number ≠ sheet.number := by
      rintro rfl
      simp at hfree
    rw [hother number hmem hne, h.free number hmem hfree]

end Ring

/-! ## Relinking -/

/-- The contents with the page at a number changed. -/
def modifyAt (contents : Contents) (root : Key) (number : UInt64)
    (change : DirectoryPage → DirectoryPage) : Contents :=
  contents.set (Slot.page root number).key
    ((contents.entries (Slot.page root number).key).map (Entry.mapDirectoryPage change))

theorem entries_modifyAt {root : Key} {N : Set UInt64} {contents : Contents}
    (hapart : KeysApart root N) {i j : UInt64} (hi : i ∈ N) (hj : j ∈ N) {page : DirectoryPage}
    (hpage : contents.entries (Slot.page root j).key = some (.directoryPage page))
    (change : DirectoryPage → DirectoryPage) :
    (modifyAt contents root i change).entries (Slot.page root j).key =
      some (.directoryPage (if j = i then change page else page)) := by
  unfold modifyAt
  by_cases heq : j = i
  · subst heq
    simp [hpage, Entry.mapDirectoryPage]
  · rw [Contents.entries_set_of_ne _ (hapart.ne hj hi heq), hpage, if_neg heq]

theorem entries_modifyAt_of_free {root : Key} {N : Set UInt64} {contents : Contents}
    (hapart : KeysApart root N) {i j : UInt64} (hi : i ∈ N) (hj : j ∈ N) (hne : j ≠ i)
    (change : DirectoryPage → DirectoryPage) :
    (modifyAt contents root i change).entries (Slot.page root j).key =
      contents.entries (Slot.page root j).key :=
  Contents.entries_set_of_ne _ (hapart.ne hj hi hne) _

/-- The contents with the page after `left` and the page before `right` set. -/
def relink (contents : Contents) (root : Key) (left right next previous : UInt64) : Contents :=
  modifyAt (modifyAt contents root left fun page => { page with next }) root right
    fun page => { page with previous }

section

variable {root : Key} {N : Set UInt64} {contents : Contents} (hapart : KeysApart root N)
  {left right number : UInt64} (hleft : left ∈ N) (hright : right ∈ N) (hnumber : number ∈ N)
include hapart hleft hright hnumber

theorem entries_relink {page : DirectoryPage}
    (hpage : contents.entries (Slot.page root number).key = some (.directoryPage page))
    (next previous : UInt64) :
    (relink contents root left right next previous).entries (Slot.page root number).key =
      some (.directoryPage { page with
        next := if number = left then next else page.next
        previous := if number = right then previous else page.previous }) := by
  unfold relink
  rw [entries_modifyAt hapart hright hnumber (entries_modifyAt hapart hleft hnumber hpage _)]
  split <;> split <;> rfl

theorem entries_relink_of_ne (hneleft : number ≠ left) (hneright : number ≠ right)
    (next previous : UInt64) :
    (relink contents root left right next previous).entries (Slot.page root number).key =
      contents.entries (Slot.page root number).key := by
  unfold relink
  rw [entries_modifyAt_of_free hapart hright hnumber hneright,
    entries_modifyAt_of_free hapart hleft hnumber hneleft]

end

namespace Ring

variable {root : Key} {N : Set UInt64} {front before after : List Sheet} {tail sheet : Sheet}
  {contents : Contents}

/-- A page is put after the last one, which is linked to it as the root is. -/
theorem append (h : Ring root N (front ++ [tail]) contents) (hapart : KeysApart root N)
    (fresh : Sheet) (hfresh : fresh.number ∈ N) (hlt : tail.number < fresh.number)
    (hkeys : fresh.keys ≠ []) :
    Ring root N (front ++ [tail, fresh])
      ((relink contents root tail.number 0 fresh.number fresh.number).set
        (Slot.page root fresh.number).key
        (some (.directoryPage (fresh.page root (numbers (front ++ [tail])) [])))) := by
  have hsplit : front ++ [tail, fresh] = (front ++ [tail]) ++ fresh :: [] := by simp
  have htail : tail.number ∈ N := h.within _ (by simp)
  have hzeromem : 0 ∈ numbers (front ++ [tail]) := h.ordered.zero_mem (by simp)
  have hzero : 0 ∈ N := h.within 0 hzeromem
  constructor
  · exact h.ordered.append fresh hlt hkeys
  · intro number hnumber
    rw [hsplit, numbers_append, List.mem_append] at hnumber
    rcases hnumber with hnumber | hnumber
    · exact h.within number hnumber
    · simp only [numbers_cons, numbers_nil, List.mem_singleton] at hnumber
      exact hnumber ▸ hfresh
  · intro before sheet after heq
    rw [hsplit] at heq
    rcases split_cases heq.symm with ⟨mid, hmid, rfl⟩ | ⟨rfl, rfl, rfl⟩ | ⟨mid, -, hmid⟩
    · have hmem : sheet.number ∈ numbers (front ++ [tail]) := by simp [hmid]
      have hne : sheet.number ≠ fresh.number := by
        rintro hsame
        exact h.ordered.notMem_of_lt hlt (hsame ▸ hmem)
      rw [Contents.entries_set_of_ne _ (hapart.ne (h.within _ hmem) hfresh hne),
        entries_relink hapart htail hzero (h.within _ hmem) (h.stored before sheet mid hmid),
        h.ordered.page_append hmid root fresh]
    · rw [Contents.entries_set_self]
      simp
    · simp at hmid
  · intro number hmem hfree
    rw [hsplit, numbers_append, List.mem_append, not_or] at hfree
    obtain ⟨hold, hnew⟩ := hfree
    have hne : number ≠ fresh.number := by simpa using hnew
    have hnetail : number ≠ tail.number := by
      rintro rfl
      simp at hold
    have hnezero : number ≠ 0 := by
      rintro rfl
      exact hold hzeromem
    rw [Contents.entries_set_of_ne _ (hapart.ne hmem hfresh hne),
      entries_relink_of_ne hapart htail hzero hmem hnetail hnezero]
    exact h.free number hmem hold

/-- A page that follows another is taken out, and its neighbours are linked to each other. What the
page itself still held does not matter. -/
theorem unlink {left : Sheet} (h : Ring root N (front ++ left :: sheet :: after) contents)
    (hapart : KeysApart root N) {next : UInt64} (hnext : next = (numbers after).headD 0)
    (held : Option Entry) :
    Ring root N (front ++ left :: after)
      ((relink (contents.set (Slot.page root sheet.number).key held) root left.number next next
        left.number).set (Slot.page root sheet.number).key none) := by
  have hsplit : Ordered ((front ++ [left]) ++ sheet :: after) := by simpa using h.ordered
  have hordered : Ordered (front ++ left :: after) := h.ordered.unlink_after
  have hsheet : sheet.number ∈ N := h.within _ (by simp)
  have hleft : left.number ∈ N := h.within _ (by simp)
  have hkept : ∀ number ∈ numbers (front ++ left :: after),
      number ∈ N ∧ number ≠ sheet.number := by
    intro number hnumber
    rw [List.append_cons] at hnumber
    refine ⟨h.within number ?_, hsplit.ne_of_mem hnumber⟩
    simpa using mem_numbers_of_unlinked sheet hnumber
  have hnextmem : next ∈ numbers (front ++ left :: after) := hnext ▸ hordered.next_mem
  constructor
  · exact hordered
  · intro number hnumber
    exact (hkept number hnumber).1
  · intro before other back heq
    obtain ⟨hother, hne⟩ := hkept other.number (by simp [heq])
    obtain ⟨before', back', hold, hpage⟩ := h.ordered.page_unlink heq root
    have hentry : (contents.set (Slot.page root sheet.number).key held).entries
        (Slot.page root other.number).key =
          some (.directoryPage (other.page root (numbers before') (numbers back'))) := by
      rw [Contents.entries_set_of_ne _ (hapart.ne hother hsheet hne), h.stored before' other back' hold]
    rw [Contents.entries_set_of_ne _ (hapart.ne hother hsheet hne),
      entries_relink hapart hleft (hkept _ hnextmem).1 hother hentry, hpage, hnext]
  · intro number hmem hfree
    by_cases hgone : number = sheet.number
    · rw [hgone, Contents.entries_set_self]
    · have hnenext : number ≠ next := fun hsame => hfree (hsame ▸ hnextmem)
      have hneleft : number ≠ left.number := fun hsame => hfree (by simp [hsame])
      have hunused : number ∉ numbers (front ++ left :: sheet :: after) := by
        simpa [hgone] using hfree
      rw [Contents.entries_set_of_ne _ (hapart.ne hmem hsheet hgone),
        entries_relink_of_ne hapart hleft (hkept _ hnextmem).1 hmem hneleft hnenext,
        Contents.entries_set_of_ne _ (hapart.ne hmem hsheet hgone)]
      exact h.free number hmem hunused

end Ring

end Directory

end Cosign
