-- SUMMARY: A slot is determined by its seed, so two slots share a key only if two seeds share a digest.
import Cosign.Proofs.Holdings
import Cosign.Proofs.Inventory

/-!
# Seeds and collisions

The fields of a seed have fixed widths and the tag comes first, so a seed says which slot it is
the seed of (`Slot.seed_injective`). The key of a slot is the digest of its seed, unless the slot
is the root page of a directory. Whenever two such slots share a key, their seeds are therefore
two byte strings with one digest (`Slot.key_eq_iff`). Where no seeds collide, all that is elsewhere
assumed about keys being apart holds (`SlotsApart.of_collisionFree`,
`Inventory.Apart.of_collisionFree`).
-/

namespace Cosign

/-! ## Numbers as bytes -/

/-- As many bytes as a number needs determine it. -/
theorem eq_of_bigEndian_eq {width a b : Nat} (ha : a < 256 ^ width) (hb : b < 256 ^ width)
    (h : bigEndian width a = bigEndian width b) : a = b := by
  induction width generalizing a b with
  | zero =>
      rw [Nat.pow_zero] at ha hb
      omega
  | succ width ih =>
      rw [bigEndian_succ, bigEndian_succ] at h
      obtain ⟨hhigh, hlow⟩ := List.append_inj' h rfl
      have hquotient : a / 256 = b / 256 := by
        refine ih (Nat.div_lt_of_lt_mul ?_) (Nat.div_lt_of_lt_mul ?_) hhigh
        · rwa [Nat.mul_comm, ← Nat.pow_succ]
        · rwa [Nat.mul_comm, ← Nat.pow_succ]
      have hremainder : a % 256 = b % 256 := by
        have hbyte := congrArg UInt8.toNat (List.singleton_inj.1 hlow)
        rwa [UInt8.toNat_ofNat', UInt8.toNat_ofNat'] at hbyte
      omega

/-- Eight bytes determine a word. -/
theorem eq_of_bigEndian_toNat_eq {a b : UInt64}
    (h : bigEndian 8 a.toNat = bigEndian 8 b.toNat) : a = b :=
  UInt64.toNat_inj.1 (eq_of_bigEndian_eq a.toNat_lt b.toNat_lt h)

namespace Slot

/-! ## Seeds -/

/-- Slots of different sorts have different seeds, and each sort's seeds tell its slots apart. -/
theorem seed_injective {s t : Slot} (h : s.seed = t.seed) : s = t := by
  obtain ⟨htag, hmaterial⟩ := List.cons.inj (List.cons.inj h).2
  cases s with
  | account id =>
      cases t with
      | account id' => exact congrArg account (Octets.ext hmaterial)
      | ownerDirectory | signers | page => cases htag
  | ownerDirectory id =>
      cases t with
      | ownerDirectory id' => exact congrArg ownerDirectory (Octets.ext hmaterial)
      | account | signers | page => cases htag
  | signers id =>
      cases t with
      | signers id' => exact congrArg signers (Octets.ext (List.append_cancel_right hmaterial))
      | account | ownerDirectory | page => cases htag
  | page root index =>
      cases t with
      | page root' index' =>
          obtain ⟨hroot, hindex⟩ :=
            List.append_inj hmaterial (root.length_bytes.trans root'.length_bytes.symm)
          rw [Octets.ext hroot, eq_of_bigEndian_toNat_eq hindex]
      | account | ownerDirectory | signers => cases htag

/-! ## Keys -/

/-- The key is the digest of the seed. It is not for the root page of a directory alone. -/
def IsDerived : Slot → Prop
  | page _ index => index ≠ 0
  | _ => True

theorem IsDerived.key_eq {s : Slot} (h : s.IsDerived) : s.key = Sha512.half s.seed := by
  unfold key
  split
  · exact absurd rfl h
  · rfl

end Slot

/-- Two byte strings with the same first half of the digest. -/
structure Sha512.Collide (message other : List UInt8) : Prop where
  ne : message ≠ other
  half_eq : half message = half other

/-- No two of the slots have seeds that collide. -/
def CollisionFree (slots : Set Slot) : Prop :=
  ∀ s ∈ slots, ∀ t ∈ slots, ¬ Sha512.Collide s.seed t.seed

/-- Keys collide only if digests do: two slots have different seeds, and if they share a key then
their seeds collide. The root page of a directory is left out, since it has the directory's key. -/
theorem Slot.key_eq_iff {s t : Slot} (hs : s.IsDerived) (ht : t.IsDerived) :
    s.key = Sha512.half s.seed ∧ t.key = Sha512.half t.seed ∧ (s.seed = t.seed ↔ s = t) ∧
      (s.key = t.key ↔ s = t ∨ Sha512.Collide s.seed t.seed) := by
  have hseed : s.seed = t.seed ↔ s = t := ⟨seed_injective, congrArg seed⟩
  refine ⟨hs.key_eq, ht.key_eq, hseed, ?_⟩
  rw [hs.key_eq, ht.key_eq]
  constructor
  · intro hhalf
    by_cases hsame : s = t
    · exact .inl hsame
    · exact .inr ⟨fun heq => hsame (hseed.1 heq), hhalf⟩
  · rintro (rfl | hcollide)
    · rfl
    · exact hcollide.half_eq

/-- Page numbers are told apart by the place of their bytes, and the keys of these two pages show that
their seeds do not collide. -/
theorem Slot.key_eq_iff_shifted_numbers :
    let s : Slot := .page (Octets.zero 32) 1
    let t : Slot := .page (Octets.zero 32) 256
    s.IsDerived ∧ t.IsDerived ∧ s.seed ≠ t.seed ∧ ¬ Sha512.Collide s.seed t.seed := by
  intro s t
  have hs : s.IsDerived := by
    change (1 : UInt64) ≠ 0
    decide
  have ht : t.IsDerived := by
    change (256 : UInt64) ≠ 0
    decide
  have hkey : s.key ≠ t.key := by decide +kernel
  obtain ⟨-, -, hseed, hiff⟩ := Slot.key_eq_iff hs ht
  refine ⟨hs, ht, fun heq => hkey (congrArg Slot.key (hseed.1 heq)), fun hcollide => ?_⟩
  exact hkey (hiff.2 (.inr hcollide))

/-! ## Keys that are apart -/

/-- Slots whose seeds do not collide have different keys. -/
theorem CollisionFree.eq_of_key_eq {slots : Set Slot} (h : CollisionFree slots) {s t : Slot}
    (hs : s ∈ slots) (ht : t ∈ slots) (hs' : s.IsDerived) (ht' : t.IsDerived)
    (hkey : s.key = t.key) : s = t := by
  by_contra hne
  rw [hs'.key_eq, ht'.key_eq] at hkey
  exact h s hs t ht ⟨fun heq => hne (Slot.seed_injective heq), hkey⟩

/-- The slots of accounts are apart if their seeds do not collide. -/
theorem SlotsApart.of_collisionFree {accounts : Set AccountId}
    (h : CollisionFree { slot | ∃ id ∈ accounts, slot ∈ Estate.slots id }) :
    SlotsApart accounts := by
  have hderived : ∀ id, ∀ slot ∈ Estate.slots id, slot.IsDerived := by
    intro id slot hslot
    simp only [Estate.slots, List.mem_cons, List.not_mem_nil, or_false] at hslot
    rcases hslot with rfl | rfl | rfl <;> trivial
  intro id hid id' hid' slot hslot slot' hslot' hkey
  exact h.eq_of_key_eq ⟨id, hid, hslot⟩ ⟨id', hid', hslot'⟩ (hderived id slot hslot)
    (hderived id' slot' hslot') hkey

namespace Slot

/-- The slot of a page of an account's directory, with the root page in the directory's own slot. -/
def ownerPage (id : AccountId) (number : UInt64) : Slot :=
  if number = 0 then ownerDirectory id else page (ownerDirectoryKey id) number

theorem isDerived_ownerPage (id : AccountId) (number : UInt64) : (ownerPage id number).IsDerived := by
  unfold ownerPage
  split
  · trivial
  · next hnumber => exact hnumber

theorem key_ownerPage (id : AccountId) (number : UInt64) :
    (ownerPage id number).key = (page (ownerDirectoryKey id) number).key := by
  unfold ownerPage
  split
  · next hzero =>
    subst hzero
    rfl
  · rfl

theorem ownerPage_injective (id : AccountId) : Function.Injective (ownerPage id) := by
  intro number number' hsame
  unfold ownerPage at hsame
  split at hsame
  · next hzero =>
    split at hsame
    · next hzero' => exact hzero.trans hzero'.symm
    · cases hsame
  · split at hsame
    · cases hsame
    · cases hsame
      rfl

/-- The page of a directory is in no slot of another sort. -/
theorem ownerPage_ne {id : AccountId} {number : UInt64} {s : Slot} (h : s.kind ≠ .directoryPage) :
    s ≠ ownerPage id number := by
  rintro rfl
  unfold ownerPage at h
  split at h <;> exact h rfl

end Slot

/-- The slots of an account, of its list and of the pages of its directory. -/
def Slot.owned (id : AccountId) (N : Set UInt64) : Set Slot :=
  {account id, signers id} ∪ ownerPage id '' N

/-- What an account and its directory use is apart if its seeds do not collide. -/
theorem Inventory.Apart.of_collisionFree {id : AccountId} {N : Set UInt64} (hzero : 0 ∈ N)
    (h : CollisionFree (Slot.owned id N)) : Inventory.Apart id N := by
  have haccount : Slot.account id ∈ Slot.owned id N := .inl (.inl rfl)
  have hsigners : Slot.signers id ∈ Slot.owned id N := .inl (.inr rfl)
  have hpage : ∀ number ∈ N, Slot.ownerPage id number ∈ Slot.owned id N :=
    fun number hnumber => .inr ⟨number, hnumber, rfl⟩
  constructor
  case zero => exact hzero
  case pages =>
    intro number hnumber number' hnumber' hkey
    simp only [← Slot.key_ownerPage] at hkey
    exact Slot.ownerPage_injective id (h.eq_of_key_eq (hpage number hnumber) (hpage number' hnumber')
      (Slot.isDerived_ownerPage id number) (Slot.isDerived_ownerPage id number') hkey)
  case account =>
    intro number hnumber hkey
    rw [← Slot.key_ownerPage] at hkey
    exact Slot.ownerPage_ne (by simp [Slot.kind]) (h.eq_of_key_eq haccount (hpage number hnumber)
      trivial (Slot.isDerived_ownerPage id number) hkey)
  case signers =>
    intro number hnumber hkey
    rw [← Slot.key_ownerPage] at hkey
    exact Slot.ownerPage_ne (by simp [Slot.kind]) (h.eq_of_key_eq hsigners (hpage number hnumber)
      trivial (Slot.isDerived_ownerPage id number) hkey)
  case signers_ne_account =>
    intro hkey
    cases h.eq_of_key_eq hsigners haccount trivial trivial hkey

end Cosign
