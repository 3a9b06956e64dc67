-- SUMMARY: Where entries live: the slots of accounts, directories and lists, and their keys.
import Cosign.Digest.Sha512
import Cosign.Entry.Basic

/-!
# Slots

Every entry an account can have lives in a slot. A slot's key is the first half
of the digest of its seed: a two-byte tag for the sort of slot, followed by what
identifies it, in fields of fixed width. The root page of a directory is the
exception; it lives at the directory's own key.
-/

namespace Cosign

inductive Slot where
  /-- The root of an account. -/
  | account (id : AccountId)
  /-- The root page of an account's owner directory. -/
  | ownerDirectory (id : AccountId)
  /-- The signer list of an account. -/
  | signers (id : AccountId)
  /-- A page of the directory whose root page is at `root`. -/
  | page (root : Key) (index : UInt64)
deriving DecidableEq

namespace Slot

/-- The kind of entry a slot is for. -/
def kind : Slot → EntryKind
  | account _ => .accountRoot
  | ownerDirectory _ => .directoryPage
  | signers _ => .signerList
  | page _ _ => .directoryPage

/-- The letter that sets slots of one sort apart. -/
def tag : Slot → UInt8
  | account _ => 0x61
  | ownerDirectory _ => 0x4f
  | signers _ => 0x53
  | page _ _ => 0x64

/-- What identifies a slot among those of its sort.

A signer list carries its list number, which is zero. -/
def material : Slot → List UInt8
  | account id => id.bytes
  | ownerDirectory id => id.bytes
  | signers id => id.bytes ++ bigEndian 4 0
  | page root index => root.bytes ++ bigEndian 8 index.toNat

/-- The bytes whose digest is the slot's key. -/
def seed (slot : Slot) : List UInt8 := 0 :: slot.tag :: slot.material

/-- The key of a slot. -/
def key : Slot → Key
  | page root 0 => root
  | slot => Sha512.half slot.seed

end Slot

/-- The key of an account's owner directory. -/
def ownerDirectoryKey (owner : AccountId) : Key := (Slot.ownerDirectory owner).key

/-- The key of an account's signer list. -/
def signersKey (owner : AccountId) : Key := (Slot.signers owner).key

end Cosign
