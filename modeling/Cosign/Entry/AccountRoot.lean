-- SUMMARY: The root entry of an account: its balance, flags, keys and owner count.
import Cosign.Identifier
import Cosign.Saturating

/-!
# Account roots

An account exists when its root does. The root counts the ledger objects the
account owns; that count moves by signed steps and never leaves the range of
its word.
-/

namespace Cosign

/-- The flag of an account whose master key cannot sign. -/
def disableMasterFlag : UInt32 := 0x00100000

structure AccountRoot where
  account : AccountId
  balance : UInt64
  ownerCount : UInt32 := 0
  flags : UInt32 := 0
  regularKey : Option AccountId := none
  sequence : UInt32 := 1
deriving DecidableEq

namespace AccountRoot

/-- Some bit of `mask` is set in the flags. -/
def hasFlag (root : AccountRoot) (mask : UInt32) : Bool := root.flags &&& mask != 0

def masterDisabled (root : AccountRoot) : Bool := root.hasFlag disableMasterFlag

/-- The account can sign without a signer list. -/
def hasAlternativeKey (root : AccountRoot) : Bool :=
  !root.masterDisabled || root.regularKey.isSome

/-- The root with its owner count moved by `delta`, as far as the count's range allows. -/
def adjustOwnerCount (root : AccountRoot) (delta : Int64) : AccountRoot :=
  { root with
    ownerCount := Saturating.word32OfSigned
      (Saturating.addSigned64 (Int64.ofNat root.ownerCount.toNat) delta) }

end AccountRoot

end Cosign
