-- SUMMARY: Account identifiers and ledger keys, and the textual form of both.
import Cosign.Octets
import Cosign.Text.Hex

/-!
# Identifiers

Accounts are named by twenty bytes and ledger entries are found under keys of
thirty-two. An account is written as forty upper-case hexadecimal digits and
read in either case; a key is written in lower case.
-/

namespace Cosign

/-- The name of an account. -/
abbrev AccountId := Octets 20

/-- The place of an entry in a ledger. -/
abbrev Key := Octets 32

/-- Maps by key are ordered by it. -/
instance : Std.TransOrd Key := inferInstance

/-- Why a text names no account. -/
inductive IdentifierError where
  | invalidHex (fault : Hex.Fault)
  | invalidLength (expected actual : Nat)
deriving DecidableEq

def IdentifierError.message : IdentifierError → String
  | .invalidHex fault => s!"Invalid hex: {fault.message}"
  | .invalidLength expected actual => s!"Invalid length: expected {expected} bytes, got {actual}"

/-- The bytes of a text in UTF-8. -/
def utf8 (text : String) : List UInt8 := text.toList.flatMap String.utf8EncodeChar

/-! ## Accounts -/

namespace AccountId

/-- The account whose bytes are all zero. -/
def zero : AccountId := Octets.zero 20

/-- A number in the last eight bytes, most significant first. -/
def ofLow (value : UInt64) : AccountId :=
  ⟨List.replicate 12 0 ++ bigEndian 8 value.toNat, by simp⟩

def text (id : AccountId) : String := Hex.upper id.bytes

/-- The account that a text names. -/
def parse (text : String) : Except IdentifierError AccountId :=
  match Hex.decode (utf8 text) with
  | .error fault => .error (.invalidHex fault)
  | .ok bytes =>
    match Octets.ofBytes? 20 bytes with
    | some id => .ok id
    | none => .error (.invalidLength 20 bytes.length)

/-- The last of some accounts in byte order. -/
def max? : List AccountId → Option AccountId
  | [] => none
  | id :: rest => some (rest.foldl (fun a b => if a < b then b else a) id)

end AccountId

/-! ## Keys -/

namespace Key

def text (key : Key) : String := Hex.lower key.bytes

end Key

end Cosign
