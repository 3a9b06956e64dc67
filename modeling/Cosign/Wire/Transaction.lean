-- SUMMARY: The exchanged form of transactions and result codes.
import Cosign.Transaction.Basic
import Cosign.Wire.Basic

/-!
# Exchange of transactions

Fields of a transaction that are missing are left out when it is written, and
may be left out when it is read.
-/

namespace Cosign.Wire

/-- A member for a value that is there. -/
def present {α : Type} [Wire α] (name : String) (value? : Option α) : List (String × Json) :=
  match value? with
  | some value => [(name, encode value)]
  | none => []

instance : Wire RawSigner where
  encode raw := .record (present "Account" raw.account ++ present "SignerWeight" raw.weight)
  decode json :=
    match fieldValues [.omissible "Account", .omissible "SignerWeight"] json with
    | some [account, weight] => do return ⟨← optional account none, ← optional weight none⟩
    | _ => none

instance : Wire Transaction where
  encode tx :=
    .record
      ([("Account", encode tx.account), ("SignerQuorum", encode tx.quorum)] ++
        present "SignerEntries" tx.signers ++ [("PriorBalance", encode tx.priorBalance)])
  decode json :=
    match fieldValues
      [.needed "Account", .omissible "SignerQuorum", .omissible "SignerEntries",
        .omissible "PriorBalance"] json with
    | some [account, quorum, signers, priorBalance] => do
      return {
        account := ← required account
        quorum := ← optional quorum 0
        signers := ← optional signers none
        priorBalance := ← optional priorBalance 0 }
    | _ => none

/-- The name of a result code as an exchanged value. -/
def codeName : ResultCode → String
  | .success => "TesSuccess"
  | .malformed => "TemMalformed"
  | .badSigner => "TemBadSigner"
  | .badWeight => "TemBadWeight"
  | .badQuorum => "TemBadQuorum"
  | .insufficientReserve => "TecInsufficientReserve"
  | .directoryFull => "TecDirFull"
  | .noAlternativeKey => "TecNoAlternativeKey"
  | .internal => "TefInternal"
  | .badLedger => "TefBadLedger"

instance : Wire ResultCode where
  encode code := .ofString (codeName code)
  decode := alternative? codeName
    [.success, .malformed, .badSigner, .badWeight, .badQuorum, .insufficientReserve,
      .directoryFull, .noAlternativeKey, .internal, .badLedger]

end Cosign.Wire
