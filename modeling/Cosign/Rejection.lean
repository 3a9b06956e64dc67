-- SUMMARY: Why a transaction is rejected, with the code and the message of each cause.
import Cosign.LedgerError
import Cosign.ResultCode

/-!
# Rejections

A rejection is malformed, claimed or internal, which is also who pays for it:
nobody, the sender, or whoever has to mend the ledger. Each cause has its own
constructor, its message and its code, which is of the class of the rejection.
-/

namespace Cosign

/-! ## Malformed -/

/-- Found from the transaction alone. -/
inductive Malformed where
  /-- The fields describe neither a set nor a destroy. -/
  | unknownOperation
  /-- The signer at `index` lacks its account or its weight. -/
  | signerFormat (index : Nat)
  | signerCount (count least most : Nat)
  | duplicateSigner (account : AccountId)
  | zeroWeight (account : AccountId)
  /-- The owner is among the signers. -/
  | selfReference (account : AccountId)
  | quorumUnreachable (quorum : UInt32) (totalWeight : Nat)
deriving DecidableEq

namespace Malformed

def code : Malformed → ResultCode
  | unknownOperation | signerFormat _ | signerCount _ _ _ => .malformed
  | duplicateSigner _ | selfReference _ => .badSigner
  | zeroWeight _ => .badWeight
  | quorumUnreachable _ _ => .badQuorum

theorem isMalformed_code (cause : Malformed) : cause.code.isMalformed = true := by
  cases cause <;> rfl

def message : Malformed → String
  | unknownOperation => "Signer list fields describe neither a set nor a destroy"
  | signerFormat index => s!"Invalid signer set list format at entry {index}"
  | signerCount count least most =>
    s!"Too many or too few signers: {count} (allowed {least}..={most})"
  | duplicateSigner account => s!"Duplicate signers: {account.text}"
  | zeroWeight account => s!"Every signer must have a positive weight: {account.text}"
  | selfReference account => s!"A signer may not self reference account: {account.text}"
  | quorumUnreachable quorum totalWeight =>
    s!"Quorum is unreachable: quorum {quorum}, total weight {totalWeight}"

end Malformed

/-! ## Claimed -/

/-- Refused by a sound ledger. -/
inductive Claimed where
  | insufficientReserve (balance required : UInt64)
  | directoryFull (account : AccountId)
  /-- Without the list the account could no longer sign. -/
  | noAlternativeKey (account : AccountId)
deriving DecidableEq

namespace Claimed

def code : Claimed → ResultCode
  | insufficientReserve _ _ => .insufficientReserve
  | directoryFull _ => .directoryFull
  | noAlternativeKey _ => .noAlternativeKey

theorem claimsFee_code (cause : Claimed) : cause.code.claimsFee = true := by
  cases cause <;> rfl

def message : Claimed → String
  | insufficientReserve balance required =>
    s!"Insufficient reserve: balance {balance}, required {required}"
  | directoryFull account => s!"Owner directory full for {account.text}"
  | noAlternativeKey account =>
    s!"No alternative key for {account.text}: master disabled and no regular key"

end Claimed

/-! ## Internal -/

/-- A sign that the ledger is inconsistent. -/
inductive Internal where
  | accountMissing (account : AccountId)
  /-- The owner's directory does not hold the list where the list says. -/
  | directoryRemove (account : AccountId) (cause : LedgerError)
  | ledger (cause : LedgerError)
deriving DecidableEq

namespace Internal

def code : Internal → ResultCode
  | accountMissing _ | ledger _ => .internal
  | directoryRemove _ _ => .badLedger

theorem isInternal_code (cause : Internal) : cause.code.isInternal = true := by
  cases cause <;> rfl

def message : Internal → String
  | accountMissing account => s!"Account root missing for {account.text}"
  | directoryRemove account cause =>
    s!"Unable to delete SignerList from owner {account.text}: {cause.message}"
  | ledger cause => s!"Ledger operation failed: {cause.message}"

end Internal

/-! ## Rejections -/

inductive Rejection where
  | malformed (cause : Malformed)
  | claimed (cause : Claimed)
  | internal (cause : Internal)
deriving DecidableEq

namespace Rejection

def code : Rejection → ResultCode
  | malformed cause => cause.code
  | claimed cause => cause.code
  | internal cause => cause.code

def message : Rejection → String
  | malformed cause => cause.message
  | claimed cause => cause.message
  | internal cause => cause.message

/-- A failed ledger operation that the ledger's consistency should have ruled out. -/
def ofLedgerError (cause : LedgerError) : Rejection := internal (.ledger cause)

end Rejection

end Cosign
