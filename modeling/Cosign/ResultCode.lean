-- SUMMARY: Result codes of transactions, and the four classes that cover and separate them.

/-!
# Result codes

Every transaction ends with one code. A code is of one class and no other
(`one_class`): success; malformed, found without the ledger and free of charge;
claiming the fee, refused by the ledger; or internal, a sign that the ledger is
inconsistent. Each class is a test of its own.
-/

namespace Cosign

inductive ResultCode where
  | success
  | malformed
  | badSigner
  | badWeight
  | badQuorum
  | insufficientReserve
  | directoryFull
  | noAlternativeKey
  | internal
  | badLedger
deriving DecidableEq

namespace ResultCode

/-- The token of a code in reports. -/
def token : ResultCode → String
  | success => "tesSUCCESS"
  | malformed => "temMALFORMED"
  | badSigner => "temBAD_SIGNER"
  | badWeight => "temBAD_WEIGHT"
  | badQuorum => "temBAD_QUORUM"
  | insufficientReserve => "tecINSUFFICIENT_RESERVE"
  | directoryFull => "tecDIR_FULL"
  | noAlternativeKey => "tecNO_ALTERNATIVE_KEY"
  | internal => "tefINTERNAL"
  | badLedger => "tefBAD_LEDGER"

/-! ## Classes -/

def isSuccess (code : ResultCode) : Bool := code == success

def isMalformed : ResultCode → Bool
  | malformed | badSigner | badWeight | badQuorum => true
  | _ => false

/-- The fee is charged, even though nothing else is done. -/
def claimsFee : ResultCode → Bool
  | insufficientReserve | directoryFull | noAlternativeKey => true
  | _ => false

def isInternal : ResultCode → Bool
  | internal | badLedger => true
  | _ => false

/-- The classes cover the codes and separate them: just one of the tests holds. -/
theorem one_class (code : ResultCode) :
    code.isSuccess.toNat + code.isMalformed.toNat + code.claimsFee.toNat +
      code.isInternal.toNat = 1 := by
  cases code <;> rfl

/-- A code of no other class claims the fee. -/
theorem claimsFee_eq (code : ResultCode) :
    code.claimsFee = !(code.isSuccess || code.isMalformed || code.isInternal) := by
  cases code <;> rfl

variable {code : ResultCode}

/-- Of two tests of which at most one holds, the second fails where the first holds. -/
theorem eq_false_of_toNat_add_le {a b : Bool} (hmost : a.toNat + b.toNat ≤ 1) (ha : a = true) :
    b = false := by
  rw [ha, Bool.toNat_true] at hmost
  exact Bool.toNat_eq_zero.1 (by omega)

theorem isMalformed_of_claimsFee (h : code.claimsFee = true) : code.isMalformed = false := by
  have hone := code.one_class
  exact eq_false_of_toNat_add_le (by omega) h

theorem isMalformed_of_isInternal (h : code.isInternal = true) : code.isMalformed = false := by
  have hone := code.one_class
  exact eq_false_of_toNat_add_le (by omega) h

theorem isInternal_of_isMalformed (h : code.isMalformed = true) : code.isInternal = false := by
  have hone := code.one_class
  exact eq_false_of_toNat_add_le (by omega) h

end ResultCode

end Cosign
