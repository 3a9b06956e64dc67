-- SUMMARY: What a ledger version fixes for everyone: fees, active features, directory limits.
import Cosign.Entry.SignerList

/-!
# Terms

A ledger version comes with a fee schedule, a set of active features and limits
on directories. The schedule gives the reserve an account has to hold, which
grows with its owner count; the features decide under which accounting new
signer lists are stored.
-/

namespace Cosign

/-! ## Fees -/

structure Fees where
  base : UInt64 := 10
  reserve : UInt64 := 20000000
  increment : UInt64 := 5000000
deriving DecidableEq

/-- The reserve of an account that owns `ownerCount` objects. -/
def Fees.accountReserve (fees : Fees) (ownerCount : UInt32) : UInt64 :=
  Saturating.add64 fees.reserve (Saturating.mul64 fees.increment ownerCount.toUInt64)

/-! ## Features -/

/-- A change of the protocol that can be switched on. -/
inductive Feature where
  /-- Signer lists cost one unit whatever their size. -/
  | multiSignReserve
deriving DecidableEq

namespace Feature

def all : List Feature := [multiSignReserve]

def name : Feature → String
  | multiSignReserve => "MultiSignReserve"

def ofName? (name : String) : Option Feature := all.find? (·.name == name)

end Feature

/-- Which features are active. -/
structure Rules where
  multiSignReserve : Bool := false
deriving DecidableEq

namespace Rules

def isEnabled (rules : Rules) : Feature → Bool
  | .multiSignReserve => rules.multiSignReserve

/-- The rules with one feature switched on or off. -/
def switch (rules : Rules) (feature : Feature) (on : Bool) : Rules :=
  match feature with
  | .multiSignReserve => { rules with multiSignReserve := on }

def enable (rules : Rules) (feature : Feature) : Rules := rules.switch feature true

def disable (rules : Rules) (feature : Feature) : Rules := rules.switch feature false

/-- The rules under which just the given features are active. -/
def ofFeatures (features : List Feature) : Rules := features.foldl enable {}

/-- The active features, in the order of `Feature.all`. -/
def features (rules : Rules) : List Feature := Feature.all.filter rules.isEnabled

/-- The accounting of signer lists stored under the rules. -/
def accounting (rules : Rules) : Accounting :=
  if rules.isEnabled .multiSignReserve then .current else .legacy

end Rules

/-! ## Limits -/

/-- How large directories may grow. -/
structure Limits where
  keysPerPage : UInt64 := 32
  pages : UInt64 := 262144
deriving DecidableEq

structure Terms where
  fees : Fees := {}
  rules : Rules := {}
  limits : Limits := {}
deriving DecidableEq

end Cosign
