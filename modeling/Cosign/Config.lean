-- SUMMARY: The configuration of a service, and the ledger it starts from.
import Cosign.Ledger

/-!
# Configuration

Every setting has a default. The fees, rules and limits of a configuration are
the terms of the ledger that is built from it.
-/

namespace Cosign

structure Config where
  baseFee : UInt64 := 10
  reserveBase : UInt64 := 20000000
  reserveIncrement : UInt64 := 5000000
  features : List Feature := [.multiSignReserve]
  keysPerPage : UInt64 := 32
  pages : UInt64 := 262144
  /-- Stop applying transactions once the ledger turns out to be inconsistent. -/
  haltOnInternal : Bool := true
deriving DecidableEq

namespace Config

def fees (config : Config) : Fees :=
  ⟨config.baseFee, config.reserveBase, config.reserveIncrement⟩

def rules (config : Config) : Rules := .ofFeatures config.features

def limits (config : Config) : Limits := ⟨config.keysPerPage, config.pages⟩

def terms (config : Config) : Terms := ⟨config.fees, config.rules, config.limits⟩

/-- An empty ledger under the configured terms. -/
def ledger (config : Config) : Ledger := .empty config.terms

end Config

end Cosign
