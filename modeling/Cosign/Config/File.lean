-- SUMMARY: Configuration files: which settings a TOML document overrides, and how it can fail to.
import Cosign.Config
import Cosign.Toml.Document

/-!
# Configuration files

A configuration file has sections for fees, rules, the directory and the
service. Each setting it names replaces the default; names that are no settings
are ignored. A section may also be an array of all its values in order. Values
of a wrong type or out of range make the file unreadable, whatever else it says;
only then are the names of features looked up.
-/

namespace Cosign

inductive ConfigError where
  /-- The file is missing or no text. -/
  | io
  /-- The text is no TOML, or some value does not fit its setting. -/
  | parse
  | unknownFeature (name : String)
deriving DecidableEq

namespace Config

open Toml (Value Table)

/-! ## Values -/

/-- An integer that is not negative; every such TOML integer fits into a word. -/
def word? : Value → Option UInt64
  | .integer (.ofNat value) => some (UInt64.ofNat value)
  | _ => none

def flag? : Value → Option Bool
  | .boolean value => some value
  | _ => none

def text? : Value → Option String
  | .string text => some text
  | _ => none

def texts? : Value → Option (List String)
  | .array items => items.mapM text?
  | _ => none

/-- Reads a setting if it is there; one of a wrong type fails. -/
def setting? {α : Type} (read : Value → Option α) (value? : Option Value) :
    Option (Option α) :=
  match value? with
  | some value => (read value).map some
  | none => some none

/-! ## Sections -/

/-- The values of a section's settings, with none for a setting left out.

A date in place of a section names no setting at all. -/
def section? (names : List String) (document : Table) (name : String) :
    Option (List (Option Value)) :=
  match document.lookup name with
  | none => some (names.map fun _ => none)
  | some .dateTime => some (names.map fun _ => none)
  | some (.table _ entries) => some (names.map fun name => entries.lookup name)
  | some (.inline entries) => some (names.map fun name => entries.lookup name)
  | some (.array items) =>
    if names.length ≤ items.length then some ((items.take names.length).map some) else none
  | some _ => none

/-- The settings a file overrides, before feature names are looked up. -/
structure Overrides where
  baseFee : Option UInt64
  reserveBase : Option UInt64
  reserveIncrement : Option UInt64
  featureNames : Option (List String)
  keysPerPage : Option UInt64
  pages : Option UInt64
  haltOnInternal : Option Bool

namespace Overrides

/-- The settings that a document names. -/
def ofDocument? (document : Table) : Option Overrides := do
  let fees ← section? ["base", "reserve", "increment"] document "fees"
  let rules ← section? ["features"] document "rules"
  let directory ← section? ["max_entries_per_page", "max_pages"] document "directory"
  let service ← section? ["halt_on_internal"] document "service"
  match fees, rules, directory, service with
  | [base, reserve, increment], [features], [keysPerPage, pages], [halt] =>
    return {
      baseFee := ← setting? word? base
      reserveBase := ← setting? word? reserve
      reserveIncrement := ← setting? word? increment
      featureNames := ← setting? texts? features
      keysPerPage := ← setting? word? keysPerPage
      pages := ← setting? word? pages
      haltOnInternal := ← setting? flag? halt }
  | _, _, _, _ => none

end Overrides

/-! ## Files -/

/-- The features of some names; the first that names none decides. -/
def featuresNamed : List String → Except ConfigError (List Feature)
  | [] => .ok []
  | name :: rest =>
    match Feature.ofName? name with
    | some feature => return feature :: (← featuresNamed rest)
    | none => .error (.unknownFeature name)

/-- The defaults with what is overridden. -/
def override (overrides : Overrides) : Except ConfigError Config := do
  let defaults : Config := {}
  let features ←
    match overrides.featureNames with
    | some names => featuresNamed names
    | none => .ok defaults.features
  return {
    baseFee := overrides.baseFee.getD defaults.baseFee
    reserveBase := overrides.reserveBase.getD defaults.reserveBase
    reserveIncrement := overrides.reserveIncrement.getD defaults.reserveIncrement
    features
    keysPerPage := overrides.keysPerPage.getD defaults.keysPerPage
    pages := overrides.pages.getD defaults.pages
    haltOnInternal := overrides.haltOnInternal.getD defaults.haltOnInternal }

/-- The configuration that a document describes. -/
def ofDocument (document : Table) : Except ConfigError Config :=
  match Overrides.ofDocument? document with
  | some overrides => override overrides
  | none => .error .parse

/-- The configuration that a text describes. -/
def parse (text : String) : Except ConfigError Config :=
  match Toml.parse text with
  | some document => ofDocument document
  | none => .error .parse

/-- The configuration of a file, given its bytes; none if there is no such file. -/
def ofFile (bytes? : Option (List UInt8)) : Except ConfigError Config :=
  match bytes?.bind fun bytes => String.fromUTF8? ⟨bytes.toArray⟩ with
  | some text => parse text
  | none => .error .io

end Config

/-- The text of a configuration error, where it is settled. -/
def ConfigError.message? : ConfigError → Option String
  | .unknownFeature name => some s!"Unknown feature in config: {name}"
  | _ => none

end Cosign
