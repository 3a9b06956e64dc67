-- SUMMARY: How operations on a ledger fail.
import Cosign.Entry.Basic

/-!
# Ledger errors

Each constructor is one cause, with the key or page it concerns.
-/

namespace Cosign

inductive LedgerError where
  | entryExists (key : Key)
  | entryNotFound (key : Key)
  | entryTypeMismatch (key : Key) (expected actual : EntryKind)
  /-- The last page of the directory is full, and has the last number that the limits allow. -/
  | directoryFull (directory : Key)
  /-- The page does not hold the key. -/
  | directoryEntryMissing (page : UInt64) (key : Key)
  /-- A page that the directory's links lead to is not there. -/
  | brokenDirectoryLink (directory : Key) (page : UInt64)
  | unknownFeature (name : String)
deriving DecidableEq

def LedgerError.message : LedgerError → String
  | entryExists key => s!"Entry already exists: {key.text}"
  | entryNotFound key => s!"Entry not found: {key.text}"
  | entryTypeMismatch key expected actual =>
    s!"Entry {key.text} has type {actual.name}, expected {expected.name}"
  | directoryFull directory => s!"Directory full: {directory.text}"
  | directoryEntryMissing page key => s!"Key {key.text} not found on directory page {page}"
  | brokenDirectoryLink directory page =>
    s!"Broken directory link: page {page} of {directory.text}"
  | unknownFeature name => s!"Unknown feature: {name}"

end Cosign
