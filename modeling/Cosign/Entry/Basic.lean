-- SUMMARY: Ledger entries of every kind.
import Cosign.Entry.AccountRoot
import Cosign.Entry.DirectoryPage
import Cosign.Entry.SignerList

/-!
# Entries

A ledger holds entries of three kinds. The projections give the content of an
entry of one kind and nothing for the others; the `map…` functions modify
entries of one kind and leave the others alone.
-/

namespace Cosign

inductive EntryKind where
  | accountRoot
  | directoryPage
  | signerList
deriving DecidableEq

/-- The name of a kind in messages and exchanged values. -/
def EntryKind.name : EntryKind → String
  | accountRoot => "AccountRoot"
  | directoryPage => "DirectoryNode"
  | signerList => "SignerList"

inductive Entry where
  | accountRoot (root : AccountRoot)
  | directoryPage (page : DirectoryPage)
  | signerList (list : SignerList)
deriving DecidableEq

namespace Entry

def kind : Entry → EntryKind
  | accountRoot _ => .accountRoot
  | directoryPage _ => .directoryPage
  | signerList _ => .signerList

def accountRoot? : Entry → Option AccountRoot
  | accountRoot root => some root
  | _ => none

def directoryPage? : Entry → Option DirectoryPage
  | directoryPage page => some page
  | _ => none

def signerList? : Entry → Option SignerList
  | signerList list => some list
  | _ => none

/-- The entry changed if it is of the kind. -/
def mapKind (kind : EntryKind) (change : Entry → Entry) (entry : Entry) : Entry :=
  if entry.kind = kind then change entry else entry

def mapAccountRoot (change : AccountRoot → AccountRoot) : Entry → Entry
  | accountRoot root => accountRoot (change root)
  | entry => entry

def mapDirectoryPage (change : DirectoryPage → DirectoryPage) : Entry → Entry
  | directoryPage page => directoryPage (change page)
  | entry => entry

end Entry

end Cosign
