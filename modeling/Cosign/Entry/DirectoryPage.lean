-- SUMMARY: One page of a directory.
import Cosign.Identifier

/-!
# Directory pages

A directory is a ring of numbered pages. Each page holds keys and the numbers
of the pages after and before it; the root page is number zero, and the page
before the root is the last one.
-/

namespace Cosign

structure DirectoryPage where
  /-- The key of the directory's root page. -/
  root : Key
  owner : Option AccountId := none
  keys : List Key := []
  next : UInt64 := 0
  previous : UInt64 := 0
deriving DecidableEq

namespace DirectoryPage

/-- The page with `key` after its other keys. -/
def push (page : DirectoryPage) (key : Key) : DirectoryPage :=
  { page with keys := page.keys ++ [key] }

/-- The page without the first occurrence of `key`. -/
def drop (page : DirectoryPage) (key : Key) : DirectoryPage :=
  { page with keys := page.keys.erase key }

end DirectoryPage

end Cosign
