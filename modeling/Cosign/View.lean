-- SUMMARY: Views: what can be done with a set of entries, and looking entries up.
import Cosign.LedgerError
import Cosign.Slot
import Cosign.Terms

/-!
# Views

A view is anything that holds entries by key and lets them be read, modified,
inserted and erased under fixed terms: a ledger itself, or a draft of changes
over one. Modifying a key that holds nothing changes nothing; inserting needs a
free key and erasing an occupied one. Both leave a view also where they fail.
-/

namespace Cosign

class View (σ : Type) where
  terms : σ → Terms
  find? : σ → Key → Option Entry
  modify : σ → Key → (Entry → Entry) → σ
  insert : σ → Key → Entry → Except LedgerError Unit × σ
  erase : σ → Key → Except LedgerError Entry × σ

namespace View

variable {σ : Type} [View σ]

/-- The root of an account. -/
def account? (view : σ) (id : AccountId) : Option AccountRoot :=
  (find? view (Slot.account id).key).bind Entry.accountRoot?

/-- The signer list of an account. -/
def signerList? (view : σ) (id : AccountId) : Option SignerList :=
  (find? view (signersKey id)).bind Entry.signerList?

/-- The page `index` of a directory. -/
def page? (view : σ) (root : Key) (index : UInt64) : Option DirectoryPage :=
  (find? view (Slot.page root index).key).bind Entry.directoryPage?

end View

end Cosign
