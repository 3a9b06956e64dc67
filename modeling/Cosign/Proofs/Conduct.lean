-- SUMMARY: What procedures do to which keys and how they fail, whatever they are answered.
import Cosign.Proofs.Enactment

/-!
# Conduct

What a procedure does and how it fails depends on the answers it gets, but not
everything is possible. A procedure `Conforms` to a condition on accesses and one on
failures if it meets them whatever the answers are. That is read off the
procedure's text, with one rule for each way of composing procedures, and holds of
every run on every view, a broken one included.

Here it is said once what directories and signer lists can do (`Directory.Proper`,
`SignerList.Proper`), and that a transaction which has passed its checks does nothing
else and never fails as if it were malformed (`Transaction.conforms_enact`). How far
transactions reach and what they leave alone follows from these lists of accesses.
-/

namespace Cosign

/-- What a procedure does to the entry at a key. -/
inductive Access where
  | read (key : Key)
  | modify (key : Key) (change : Entry → Entry)
  | insert (key : Key) (entry : Entry)
  | erase (key : Key)

def Access.key : Access → Key
  | read key | modify key _ | insert key _ | erase key => key

namespace Procedure

variable {ε ε' α β σ : Type}

/-- Whatever the answers, the procedure accesses entries as `A` says and fails as `F` says. -/
def Conforms (A : Access → Prop) (F : ε → Prop) : Procedure ε α → Prop
  | done _ => True
  | fail error => F error
  | terms next => ∀ answer, (next answer).Conforms A F
  | read key next => A (.read key) ∧ ∀ answer, (next answer).Conforms A F
  | modify key change next => A (.modify key change) ∧ ∀ answer, (next answer).Conforms A F
  | insert key entry next => A (.insert key entry) ∧ ∀ answer, (next answer).Conforms A F
  | erase key next => A (.erase key) ∧ ∀ answer, (next answer).Conforms A F

namespace Conforms

variable {A B : Access → Prop} {F : ε → Prop} {G : ε' → Prop}

/-- A run fails only as the procedure may. -/
theorem error_run [View σ] {p : Procedure ε α} (h : p.Conforms A F) {view after : σ} {error : ε}
    (hrun : p.run view = (.error error, after)) : F error := by
  induction p generalizing view with
  | done => cases hrun
  | fail =>
      cases hrun
      exact h
  | terms next ih => exact ih _ (h _) hrun
  | read key next ih | modify key change next ih | insert key entry next ih | erase key next ih =>
      exact ih _ (h.2 _) hrun

theorem mono {p : Procedure ε α} (hp : p.Conforms A F) (hA : ∀ access, A access → B access) :
    p.Conforms B F := by
  induction p with
  | done => trivial
  | fail => exact hp
  | terms next ih => exact fun answer => ih answer (hp answer)
  | read key next ih | modify key change next ih | insert key entry next ih | erase key next ih =>
      exact ⟨hA _ hp.1, fun answer => ih answer (hp.2 answer)⟩

theorem bind {p : Procedure ε α} {f : α → Procedure ε β} (hp : p.Conforms A F)
    (hf : ∀ value, (f value).Conforms A F) : (p >>= f).Conforms A F := by
  induction p with
  | done value => exact hf value
  | fail => exact hp
  | terms next ih => exact fun answer => ih answer (hp answer)
  | read key next ih | modify key change next ih | insert key entry next ih | erase key next ih =>
      exact ⟨hp.1, fun answer => ih answer (hp.2 answer)⟩

theorem mapError {p : Procedure ε α} (hp : p.Conforms A F) {f : ε → ε'}
    (hf : ∀ error, F error → G (f error)) : (p.mapError f).Conforms A G := by
  induction p with
  | done => trivial
  | fail error => exact hf error hp
  | terms next ih => exact fun answer => ih answer (hp answer)
  | read key next ih | modify key change next ih | insert key entry next ih | erase key next ih =>
      exact ⟨hp.1, fun answer => ih answer (hp.2 answer)⟩

/-! ### Single operations -/

variable {key : Key} {id : AccountId}

theorem ofOption {error : ε} (h : F error) (found : Option α) :
    (ofOption error found).Conforms A F := by
  cases found with
  | none => exact h
  | some value => trivial

theorem getTerms : (getTerms : Procedure ε Terms).Conforms A F := fun _ => trivial

theorem find? (h : A (.read key)) : (find? key : Procedure ε (Option Entry)).Conforms A F :=
  ⟨h, fun _ => trivial⟩

theorem update {change : Entry → Entry} (h : A (.modify key change)) :
    (update key change : Procedure ε (Option Entry)).Conforms A F :=
  ⟨h, fun _ => trivial⟩

theorem insertNew {entry : Entry} (h : A (.insert key entry)) :
    (insertNew key entry).Conforms A fun _ => True := by
  refine ⟨h, fun answer => ?_⟩
  cases answer <;> trivial

theorem remove (h : A (.erase key)) : (remove key).Conforms A fun _ => True := by
  refine ⟨h, fun answer => ?_⟩
  cases answer <;> trivial

theorem account? (h : A (.read (Slot.account id).key)) :
    (account? id : Procedure ε (Option AccountRoot)).Conforms A F :=
  bind (find? h) fun _ => trivial

theorem signerList? (h : A (.read (signersKey id))) :
    (signerList? id : Procedure ε (Option SignerList)).Conforms A F :=
  bind (find? h) fun _ => trivial

theorem adjustOwnerCount {delta : Int64} (h : A (.modify (Slot.account id).key
    (Entry.mapAccountRoot (·.adjustOwnerCount delta)))) :
    (adjustOwnerCount id delta).Conforms A fun _ => True := by
  refine bind (update h) fun found => ?_
  split <;> trivial

end Conforms

end Procedure

open Procedure (Conforms)

/-! ## Directories -/

namespace Directory

/-- The change leaves the directory and the owner that a page names as they are. -/
def Relinks (change : DirectoryPage → DirectoryPage) : Prop :=
  ∀ page, (change page).root = page.root ∧ (change page).owner = page.owner

/-- What a directory does when it creates pages for a certain owner: it goes to its own pages, changes
neither their directory nor their owner, and inserts pages that name itself and that owner. -/
inductive Proper (root : Key) (owner : Option AccountId) : Access → Prop
  | read (index : UInt64) : Proper root owner (.read (Slot.page root index).key)
  | modify (index : UInt64) {change : DirectoryPage → DirectoryPage} (h : Relinks change) :
      Proper root owner (.modify (Slot.page root index).key (Entry.mapDirectoryPage change))
  | insert (index : UInt64) {page : DirectoryPage} (hroot : page.root = root)
      (howner : page.owner = owner) :
      Proper root owner (.insert (Slot.page root index).key (.directoryPage page))
  | erase (index : UInt64) : Proper root owner (.erase (Slot.page root index).key)

variable {root : Key} {owner : Option AccountId}

theorem conforms_page (index : UInt64) :
    (page root index).Conforms (Proper root owner) fun _ => True :=
  .bind (.find? (.read index)) fun _ => .ofOption trivial _

theorem conforms_modifyPage (index : UInt64) {change : DirectoryPage → DirectoryPage}
    (h : Relinks change) :
    (modifyPage root index change).Conforms (Proper root owner) fun _ => True :=
  .bind (.update (.modify index h)) fun _ => .bind (.ofOption trivial _) fun _ => trivial

theorem conforms_appendPage (last fresh : UInt64) (key : Key) :
    (appendPage root owner last fresh key).Conforms (Proper root owner) fun _ => True := by
  refine .bind (conforms_modifyPage _ fun _ => ⟨rfl, rfl⟩) fun _ => ?_
  refine .bind (conforms_modifyPage _ fun _ => ⟨rfl, rfl⟩) fun _ => ?_
  exact .bind (.insertNew (.insert fresh rfl rfl)) fun _ => trivial

theorem conforms_insert (key : Key) :
    (insert root owner key).Conforms (Proper root owner) fun _ => True := by
  refine .bind .getTerms fun terms => ?_
  refine .bind (.find? (.read 0)) fun found => ?_
  cases found with
  | none => exact .bind (.insertNew (.insert 0 rfl rfl)) fun _ => trivial
  | some entry =>
      refine .bind (.ofOption trivial _) fun first => ?_
      refine .bind (conforms_page _) fun tail => ?_
      split
      · exact .bind (conforms_modifyPage _ fun _ => ⟨rfl, rfl⟩) fun _ => trivial
      · split
        · exact conforms_appendPage _ _ _
        · trivial

theorem conforms_retireRoot (previous next : UInt64) (keepRoot : Bool) :
    (retireRoot root previous next keepRoot).Conforms (Proper root owner) fun _ => True := by
  have herase : (unless keepRoot do
      let _ ← Procedure.remove root : Procedure LedgerError Unit).Conforms
        (Proper root owner) fun _ => True := by
    cases keepRoot with
    | true => trivial
    | false => exact .bind (.remove (.erase 0)) fun _ => trivial
  unfold retireRoot
  split
  · exact herase
  · split
    · refine .bind (conforms_page _) fun other => ?_
      split
      · refine .bind (.remove (.erase previous)) fun _ => ?_
        exact .bind (conforms_modifyPage _ fun _ => ⟨rfl, rfl⟩) fun _ => herase
      · trivial
    · trivial

theorem conforms_retirePage (index previous next : UInt64) (keepRoot : Bool) :
    (retirePage root index previous next keepRoot).Conforms (Proper root owner)
      fun _ => True := by
  unfold retirePage
  by_cases hself : previous = index ∨ next = index
  · rw [if_pos hself]
    trivial
  · rw [if_neg hself]
    refine .bind (conforms_modifyPage _ fun _ => ⟨rfl, rfl⟩) fun _ => ?_
    refine .bind (conforms_modifyPage _ fun _ => ⟨rfl, rfl⟩) fun _ => ?_
    refine .bind (.remove (.erase index)) fun _ => ?_
    split
    · refine .bind (.find? (.read 0)) fun found => ?_
      split
      · split
        · exact .bind (.remove (.erase 0)) fun _ => trivial
        · trivial
      · trivial
    · trivial

theorem conforms_remove (index : UInt64) (key : Key) (keepRoot : Bool) :
    (remove root index key keepRoot).Conforms (Proper root owner) fun _ => True := by
  have hdrop : Relinks (·.drop key) := fun _ => ⟨rfl, rfl⟩
  refine .bind (.update (.modify index hdrop)) fun found => ?_
  split
  · trivial
  · split
    · trivial
    · split
      · split
        · exact conforms_retireRoot _ _ _
        · exact conforms_retirePage _ _ _ _
      · trivial

end Directory

/-! ## Transactions -/

/-- The rejection is not one that a transaction gets for itself alone. -/
def Rejection.IsOfLedger (rejection : Rejection) : Prop :=
  ∀ cause, rejection ≠ .malformed cause

namespace SignerList

/-- What the operations on an account's signer list do: apart from the accesses of the owner's directory
they move the owner count, and insert and erase the list. -/
inductive Proper (owner : AccountId) : Access → Prop
  | directory {access : Access}
      (h : Directory.Proper (ownerDirectoryKey owner) (some owner) access) : Proper owner access
  | readRoot : Proper owner (.read (Slot.account owner).key)
  | moveCount (delta : Int64) : Proper owner
      (.modify (Slot.account owner).key (Entry.mapAccountRoot (·.adjustOwnerCount delta)))
  | readList : Proper owner (.read (signersKey owner))
  | insertList (list : SignerList) : Proper owner (.insert (signersKey owner) (.signerList list))
  | eraseList : Proper owner (.erase (signersKey owner))

variable (owner : AccountId)

theorem rejectInsertion_cases (cause : LedgerError) :
    rejectInsertion owner cause = .claimed (.directoryFull owner) ∨
      ∃ internal, rejectInsertion owner cause = .internal internal := by
  cases cause <;> first | exact .inl rfl | exact .inr ⟨_, rfl⟩

variable {F : Rejection → Prop}

/-- A removal fails only because the ledger is inconsistent. -/
theorem conforms_remove (hinternal : ∀ cause, F (.internal cause)) :
    (remove owner).Conforms (Proper owner) F := by
  have hdirectory (index : UInt64) : (OwnerDirectory.remove owner index (signersKey owner)).Conforms
      (Proper owner) fun _ => True :=
    (Directory.conforms_remove _ _ _).mono fun _ => .directory
  refine .bind (.signerList? .readList) fun found => ?_
  split
  · trivial
  · refine .bind (.mapError (hdirectory _) fun _ _ => hinternal _) fun _ => ?_
    refine .bind (.mapError (.adjustOwnerCount (.moveCount _)) fun _ _ => hinternal _) fun _ => ?_
    exact .bind (.mapError (.remove .eraseList) fun _ _ => hinternal _) fun _ => trivial

theorem conforms_destroy (hinternal : ∀ cause, F (.internal cause))
    (hkey : F (.claimed (.noAlternativeKey owner))) : (destroy owner).Conforms (Proper owner) F := by
  refine .bind (.account? .readRoot) fun found => ?_
  refine .bind (.ofOption (hinternal _) _) fun root => ?_
  split
  · exact .bind (conforms_remove owner hinternal) fun _ => trivial
  · exact hkey

/-- Storing a list fails, besides, when the directory has no room for its key. -/
theorem conforms_store (hinternal : ∀ cause, F (.internal cause))
    (hfull : F (.claimed (.directoryFull owner))) (payload : Payload) (accounting : Accounting) :
    (store owner payload accounting).Conforms (Proper owner) F := by
  have hdirectory : (OwnerDirectory.insert owner (signersKey owner)).Conforms
      (Proper owner) fun _ => True :=
    (Directory.conforms_insert _).mono fun _ => .directory
  have hreject (cause : LedgerError) : F (rejectInsertion owner cause) := by
    rcases rejectInsertion_cases owner cause with heq | ⟨internal, heq⟩
    · exact heq ▸ hfull
    · exact heq ▸ hinternal internal
  refine .bind (.mapError hdirectory fun cause _ => hreject cause) fun page => ?_
  refine .bind (.mapError (.insertNew (.insertList _)) fun _ _ => hinternal _) fun _ => ?_
  exact .bind (.mapError (.adjustOwnerCount (.moveCount _)) fun _ _ => hinternal _) fun _ => trivial

theorem conforms_replace (hinternal : ∀ cause, F (.internal cause))
    (hclaimed : ∀ cause, F (.claimed cause)) (priorBalance : UInt64) (payload : Payload) :
    (replace owner priorBalance payload).Conforms (Proper owner) F := by
  refine .bind (conforms_remove owner hinternal) fun refunded => ?_
  refine .bind (.account? .readRoot) fun found => ?_
  refine .bind (.ofOption (hinternal _) _) fun root => ?_
  refine .bind .getTerms fun terms => ?_
  dsimp only
  split
  · exact hclaimed _
  · exact .bind (conforms_store owner hinternal (hclaimed _) _ _) fun _ => trivial

end SignerList

/-- A transaction that passes its checks does what is proper for its sender, and if it fails then
because of the ledger. -/
theorem Transaction.conforms_enact {tx : Transaction} {request : Request}
    (h : tx.preflight = .ok request) :
    tx.enact.Conforms (SignerList.Proper tx.account) Rejection.IsOfLedger := by
  obtain ⟨action, rfl⟩ := exists_action h
  unfold Transaction.enact
  rw [h]
  cases action with
  | replace payload => exact SignerList.conforms_replace _ (fun _ => nofun) (fun _ => nofun) _ _
  | destroy => exact SignerList.conforms_destroy _ (fun _ => nofun) nofun

end Cosign
