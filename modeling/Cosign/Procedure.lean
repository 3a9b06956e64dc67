-- SUMMARY: Programs over views: trees of view operations, their composition and their runs.
import Cosign.View.Lawful

/-!
# Procedures

A procedure is a program that works on a view without knowing which: a tree
whose nodes are view operations and whose branches are the possible answers.
What it does next may depend on every answer so far, including on failures.
`run` carries a procedure out on any view. A failing procedure stops where it
is; the changes it has made stay made, and whoever runs it decides what becomes
of them.
-/

namespace Cosign

inductive Procedure (ε α : Type) : Type where
  | done (value : α)
  | fail (error : ε)
  | terms (next : Terms → Procedure ε α)
  | read (key : Key) (next : Option Entry → Procedure ε α)
  /-- Changes the entry at a key and goes on with the entry as it was. -/
  | modify (key : Key) (change : Entry → Entry) (next : Option Entry → Procedure ε α)
  | insert (key : Key) (entry : Entry) (next : Except LedgerError Unit → Procedure ε α)
  | erase (key : Key) (next : Except LedgerError Entry → Procedure ε α)

namespace Procedure

variable {ε ε' α β γ σ : Type}

/-! ## Composition -/

protected def bind : Procedure ε α → (α → Procedure ε β) → Procedure ε β
  | done value, f => f value
  | fail error, _ => fail error
  | terms next, f => terms fun answer => (next answer).bind f
  | read key next, f => read key fun answer => (next answer).bind f
  | modify key change next, f => modify key change fun answer => (next answer).bind f
  | insert key entry next, f => insert key entry fun answer => (next answer).bind f
  | erase key next, f => erase key fun answer => (next answer).bind f

instance : Monad (Procedure ε) where
  pure := done
  bind := Procedure.bind

/-- The procedure with its failure renamed. -/
def mapError (f : ε → ε') : Procedure ε α → Procedure ε' α
  | done value => done value
  | fail error => fail (f error)
  | terms next => terms fun answer => (next answer).mapError f
  | read key next => read key fun answer => (next answer).mapError f
  | modify key change next => modify key change fun answer => (next answer).mapError f
  | insert key entry next => insert key entry fun answer => (next answer).mapError f
  | erase key next => erase key fun answer => (next answer).mapError f

/-- The value of a result, or its failure. -/
def ofExcept : Except ε α → Procedure ε α
  | .ok value => done value
  | .error error => fail error

/-- The value that is there, or a failure. -/
def ofOption (error : ε) : Option α → Procedure ε α
  | some value => done value
  | none => fail error

theorem bind_eq (p : Procedure ε α) (f : α → Procedure ε β) : (p >>= f) = p.bind f := rfl

@[simp] theorem done_bind (value : α) (f : α → Procedure ε β) :
    (done value).bind f = f value := rfl

@[simp] theorem fail_bind (error : ε) (f : α → Procedure ε β) :
    (fail error : Procedure ε α).bind f = fail error := rfl

@[simp] theorem bind_done (p : Procedure ε α) : p.bind done = p := by
  induction p <;> simp_all [Procedure.bind]

theorem bind_assoc (p : Procedure ε α) (f : α → Procedure ε β) (g : β → Procedure ε γ) :
    (p.bind f).bind g = p.bind fun value => (f value).bind g := by
  induction p <;> simp_all [Procedure.bind]

instance : LawfulMonad (Procedure ε) :=
  LawfulMonad.mk' (Procedure ε)
    (fun p => bind_done p)
    (fun _ _ => rfl)
    (fun p f g => bind_assoc p f g)

/-! ## Running -/

/-- The result of a procedure on a view, and the view it leaves. -/
def run [View σ] : Procedure ε α → σ → Except ε α × σ
  | done value, view => (.ok value, view)
  | fail error, view => (.error error, view)
  | terms next, view => (next (View.terms view)).run view
  | read key next, view => (next (View.find? view key)).run view
  | modify key change next, view =>
    (next (View.find? view key)).run (View.modify view key change)
  | insert key entry next, view =>
    let (answer, changed) := View.insert view key entry
    (next answer).run changed
  | erase key next, view =>
    let (answer, changed) := View.erase view key
    (next answer).run changed

/-- The run of a composition goes on from where the first part ends, unless that fails. -/
theorem run_bind [View σ] (p : Procedure ε α) (f : α → Procedure ε β) (view : σ) :
    (p.bind f).run view =
      match p.run view with
      | (.ok value, changed) => (f value).run changed
      | (.error error, changed) => (.error error, changed) := by
  induction p generalizing view with
  | done | fail => rfl
  | terms next ih => exact ih _ _
  | read key next ih => exact ih _ _
  | modify key change next ih => exact ih _ _
  | insert key entry next ih => exact ih _ _
  | erase key next ih => exact ih _ _

theorem run_mapError [View σ] (f : ε → ε') (p : Procedure ε α) (view : σ) :
    (p.mapError f).run view = ((p.run view).1.mapError f, (p.run view).2) := by
  induction p generalizing view with
  | done | fail => rfl
  | terms next ih => exact ih _ _
  | read key next ih => exact ih _ _
  | modify key change next ih => exact ih _ _
  | insert key entry next ih => exact ih _ _
  | erase key next ih => exact ih _ _

/-- Lawful views that agree give the same result and go on agreeing. -/
theorem run_agree {τ : Type} [View σ] [View τ] [LawfulView σ] [LawfulView τ]
    (p : Procedure ε α) {a : σ} {b : τ} (h : View.Agree a b) :
    (p.run a).1 = (p.run b).1 ∧ View.Agree (p.run a).2 (p.run b).2 := by
  induction p generalizing a b with
  | done | fail => exact ⟨rfl, h⟩
  | terms next ih =>
    simp only [run]
    rw [h.terms]
    exact ih _ h
  | read key next ih =>
    simp only [run]
    rw [h.find?]
    exact ih _ h
  | modify key change next ih =>
    simp only [run]
    rw [h.find?]
    refine ih _ ⟨?_, fun other => ?_⟩
    · rw [LawfulView.terms_modify, LawfulView.terms_modify, h.terms]
    · rw [LawfulView.find?_modify, LawfulView.find?_modify, h.find?, h.find?]
  | insert key entry next ih =>
    cases ha : View.find? a key with
    | some old =>
      have hb := (h.find? key).symm.trans ha
      simp only [run, LawfulView.insert_of_some _ _ _ _ ha, LawfulView.insert_of_some _ _ _ _ hb]
      exact ih _ h
    | none =>
      have hb := (h.find? key).symm.trans ha
      obtain ⟨a', ha₁, ha₂, ha₃⟩ := LawfulView.insert_of_none a key entry ha
      obtain ⟨b', hb₁, hb₂, hb₃⟩ := LawfulView.insert_of_none b key entry hb
      simp only [run, ha₁, hb₁]
      exact ih _ ⟨by rw [ha₂, hb₂, h.terms], fun other => by rw [ha₃, hb₃, h.find?]⟩
  | erase key next ih =>
    cases ha : View.find? a key with
    | none =>
      have hb := (h.find? key).symm.trans ha
      simp only [run, LawfulView.erase_of_none _ _ ha, LawfulView.erase_of_none _ _ hb]
      exact ih _ h
    | some entry =>
      have hb := (h.find? key).symm.trans ha
      obtain ⟨a', ha₁, ha₂, ha₃⟩ := LawfulView.erase_of_some a key entry ha
      obtain ⟨b', hb₁, hb₂, hb₃⟩ := LawfulView.erase_of_some b key entry hb
      simp only [run, ha₁, hb₁]
      exact ih _ ⟨by rw [ha₂, hb₂, h.terms], fun other => by rw [ha₃, hb₃, h.find?]⟩

/-! ## Single operations -/

def getTerms : Procedure ε Terms := terms done

def find? (key : Key) : Procedure ε (Option Entry) := read key done

/-- Changes the entry at a key and gives the entry as it was. -/
def update (key : Key) (change : Entry → Entry) : Procedure ε (Option Entry) :=
  modify key change done

/-- Puts an entry at a free key. -/
def insertNew (key : Key) (entry : Entry) : Procedure LedgerError Unit :=
  insert key entry ofExcept

/-- Takes away the entry at an occupied key. -/
def remove (key : Key) : Procedure LedgerError Entry := erase key ofExcept

/-- The root of an account. -/
def account? (id : AccountId) : Procedure ε (Option AccountRoot) := do
  return (← find? (Slot.account id).key).bind Entry.accountRoot?

/-- The signer list of an account. -/
def signerList? (id : AccountId) : Procedure ε (Option SignerList) := do
  return (← find? (signersKey id)).bind Entry.signerList?

/-- Moves the owner count of an account and gives the new count. -/
def adjustOwnerCount (id : AccountId) (delta : Int64) : Procedure LedgerError UInt32 := do
  let key := (Slot.account id).key
  let found ← update key (Entry.mapAccountRoot (·.adjustOwnerCount delta))
  match found.bind Entry.accountRoot? with
  | some root => return (root.adjustOwnerCount delta).ownerCount
  | none => fail (.entryNotFound key)

end Procedure

end Cosign
