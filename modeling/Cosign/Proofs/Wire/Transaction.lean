-- SUMMARY: Transactions and result codes are read back from their texts.
import Cosign.Proofs.Wire.Basic
import Cosign.Transaction.Request
import Cosign.Wire.Transaction

/-!
# Transactions read back

A missing field of a transaction or of one of its signers is left out of the text and is
missing again when the text is read; signers that are missing differ from an empty list of
signers. So what is read is the transaction that was written, with all that follows from
its fields (`Transaction.exchanged`).
-/

namespace Cosign

namespace Wire

/-! ## Fields left out -/

section Present

variable {α : Type} [Wire α] (name : String) (value? : Option α)

theorem names_present : ((present name value?).map Prod.fst).Sublist [name] := by
  cases value? with
  | none => exact List.nil_sublist _
  | some value => exact .refl _

theorem isPlain_present [LawfulWire α] : ∀ member ∈ present name value?, member.2.IsPlain := by
  cases value? with
  | none => nofun
  | some value => simp [present]

/-- A field that may be left out is found under its name. -/
theorem lookup_present (rest : List (String × Json)) (hrest : rest.lookup name = none) :
    (present name value? ++ rest).lookup name = value?.map encode := by
  cases value? with
  | none => exact hrest
  | some value => simp [present]

/-- Under another name what follows is found. -/
theorem lookup_present_of_ne (other : String) (hother : other ≠ name) (rest : List (String × Json)) :
    (present name value? ++ rest).lookup other = rest.lookup other := by
  cases value? with
  | none => rfl
  | some value =>
      have hne : (other == name) = false := by simpa using hother
      simp [present, List.lookup_cons, hne]

/-- A field that was left out is missing when it is read. -/
theorem optional_map_encode [LawfulWire α] [DefiniteWire α] :
    optional (value?.map encode) none = some value? := by
  cases value? with
  | none => rfl
  | some value => exact decode_encode (some value)

end Present

/-! ## Transactions and result codes -/

instance : LawfulWire RawSigner where
  isPlain_encode raw :=
    .record (List.forall_mem_append.2 ⟨isPlain_present _ _, isPlain_present _ _⟩)
  decode_encode raw := by
    have hnames : ((present "Account" raw.account ++ present "SignerWeight" raw.weight).map
        Prod.fst).Nodup := by
      rw [List.map_append]
      exact ((names_present _ _).append (names_present _ _)).nodup (by decide)
    have haccount := lookup_present "Account" raw.account (present "SignerWeight" raw.weight) (by
      simpa using lookup_present_of_ne "SignerWeight" raw.weight "Account" (by decide) [])
    have hweight : (present "Account" raw.account ++ present "SignerWeight" raw.weight).lookup
        "SignerWeight" = raw.weight.map encode := by
      rw [lookup_present_of_ne _ _ _ (by decide)]
      simpa using lookup_present "SignerWeight" raw.weight [] rfl
    have hfields : fieldValues [.omissible "Account", .omissible "SignerWeight"] (encode raw) =
        some [raw.account.map encode, raw.weight.map encode] := by
      refine (fieldValues_record hnames _).trans ?_
      simp only [List.map_cons, List.map_nil, Field.omissible, haccount, hweight]
    simp [decode, hfields, optional_map_encode]

instance : DefiniteWire RawSigner := ⟨fun _ => nofun⟩

instance : LawfulWire Transaction where
  isPlain_encode tx := by
    refine .record (List.forall_mem_append.2 ⟨List.forall_mem_append.2 ⟨?_, ?_⟩, ?_⟩)
    · simp
    · exact isPlain_present _ _
    · simp
  decode_encode tx := by
    have hnames : (([("Account", encode tx.account), ("SignerQuorum", encode tx.quorum)] ++
        present "SignerEntries" tx.signers ++ [("PriorBalance", encode tx.priorBalance)]).map
        Prod.fst).Nodup := by
      rw [List.map_append, List.map_append]
      exact (((List.Sublist.refl _).append (names_present _ _)).append (.refl _)).nodup (by simp)
    have hsigners := lookup_present "SignerEntries" tx.signers
      [("PriorBalance", encode tx.priorBalance)] rfl
    have hbalance := lookup_present_of_ne "SignerEntries" tx.signers "PriorBalance" (by decide)
      [("PriorBalance", encode tx.priorBalance)]
    have hfields : fieldValues [.needed "Account", .omissible "SignerQuorum",
        .omissible "SignerEntries", .omissible "PriorBalance"] (encode tx) =
        some [some (encode tx.account), some (encode tx.quorum), tx.signers.map encode,
          some (encode tx.priorBalance)] := by
      refine (fieldValues_record hnames _).trans ?_
      simp [Field.omissible, Field.needed, List.lookup_cons, hsigners, hbalance]
    simp [decode, hfields, optional_map_encode]

instance : LawfulWire ResultCode where
  isPlain_encode _ := .ofString _
  decode_encode code := alternative?_name (by decide) (by cases code <;> decide)

end Wire

namespace Transaction

/-- A transaction is read back from its text, and so is whatever transaction a text was
read as. -/
theorem exchanged :
    (∀ tx : Transaction, ∃ again, Wire.read Transaction (Wire.write tx) = some again ∧
      again = tx ∧ again.operation = tx.operation ∧ again.preflight = tx.preflight) ∧
    ∀ text tx, Wire.read Transaction text = some tx →
      ∃ again, Wire.read Transaction (Wire.write tx) = some again ∧ again = tx ∧
        Wire.write again = Wire.write tx := by
  refine ⟨fun tx => ⟨tx, Wire.read_write tx, rfl, rfl, rfl⟩, fun _ tx _ => ?_⟩
  exact ⟨tx, Wire.read_write tx, rfl, rfl⟩

/-- A text with a blank, fields in another order, left out or of no meaning, a digit in lower
case and signers of several forms. -/
def looseText : String :=
  "\x7b\"SignerEntries\":[[null,7],[],\x7b\"Memo\":0,\"SignerWeight\":65535\x7d], " ++
    "\"Account\":\"00000000000000000000000000000000000000aB\"\x7d"

/-- The transaction that the loose text describes. -/
def loose : Transaction where
  account := ⟨List.replicate 19 0 ++ [0xAB], rfl⟩
  signers := some [⟨none, some 7⟩, ⟨none, none⟩, ⟨none, some 65535⟩]

theorem exchanged_loose :
    Wire.read Transaction looseText = some loose ∧
      Wire.write loose ≠ looseText ∧
      ∃ again, Wire.read Transaction (Wire.write loose) = some again ∧
        again = loose ∧ Wire.write again = Wire.write loose := by
  have hread : Wire.read Transaction looseText = some loose := by decide +kernel
  have hother : Wire.write loose ≠ looseText := by decide +kernel
  exact ⟨hread, hother, exchanged.2 looseText loose hread⟩

end Transaction

end Cosign
