-- SUMMARY: Ledger entries, terms and configurations are read back from their texts.
import Cosign.Proofs.Wire.Basic
import Cosign.Wire.Ledger

/-!
# Ledger values read back

Whatever a ledger stores is read back from its text, so no two entries have the same text,
and the same holds for fees, limits, rules and configurations (`Ledger.values_exchanged`).
-/

namespace Cosign

/-- The active features determine the rules. -/
theorem Rules.ofFeatures_features (rules : Rules) : .ofFeatures rules.features = rules := by
  obtain ⟨multiSignReserve⟩ := rules
  cases multiSignReserve <;> rfl

namespace Wire

/-! ## Names -/

instance : LawfulWire Accounting where
  isPlain_encode _ := .ofString _
  decode_encode mode := alternative?_name (by decide) (by cases mode <;> decide)

instance : LawfulWire Feature where
  isPlain_encode _ := .ofString _
  decode_encode feature := alternative?_name (by decide) (by cases feature; decide)

instance : LawfulWire EntryKind where
  isPlain_encode _ := .ofString _
  decode_encode kind := alternative?_name (by decide) (by cases kind <;> decide)

/-! ## Entries -/

instance : LawfulWire Signer where
  isPlain_encode _ := .record (by simp)
  decode_encode signer := by
    have hfields : fieldValues [.needed "account", .needed "weight"] (encode signer) =
        some [some (encode signer.account), some (encode signer.weight)] :=
      fieldValues_record (by simp) _
    simp [decode, hfields]

instance : LawfulWire AccountRoot where
  isPlain_encode _ := .record (by simp)
  decode_encode root := by
    have hfields : fieldValues
        [.needed "account", .needed "balance", .needed "owner_count", .needed "flags",
        .needed "regular_key", .needed "sequence"] (encode root) =
        some [some (encode root.account), some (encode root.balance), some (encode root.ownerCount),
          some (encode root.flags), some (encode root.regularKey), some (encode root.sequence)] :=
      fieldValues_record (by simp) _
    simp [decode, hfields]

instance : LawfulWire DirectoryPage where
  isPlain_encode _ := .record (by simp)
  decode_encode page := by
    have hfields : fieldValues
        [.needed "root_index", .needed "owner", .needed "indexes", .needed "index_next",
        .needed "index_previous"] (encode page) =
        some [some (encode page.root), some (encode page.owner), some (encode page.keys),
          some (encode page.next), some (encode page.previous)] :=
      fieldValues_record (by simp) _
    simp [decode, hfields]

instance : LawfulWire SignerList where
  isPlain_encode _ := .record (by simp)
  decode_encode list := by
    have hfields : fieldValues
        [.needed "quorum", .needed "list_id", .needed "entries", .needed "accounting",
        .needed "owner_node"] (encode list) =
        some [some (encode list.quorum), some (encode list.listId), some (encode list.signers),
          some (encode list.accounting), some (encode list.page)] :=
      fieldValues_record (by simp) _
    simp [decode, hfields]

theorem decodeContent_encodeContent (entry : Entry) :
    decodeContent entry.kind (encodeContent entry) = some entry := by
  cases entry <;> simp [decodeContent, encodeContent, Entry.kind]

instance : LawfulWire Entry where
  isPlain_encode entry := .record (by cases entry <;> simp [encodeContent])
  decode_encode entry := by
    have hkind : decode (.ofString entry.kind.name) = some entry.kind := decode_encode entry.kind
    calc decode (encode entry)
      _ = (decode (.ofString entry.kind.name)).bind (decodeContent · (encodeContent entry)) := rfl
      _ = decodeContent entry.kind (encodeContent entry) := by rw [hkind, Option.bind_some]
      _ = some entry := decodeContent_encodeContent entry

/-! ## Terms and configurations -/

instance : LawfulWire Fees where
  isPlain_encode _ := .record (by simp)
  decode_encode fees := by
    have hfields : fieldValues
        [.needed "base", .needed "reserve", .needed "increment"] (encode fees) =
        some [some (encode fees.base), some (encode fees.reserve), some (encode fees.increment)] :=
      fieldValues_record (by simp) _
    simp [decode, hfields]

instance : LawfulWire Limits where
  isPlain_encode _ := .record (by simp)
  decode_encode limits := by
    have hfields : fieldValues
        [.needed "max_entries_per_page", .needed "max_pages"] (encode limits) =
        some [some (encode limits.keysPerPage), some (encode limits.pages)] :=
      fieldValues_record (by simp) _
    simp [decode, hfields]

instance : LawfulWire Rules where
  isPlain_encode _ := .record (by simp)
  decode_encode rules := by
    have hfields : fieldValues [.needed "enabled"] (encode rules) =
        some [some (encode rules.features)] :=
      fieldValues_record (by simp) _
    simp [decode, hfields, Rules.ofFeatures_features]

instance : LawfulWire Config where
  isPlain_encode _ := .record (by simp)
  decode_encode config := by
    have hfields : fieldValues
        [.needed "base_fee", .needed "reserve_base", .needed "reserve_increment",
        .needed "features", .needed "max_entries_per_page", .needed "max_pages",
        .needed "halt_on_internal"] (encode config) =
        some [some (encode config.baseFee), some (encode config.reserveBase),
          some (encode config.reserveIncrement), some (encode config.features),
          some (encode config.keysPerPage), some (encode config.pages),
          some (encode config.haltOnInternal)] :=
      fieldValues_record (by simp) _
    simp [decode, hfields]

end Wire

/-- Entries, rules, fees, limits and configurations are read back from their texts, and
different entries have different texts. -/
theorem Ledger.values_exchanged :
    (∀ entry : Entry, Wire.read Entry (Wire.write entry) = some entry) ∧
      (∀ rules : Rules, Wire.read Rules (Wire.write rules) = some rules) ∧
      (∀ fees : Fees, Wire.read Fees (Wire.write fees) = some fees) ∧
      (∀ limits : Limits, Wire.read Limits (Wire.write limits) = some limits) ∧
      (∀ config : Config, Wire.read Config (Wire.write config) = some config) ∧
      ∀ a b : Entry, Wire.write a = Wire.write b ↔ a = b := by
  refine ⟨Wire.read_write, Wire.read_write, Wire.read_write, Wire.read_write,
    Wire.read_write, fun a b => ?_⟩
  exact Wire.write_injective.eq_iff

end Cosign
