-- SUMMARY: The exchanged form of ledger entries, fees, limits, rules and configurations.
import Cosign.Config
import Cosign.Wire.Basic

/-!
# Exchange of ledger values

Entries are written as an object with one member, named for the kind of entry.
Rules are written as the list of active features.
-/

namespace Cosign.Wire

/-! ## Names -/

def accountingName : Accounting → String
  | .legacy => "Legacy"
  | .current => "Current"

instance : Wire Accounting where
  encode mode := .ofString (accountingName mode)
  decode := alternative? accountingName [.legacy, .current]

instance : Wire Feature where
  encode feature := .ofString feature.name
  decode := alternative? Feature.name Feature.all

instance : Wire EntryKind where
  encode kind := .ofString kind.name
  decode := alternative? EntryKind.name [.accountRoot, .directoryPage, .signerList]

/-! ## Entries -/

instance : Wire Signer where
  encode signer :=
    .record [("account", encode signer.account), ("weight", encode signer.weight)]
  decode json :=
    match fieldValues [.needed "account", .needed "weight"] json with
    | some [account, weight] => do return ⟨← required account, ← required weight⟩
    | _ => none

instance : Wire AccountRoot where
  encode root :=
    .record
      [("account", encode root.account), ("balance", encode root.balance),
        ("owner_count", encode root.ownerCount), ("flags", encode root.flags),
        ("regular_key", encode root.regularKey), ("sequence", encode root.sequence)]
  decode json :=
    match fieldValues
      [.needed "account", .needed "balance", .needed "owner_count", .needed "flags",
        .needed "regular_key", .needed "sequence"] json with
    | some [account, balance, ownerCount, flags, regularKey, sequence] => do
      return {
        account := ← required account
        balance := ← required balance
        ownerCount := ← required ownerCount
        flags := ← required flags
        regularKey := ← optional regularKey none
        sequence := ← required sequence }
    | _ => none

instance : Wire DirectoryPage where
  encode page :=
    .record
      [("root_index", encode page.root), ("owner", encode page.owner),
        ("indexes", encode page.keys), ("index_next", encode page.next),
        ("index_previous", encode page.previous)]
  decode json :=
    match fieldValues
      [.needed "root_index", .needed "owner", .needed "indexes", .needed "index_next",
        .needed "index_previous"] json with
    | some [root, owner, keys, next, previous] => do
      return {
        root := ← required root
        owner := ← optional owner none
        keys := ← required keys
        next := ← required next
        previous := ← required previous }
    | _ => none

instance : Wire SignerList where
  encode list :=
    .record
      [("quorum", encode list.quorum), ("list_id", encode list.listId),
        ("entries", encode list.signers), ("accounting", encode list.accounting),
        ("owner_node", encode list.page)]
  decode json :=
    match fieldValues
      [.needed "quorum", .needed "list_id", .needed "entries", .needed "accounting",
        .needed "owner_node"] json with
    | some [quorum, listId, signers, accounting, page] => do
      return {
        quorum := ← required quorum
        listId := ← required listId
        signers := ← required signers
        accounting := ← required accounting
        page := ← required page }
    | _ => none

/-- The content of an entry, without its kind. -/
def encodeContent : Entry → Json
  | .accountRoot root => encode root
  | .directoryPage page => encode page
  | .signerList list => encode list

/-- The entry of a kind with the given content. -/
def decodeContent (kind : EntryKind) (content : Json) : Option Entry :=
  match kind with
  | .accountRoot => (decode content).map .accountRoot
  | .directoryPage => (decode content).map .directoryPage
  | .signerList => (decode content).map .signerList

instance : Wire Entry where
  encode entry := .record [(entry.kind.name, encodeContent entry)]
  decode json := do
    let (tag, content) ← tagged? json
    decodeContent (← decode (.ofString tag)) content

/-! ## Terms and configurations -/

instance : Wire Fees where
  encode fees :=
    .record
      [("base", encode fees.base), ("reserve", encode fees.reserve),
        ("increment", encode fees.increment)]
  decode json :=
    match fieldValues [.needed "base", .needed "reserve", .needed "increment"] json with
    | some [base, reserve, increment] => do
      return ⟨← required base, ← required reserve, ← required increment⟩
    | _ => none

instance : Wire Limits where
  encode limits :=
    .record
      [("max_entries_per_page", encode limits.keysPerPage), ("max_pages", encode limits.pages)]
  decode json :=
    match fieldValues [.needed "max_entries_per_page", .needed "max_pages"] json with
    | some [keysPerPage, pages] => do return ⟨← required keysPerPage, ← required pages⟩
    | _ => none

instance : Wire Rules where
  encode rules := .record [("enabled", encode rules.features)]
  decode json :=
    match fieldValues [.needed "enabled"] json with
    | some [features] => do return .ofFeatures (← required features)
    | _ => none

instance : Wire Config where
  encode config :=
    .record
      [("base_fee", encode config.baseFee), ("reserve_base", encode config.reserveBase),
        ("reserve_increment", encode config.reserveIncrement),
        ("features", encode config.features),
        ("max_entries_per_page", encode config.keysPerPage),
        ("max_pages", encode config.pages),
        ("halt_on_internal", encode config.haltOnInternal)]
  decode json :=
    match fieldValues
      [.needed "base_fee", .needed "reserve_base", .needed "reserve_increment",
        .needed "features", .needed "max_entries_per_page", .needed "max_pages",
        .needed "halt_on_internal"] json with
    | some [baseFee, reserveBase, reserveIncrement, features, keysPerPage, pages, haltOnInternal] =>
      do
      return {
        baseFee := ← required baseFee
        reserveBase := ← required reserveBase
        reserveIncrement := ← required reserveIncrement
        features := ← required features
        keysPerPage := ← required keysPerPage
        pages := ← required pages
        haltOnInternal := ← required haltOnInternal }
    | _ => none

end Cosign.Wire
