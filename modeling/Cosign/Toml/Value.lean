-- SUMMARY: TOML values and tables, and how the entries of nested tables are filled in.

/-!
# TOML values

A table remembers how it came about, because that decides whether it may be
extended: a table that only had to exist for the sake of another header may
still get a header of its own, one that a dotted key brought about may be
extended by dotted keys alone, and anything else is closed. An inline table is
closed by its braces.
-/

namespace Cosign.Toml

/-- How a table came about. -/
inductive Origin where
  /-- It has its own header, or is the document itself. -/
  | header
  /-- The header of a table inside it implies it. -/
  | implied
  /-- A dotted key implies it. -/
  | dotted
deriving DecidableEq

inductive Value where
  | string (text : String)
  | integer (value : Int)
  | float
  | boolean (value : Bool)
  | dateTime
  | array (items : List Value)
  | inline (entries : List (String × Value))
  | table (origin : Origin) (entries : List (String × Value))
  /-- A sequence of tables with a header each. -/
  | tables (elements : List (List (String × Value)))

/-- Names and values, each name once. -/
abbrev Table := List (String × Value)

namespace Table

/-- The table with the value of one name changed, given what it was.

A failure of `change` fails the whole. -/
def alter? (name : String) (change : Option Value → Option Value) : Table → Option Table
  | [] => do return [(name, ← change none)]
  | (known, value) :: rest =>
    if known = name then do return (known, ← change (some value)) :: rest
    else do return (known, value) :: (← alter? name change rest)

/-- The table with the one at the end of a path changed, given how that one came about.

Tables that are missing on the way come about as `missing`. Of a sequence of
tables the last one is meant. Dotted keys lead into no table that has a header. -/
def within? (missing : Origin) (change : Origin → Table → Option Table) :
    (path : List String) → Origin → Table → Option Table
  | [], origin, table => change origin table
  | name :: path, _, table =>
    table.alter? name fun known =>
      match known with
      | none => (within? missing change path missing []).map (.table missing)
      | some (.table origin entries) =>
        if missing = .dotted ∧ origin = .header then none
        else (within? missing change path origin entries).map (.table origin)
      | some (.tables elements) =>
        match elements.getLast? with
        | some last => do
          let last ← within? missing change path .header last
          return .tables (elements.dropLast ++ [last])
        | none => none
      | some _ => none

/-- The table with a value under a dotted key that is not taken yet. -/
def assign? (path : List String) (name : String) (value : Value) (table : Table) : Option Table :=
  within? .dotted (change path.isEmpty) path .header table
where
  /-- A key without dots goes to a table in its own right, one with dots to a table made by dots. -/
  change (plain : Bool) (origin : Origin) (table : Table) : Option Table :=
    if plain = (origin == .dotted) ∨ (table.lookup name).isSome then none
    else some (table ++ [(name, value)])

end Table

end Cosign.Toml
