-- SUMMARY: Reading a TOML document into one table.
import Cosign.Toml.Section

/-!
# Documents

The sections of a document are filled into one table in turn. A header may name
a table that is missing or only implied so far; a header of an element needs a
sequence of tables or nothing.
-/

namespace Cosign.Toml

/-- A table with assignments carried out in turn. -/
def Table.fill? (table : Table) (assignments : List Assignment) : Option Table :=
  assignments.foldlM (fun table a => table.assign? a.path a.name a.value) table

/-- What a header makes of the value that was there under its name. -/
def Section.open? (assignments : List Assignment) (element : Bool) : Option Value → Option Value
  | none => do
    let table ← Table.fill? [] assignments
    return if element then .tables [table] else .table .header table
  | some (.table .implied entries) =>
    if element then none else (Table.fill? entries assignments).map (.table .header)
  | some (.tables elements) =>
    if element then do return .tables (elements ++ [← Table.fill? [] assignments]) else none
  | some _ => none

/-- A document with one more section. -/
def Section.addTo? (s : Section) (document : Table) : Option Table :=
  match s.header with
  | .document => document.fill? s.assignments
  | .table path name =>
    document.within? .implied (fun _ table => table.alter? name (open? s.assignments false)) path
      .header
  | .element path name =>
    document.within? .implied (fun _ table => table.alter? name (open? s.assignments true)) path
      .header

/-- The table that a text describes. -/
def parse (text : String) : Option Table := do
  (← sections? text.toList).foldlM (fun document s => s.addTo? document) []

end Cosign.Toml
