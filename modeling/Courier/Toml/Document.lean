/-
# Courier.Toml.Document -- settings files as tables

The statements of a file are carried out one after the other. A header opens a table, once: it may take
over a table that only the headers of tables below it have implied, and nothing else. A doubled
header adds a table to those of its name. An assignment goes to the table that is open.
-/
import Courier.Text.Utf8
import Courier.Toml.Reader

namespace Courier.Toml

/-- The tables read so far. -/
structure Document where
  entries : Entries := []
  /-- The table that assignments go to. -/
  opened : Key := []

namespace Document

/-- Opens a table by changing the one that holds it. -/
def openAt (d : Document) (k : Key) (change : String → Entries → Option Entries) : Option Document := do
  let name ← k.getLast?
  let entries ← d.entries.descend .implied (fun _ => change name) k.dropLast .header
  some { entries, opened := k }

/-- Makes or takes over a table that has a header of its own. -/
def openTable (name : String) (es : Entries) : Option Entries :=
  match es.get? name with
  | none => some (es.put name (.table .header []))
  | some (.table .implied inner) => some (es.put name (.table .header inner))
  | some _ => none

/-- Adds a table to those of one name. -/
def openElement (name : String) (es : Entries) : Option Entries :=
  match es.get? name with
  | none => some (es.put name (.tables [[]]))
  | some (.tables elements) => some (es.put name (.tables (elements ++ [[]])))
  | some _ => none

def apply (d : Document) : Statement → Option Document
  | .header k => d.openAt k openTable
  | .element k => d.openAt k openElement
  | .assignment k v => do
    let entries ← d.entries.descend .implied (fun _ es => es.assign k v) d.opened .header
    some { d with entries }

def ofStatements? (sts : List Statement) : Option Document :=
  sts.foldlM apply {}

end Document

/-- The entries of the table that a text is. A byte order mark may stand in front. -/
def parse? (text : String) : Option Entries := do
  let s :=
    match text.toList with
    | '\ufeff' :: rest => rest
    | s => s
  let d ← Document.ofStatements? (← statements (s.length + 1) s)
  some d.entries

end Courier.Toml
