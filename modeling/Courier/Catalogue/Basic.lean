/-
# Courier.Catalogue.Basic -- what a database says about itself

A database keeps a catalogue of its tables, the columns of each, its indices, and one number that
programs use as a version. Tables and indices share their names, which are compared without regard to
case when something is created or described, but the catalogue keeps and reports them as they were
written. A statement that is refused changes nothing.

Somebody else may have made more of a database than the statements here can: views, which are asked for
like tables, and columns that are computed or otherwise hidden, which are not reported. A statement can
also be refused for what is not in the catalogue, because the database is locked or its disk is full:
`barred` says which ones are at the moment.
-/
import Courier.Catalogue.Default
import Courier.Decimal.Power

namespace Courier

/-- A column as the database reports it. -/
structure Catalogue.Column where
  name : String
  type : String
  required : Bool
  default? : Option String
  /-- The position in the primary key, from one; zero for a column outside it. -/
  keyPosition : Nat
  /-- The column is computed, say, and is not reported. -/
  isHidden : Bool := false
deriving DecidableEq, Repr

/-- A table, or a view, which is asked for in the same way. -/
structure Catalogue.Table where
  name : String
  columns : List Catalogue.Column
  isView : Bool := false
deriving DecidableEq, Repr

structure Catalogue.Index where
  name : String
  table : String
deriving DecidableEq, Repr

/-- A statement, by what it is about. -/
inductive Catalogue.Statement where
  | createTable (name : String)
  | createIndex (name : String)
  | setVersion (version : Nat)
deriving DecidableEq, Repr

/-- The catalogue of a database; a new one is empty and has version zero. -/
structure Catalogue where
  tables : List Catalogue.Table := []
  indices : List Catalogue.Index := []
  version : Int := 0
  /-- Statements that are refused whatever the catalogue says. -/
  barred : List Catalogue.Statement := []
  /-- Defaults that the database takes besides those whose form is checked here. -/
  moreDefaults : List String := []
deriving DecidableEq, Repr

namespace Catalogue

/-! ## Declarations -/

/-- A column as a statement declares it. -/
structure ColumnDeclaration where
  name : String
  type : String
  isKey : Bool := false
  required : Bool := false
  default? : Option String := none
deriving DecidableEq, Repr

/-- A table as a statement declares it. -/
structure TableDeclaration where
  name : String
  columns : List ColumnDeclaration
  /-- The columns of a primary key that is declared for the table as a whole. -/
  key : List String := []
deriving DecidableEq, Repr

/-- Can the text stand for a name without quotes? -/
def isPlainName (name : String) : Bool :=
  match name.toList with
  | [] => false
  | c :: rest => Default.isNameStart c && rest.all Default.isNameChar && Default.isName name

def sameName (a b : String) : Bool :=
  Default.folded a == Default.folded b

/-- Types that are reported in capitals, however they were written. -/
def standardTypes : List String := ["INT", "INTEGER", "TEXT", "BLOB", "REAL", "ANY"]

def reportedType (type : String) : String :=
  (standardTypes.find? fun t => sameName t type).getD type

/-! ## Queries -/

def table? (c : Catalogue) (name : String) : Option Table :=
  c.tables.find? fun t => sameName t.name name

/-- What is reported of a table: its columns, without the hidden ones. -/
def Table.reported (t : Table) : List Column :=
  t.columns.filter fun col => !col.isHidden

/-- The columns that are reported under a name; a missing table has none. -/
def columns (c : Catalogue) (name : String) : List Column :=
  match c.table? name with
  | some t => t.reported
  | none => []

/-- Is there an index of this name on this table? Here names are compared exactly. -/
def hasIndex (c : Catalogue) (name table : String) : Bool :=
  c.indices.any fun i => i.name == name && i.table == table

/-- Is the name in use? -/
def isTaken (c : Catalogue) (name : String) : Bool :=
  c.tables.any (fun t => sameName t.name name) || c.indices.any fun i => sameName i.name name

/-! ## Statements -/

/-- What will be reported of a default, unless it is refused. -/
def reportedDefault? (c : Catalogue) (text : String) : Option String :=
  if c.moreDefaults.contains text then some (Default.report text) else Default.reported? text

/-- The columns of a declared table as they will be reported, unless a default is refused. -/
def reportedColumns? (c : Catalogue) (d : TableDeclaration) : Option (List Column) :=
  d.columns.mapM fun col => do
    let default? ← match col.default? with
      | none => pure none
      | some text => (c.reportedDefault? text).map some
    let position := (d.key.findIdx? fun k => sameName k col.name).elim 0 (· + 1)
    return {
      name := col.name
      type := reportedType col.type
      required := col.required
      default?
      keyPosition := if col.isKey then 1 else position }

/-- Does a name occur twice? -/
def hasRepeat : List String → Bool
  | [] => false
  | name :: rest => rest.any (sameName name) || hasRepeat rest

/-- Names that the database keeps for itself. -/
def isReserved (name : String) : Bool := (Default.folded name).startsWith "sqlite_"

/-- Creates a table. Refused if the name is in use, reserved or no plain name, if there is no column, if
two columns share a name, if more than one primary key is declared, or if a default is refused. -/
def createTable? (c : Catalogue) (d : TableDeclaration) : Option Catalogue := do
  let names := d.columns.map ColumnDeclaration.name
  let keys := (d.columns.filter ColumnDeclaration.isKey).length + if d.key.isEmpty then 0 else 1
  guard (isPlainName d.name && !c.isTaken d.name && !isReserved d.name)
  guard (!c.barred.contains (.createTable d.name))
  guard (!names.isEmpty && names.all isPlainName && !hasRepeat names)
  guard (keys ≤ 1 && d.key.all fun k => names.any (sameName k))
  let columns ← c.reportedColumns? d
  return { c with tables := c.tables ++ [{ name := d.name, columns }] }

/-- The name of the column in one term of an index. -/
def indexedColumn? (term : List Char) : Option String :=
  match Default.tokens? term with
  | some [.word name] => some name
  | some [.word name, .word order] =>
    if ["asc", "desc"].contains (Default.folded order) then some name else none
  | _ => none

/-- Creates an index on some columns of a table, given as a list with commas. Refused if the name is in
use, reserved or no plain name, if the table is missing or a view, or if a term is no column of it. -/
def createIndex? (c : Catalogue) (name table terms : String) : Option Catalogue := do
  let t ← c.table? table
  guard (isPlainName name && isPlainName table && !c.isTaken name && !isReserved name)
  guard (!t.isView && !c.barred.contains (.createIndex name))
  let wanted ← (terms.toList.splitOn ',').mapM indexedColumn?
  guard (wanted.all fun w => t.columns.any fun col => sameName col.name w)
  return { c with indices := c.indices ++ [{ name, table := t.name }] }

/-- Makes a table and its indices, as far as the statements are not refused. -/
def declare (c : Catalogue) (d : TableDeclaration) (indices : List (String × String)) : Catalogue :=
  indices.foldl (fun c (name, terms) => (c.createIndex? name d.name terms).getD c)
    ((c.createTable? d).getD c)

/-- The greatest version number that fits. -/
def maxVersion : Nat := twoTo 31 - 1

/-- The catalogue with a version; a number that does not fit counts as zero. -/
def setVersion (c : Catalogue) (version : Nat) : Catalogue :=
  { c with version := if version ≤ maxVersion then (version : Int) else 0 }

/-- Writes the version. -/
def setVersion? (c : Catalogue) (version : Nat) : Option Catalogue :=
  if c.barred.contains (.setVersion version) then none else some (c.setVersion version)

end Catalogue

end Courier
