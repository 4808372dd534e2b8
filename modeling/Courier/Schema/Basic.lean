/-
# Courier.Schema.Basic -- tables that a program expects in its database

A schema version lists the tables that a database of that version has. A table can be created from
its definition, statement by statement, and a database that is already there can be compared with it
through its catalogue. Statements are not grouped: what was carried out before a refusal stays.
-/
import Courier.Catalogue.Basic
import Courier.Text.Quoted

namespace Courier.Schema

/-! ## Definitions -/

inductive ColumnType where
  | text
  | integer
  | blob
deriving DecidableEq, Repr

namespace ColumnType

def all : List ColumnType := [.text, .integer, .blob]

def name : ColumnType → String
  | .text => "TEXT"
  | .integer => "INTEGER"
  | .blob => "BLOB"

def ofName? (s : String) : Option ColumnType :=
  all.find? fun t => t.name == s

theorem ofName?_name (t : ColumnType) : ofName? t.name = some t := by
  cases t <;> decide

end ColumnType

structure Column where
  name : String
  type : ColumnType
  isKey : Bool := false
  required : Bool := false
  default? : Option String := none
deriving DecidableEq, Repr

structure Table where
  name : String
  columns : List Column
  /-- Names of indices and the columns of each. -/
  indices : List (String × String) := []
deriving DecidableEq, Repr

/-! ## Failures -/

/-- Why a database cannot be used. -/
inductive Error where
  | noVersions
  /-- The file is no database. -/
  | unreadableVersion
  | foreignVersion (raw : Int)
  | tooNew (version supported : Nat)
  | tableRefused (table : String)
  | unreadableColumns (table : String)
  | columnCount (table : String) (found expected : Nat)
  | columnName (table : String) (expected found : String)
  | columnShape (table column : String)
  | columnDefault (table column : String) (expected found : Option String)
  | missingIndex (table index : String)
  /-- A failure for which the database has its own words. -/
  | database
deriving DecidableEq, Repr

/-- Version numbers of a program start here, so that a new database, whose number is zero, differs
from one at version zero. -/
def base : Nat := 77000

def Error.message? : Error → Option String
  | .noVersions => some "No schemas defined"
  | .unreadableVersion => some "Failed to read database version"
  | .foreignVersion raw =>
    some ("Database version " ++ toString raw ++ " does not contain base db version " ++
      toString base)
  | .tooNew version supported =>
    some ("Database version " ++ toString version ++ " is too new (max supported: " ++
      toString supported ++ ")")
  | .tableRefused table => some ("Failed to create table " ++ table)
  | .unreadableColumns table => some ("Failed to read columns of table " ++ table)
  | .columnCount table found expected =>
    some ("Table " ++ table ++ " has " ++ toString found ++ " columns, expected " ++
      toString expected)
  | .columnName table expected found =>
    some ("Table " ++ table ++ " column name mismatch: expected " ++ expected ++ ", got " ++ found)
  | .columnShape table column =>
    some ("Table " ++ table ++ " column " ++ column ++
      " definition does not match the expected schema")
  | .columnDefault table column expected found =>
    some ("Table " ++ table ++ " column " ++ column ++ " default value mismatch: expected " ++
      Text.quotedOption expected ++ ", got " ++ Text.quotedOption found)
  | .missingIndex table index => some ("Table " ++ table ++ " is missing index '" ++ index ++ "'")
  | .database => none

/-! ## Steps on a catalogue -/

/-- Something done to a database: whether it failed, and the catalogue afterwards. -/
abbrev Step := Catalogue → Except Error Unit × Catalogue

/-- A statement: carried out, or refused without effect. -/
def Step.statement (f : Catalogue → Option Catalogue) (e : Error) : Step := fun c =>
  match f c with
  | some c => (.ok (), c)
  | none => (.error e, c)

/-- Steps one after the other, up to the first failure. -/
def Step.inTurn : List Step → Step
  | [], c => (.ok (), c)
  | step :: rest, c =>
    match step c with
    | (.ok (), c) => Step.inTurn rest c
    | (.error e, c) => (.error e, c)

/-! ## Versions -/

structure Version where
  number : Nat
  tables : List Table
  /-- Brings a database of the version before to this one, by whatever it takes; none if nothing is to be
  done. -/
  migration : Option Step := none

/-! ## Creation -/

def Column.declaration (col : Column) : Catalogue.ColumnDeclaration where
  name := col.name
  type := col.type.name
  isKey := col.isKey
  required := col.required
  default? := col.default?

def Table.declaration (t : Table) : Catalogue.TableDeclaration where
  name := t.name
  columns := t.columns.map Column.declaration

/-- Creates a table, then its indices. -/
def Table.create (t : Table) : Step :=
  .inTurn (
    .statement (·.createTable? t.declaration) (.tableRefused t.name) ::
    t.indices.map fun (name, terms) => .statement (·.createIndex? name t.name terms) .database)

/-- Writes a version number into the database. -/
def setVersion (number : Nat) : Step :=
  .statement (·.setVersion? (base + number)) .database

/-- Creates every table and sets the version number last. -/
def Version.create (v : Version) : Step :=
  .inTurn (v.tables.map Table.create ++ [setVersion v.number])

/-! ## Comparison -/

/-- A text without one pair of parentheses around it. -/
def unwrapped (s : String) : String :=
  String.ofList (Catalogue.Default.unwrapped s.toList)

/-- Is the reported column the defined one? Only the place of the key column says that it is the
key. -/
def Column.check (table : String) (found : Catalogue.Column) (type : ColumnType)
    (expected : Column) : Except Error Unit :=
  if found.name ≠ expected.name then .error (.columnName table expected.name found.name)
  else if type ≠ expected.type ∨ found.required ≠ expected.required ∨
      decide (found.keyPosition = 1) ≠ expected.isKey then
    .error (.columnShape table expected.name)
  else if found.default?.map unwrapped ≠ expected.default?.map unwrapped then
    .error (.columnDefault table expected.name expected.default? found.default?)
  else .ok ()

/-- Compares columns in pairs; a longer list may go on. -/
def checkColumns (table : String) :
    List (Catalogue.Column × ColumnType) → List Column → Except Error Unit
  | (found, type) :: rest, expected :: more => do
    expected.check table found type
    checkColumns table rest more
  | _, _ => .ok ()

/-- The first of some indices that the database does not have must be named. -/
def checkIndices (c : Catalogue) (table : String) : List (String × String) → Except Error Unit
  | [] => .ok ()
  | (name, _) :: rest =>
    if c.hasIndex name table then checkIndices c table rest else .error (.missingIndex table name)

/-- The reported columns together with their types, which have to be known ones. -/
def typedColumns? (columns : List Catalogue.Column) : Option (List (Catalogue.Column × ColumnType)) :=
  columns.mapM fun col => (ColumnType.ofName? col.type).map fun type => (col, type)

/-- Is the table in the database the defined one? -/
def Table.validate (c : Catalogue) (t : Table) : Except Error Unit :=
  if !Catalogue.isPlainName t.name then .error .database
  else
    match typedColumns? (c.columns t.name) with
    | none => .error (.unreadableColumns t.name)
    | some found =>
      if found.length ≠ t.columns.length then
        .error (.columnCount t.name found.length t.columns.length)
      else do
        checkColumns t.name found t.columns
        checkIndices c t.name t.indices

def validateAll (c : Catalogue) : List Table → Except Error Unit
  | [] => .ok ()
  | t :: rest => do
    t.validate c
    validateAll c rest

/-- Does the database have every table of the version? -/
def Version.validate (c : Catalogue) (v : Version) : Except Error Unit :=
  validateAll c v.tables

end Courier.Schema
