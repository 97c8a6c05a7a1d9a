/-
# Table definitions

A schema is a sequence of columns with different names, each of which knows its
own position.  Columns are added one by one: a new name goes to the end, and a
name that is there already takes over the place of the earlier column, with the
number of columns at that moment as its position.  A schema made from checked
declarations never sees the second case.

A definition is a schema with the table's name and the nominal size of a
record, which is computed when the table is made and from then on read from its
header.
-/

import FlatDB.Json.Value
import FlatDB.Schema.ColumnType
import FlatDB.Schema.Identifier

namespace FlatDB

/-- What is declared of a column. -/
structure Declaration where
  /-- The name of the column. -/
  name : String
  /-- What the column holds. -/
  type : ColumnType
  /-- Whether the column is declared to admit nothing as a value. -/
  nullable : Bool
  deriving DecidableEq, Repr

/-- A column of a table. -/
structure Column extends Declaration where
  /-- The place of the column's value in a record. -/
  position : Nat
  deriving DecidableEq, Repr

/-- The columns of a table, in order. -/
structure Schema where
  /-- The columns. -/
  columns : List Column
  deriving DecidableEq, Repr

namespace Schema

/-- The schema without columns. -/
def empty : Schema := ⟨[]⟩

/-- The column with a name. -/
def column? (s : Schema) (name : String) : Option Column :=
  s.columns.find? fun c => c.name == name

/-- Whether there is a column with a name. -/
def hasColumn (s : Schema) (name : String) : Bool :=
  s.columns.any fun c => c.name == name

/-- The place of a column in the order of columns. -/
def index? (s : Schema) (name : String) : Option Nat :=
  s.columns.findIdx? fun c => c.name == name

/-- The number of columns. -/
def arity (s : Schema) : Nat :=
  s.columns.length

/-- The names of the columns, in order. -/
def columnNames (s : Schema) : List String :=
  s.columns.map fun c => c.name

/-- The nominal size of a record in bytes, counted in a machine word. -/
def recordSize (s : Schema) : Nat :=
  s.columns.foldr (fun c size => c.type.width + size) 0 % UInt64.size

/-- Add a column. -/
def add (s : Schema) (d : Declaration) : Schema :=
  let column : Column := { d with position := s.arity }
  if s.hasColumn d.name then
    ⟨s.columns.map fun c => if c.name = d.name then column else c⟩
  else ⟨s.columns ++ [column]⟩

/-- Add declared columns one by one, whatever their names. -/
def ofDeclarations (ds : List Declaration) : Schema :=
  ds.foldl add empty

/-- Add a declared column if its name is an identifier and new. -/
def addChecked (table : String) (s : Schema) (d : Declaration) : Except Error Schema := do
  Identifier.check d.name
  if s.hasColumn d.name then throw (.duplicateColumn table d.name)
  return s.add d

/-- The schema of declared columns, of which there must be one at least, with
names that are identifiers and all different. -/
def ofDeclarations? (table : String) (ds : List Declaration) : Except Error Schema :=
  if ds.isEmpty then .error (.noColumns table)
  else ds.foldlM (addChecked table) empty

end Schema

/-- The definition of a table. -/
structure Definition where
  /-- The name of the table. -/
  name : String
  /-- Its columns. -/
  schema : Schema
  /-- The nominal size of a record in bytes. -/
  recordSize : Nat
  deriving DecidableEq, Repr

namespace Definition

/-- The definition of a new table. -/
def ofSchema (name : String) (schema : Schema) : Definition :=
  ⟨name, schema, schema.recordSize⟩

/-- The column with a name, which must exist. -/
def column (d : Definition) (name : String) : Except Error Column :=
  match d.schema.column? name with
  | some column => .ok column
  | none => .error (.columnNotFound d.name name)

end Definition

/-! ## Definitions as documents -/

/-- The type as a document. -/
def ColumnType.toJson : ColumnType → Json
  | .int => .string "Int"
  | .char bound => .object [("Char", .number bound)]
  | .date => .string "Date"

/-- The column as a document. -/
def Column.toJson (c : Column) : Json :=
  .object [("name", .string c.name), ("data_type", c.type.toJson),
    ("position", .number c.position), ("nullable", .bool c.nullable)]

/-- The definition as a document. -/
def Definition.toJson (d : Definition) : Json :=
  .object [("name", .string d.name),
    ("schema", .object [("columns", .object (d.schema.columns.map fun c => (c.name, c.toJson)))]),
    ("record_size", .number d.recordSize)]

end FlatDB
