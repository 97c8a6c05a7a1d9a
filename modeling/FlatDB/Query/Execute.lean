/-
# Executing statements

Every statement is checked completely before anything is written, so a statement
that is refused leaves all files and all records as they were.  A selection by
equality on an indexed column is answered from the index; any other reads the
whole table.
-/

import FlatDB.Query.Answer
import FlatDB.Query.Predicate
import FlatDB.Query.Projection
import FlatDB.Session

namespace FlatDB

namespace Statement

/-! ## Rows -/

/-- The texts to be stored for the values of a new row. -/
def storedRow (table : String) : List Column → List Expr → Except Error (List String)
  | column :: columns, value :: values => do
    return (← column.storedValue table value) :: (← storedRow table columns values)
  | _, _ => .ok []

/-- Check a new row against the definition of its table.  If columns are listed
they must be those of the table, in order. -/
def recordOf (d : Definition) (columns : Option (List String)) (values : List Expr) :
    Except Error Record := do
  if columns.any fun names => names ≠ d.schema.columnNames then
    throw (.unsupported .columnList)
  let expected := d.schema.arity
  let found := values.length
  if found < expected then throw (.missingValues d.name expected found)
  if expected < found then throw (.tooManyValues d.name expected found)
  return ⟨← storedRow d.name d.schema.columns values⟩

/-- Add a row to a table. -/
def insertInto (columns : Option (List String)) (values : List Expr) : Update Table Answer := do
  let t ← get
  let record ← Action.ofResult (recordOf t.definition columns values)
  let _ ← Table.insert record
  return .ofCount 1 "1 row inserted"

/-- Select rows of a table. -/
def selectFrom (t : Table) (items : List SelectItem) (filter : Option Expr) : Action Answer := do
  let predicate ← Action.ofResult (Predicate.ofFilter t.definition filter)
  let columns ← Action.ofResult (Projection.ofList t.definition items)
  let answer (stored : List Stored) : Answer :=
    .ofRows (columns.map Projected.header) (stored.map fun s => Projection.row columns s.2)
  let found ←
    match predicate with
    | none => pure none
    | some p =>
      match p.key? with
      | none => pure none
      | some key => t.lookup p.column key
  match found with
  | some stored => return { answer stored with usedIndex := true }
  | none =>
    let stored ← t.records.records
    return answer (stored.filter fun s => Predicate.acceptedBy predicate s.2)

/-- Check an assignment against the definition of its table. -/
def assignmentOf (d : Definition) : List Assignment → Except Error (Column × String)
  | [assignment] => do
    let column ← d.column assignment.column
    match assignment.value with
    | .literal value =>
      if column.admitsKind value then return (column, ← column.storedText d.name value)
      else throw (.assignmentMismatch d.name column.name)
    | _ => throw (.assignmentMismatch d.name column.name)
  | assignments => .error (.unsupported (.assignments assignments.length))

/-- Change rows of a table. -/
def updateRows (assignments : List Assignment) (filter : Option Expr) : Update Table Answer := do
  let t ← get
  let (column, value) ← Action.ofResult (assignmentOf t.definition assignments)
  let predicate ← Action.ofResult (Predicate.ofFilter t.definition filter)
  let count ← Table.updateWhere (Predicate.acceptedBy predicate) column.name value
  return .ofCount count (Numeral.ofNat count ++ " row(s) updated")

/-- Remove rows of a table. -/
def deleteRows (filter : Option Expr) : Update Table Answer := do
  let t ← get
  let count ←
    match ← Action.ofResult (Predicate.ofFilter t.definition filter) with
    | some predicate => Table.deleteWhere predicate.accepts
    | none => Table.deleteAll
  return .ofCount count (Numeral.ofNat count ++ " row(s) deleted")

/-! ## Tables -/

/-- Make a table. -/
def makeTable (name : String) (columns : List Declaration) : Update Session Answer := do
  Action.ofResult (Identifier.check name)
  let schema ← Action.ofResult (Schema.ofDeclarations? name columns)
  let _ ← Session.createTable (.ofSchema name schema)
  return .ofMessage ("Table '" ++ name ++ "' created")

/-- Make an index of a table. -/
def makeIndex (table index : String) : List String → Update Table Answer
  | [column] => do
    Table.createIndex column
    return .ofMessage ("Index '" ++ index ++ "' created on " ++ table ++ "(" ++ column ++ ")")
  | columns => throw (.unsupported (.indexColumns columns.length))

/-- The word for a flag. -/
def yesNo (flag : Bool) : String :=
  if flag then "YES" else "NO"

/-- What there is to say about the columns of a table. -/
def describeTable (t : Table) : Answer :=
  .ofRows ["Field", "Type", "Null", "Index"]
    (t.schema.columns.map fun c =>
      [c.name, c.type.name, yesNo c.nullable, yesNo (t.index? c.name).isSome])

/-! ## All statements -/

/-- Execute a statement. -/
def execute : Statement → Update Session Answer
  | .createTable table columns => makeTable table columns
  | .insert table columns values => Session.onTable table (insertInto columns values)
  | .select table items filter => do selectFrom (← Session.openTable table) items filter
  | .update table assignments filter => Session.onTable table (updateRows assignments filter)
  | .delete table filter => Session.onTable table (deleteRows filter)
  | .createIndex table index columns => Session.onTable table (makeIndex table index columns)
  | .dropTable table => do
    Session.dropTable table
    return .ofMessage ("Table '" ++ table ++ "' dropped")
  | .describe table => do return describeTable (← Session.openTable table)
  | .showTables => do
    let names ← (← get).tableNames
    return .ofRows ["Tables"] (names.map ([·]))

end Statement

end FlatDB
