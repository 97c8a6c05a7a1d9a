/-
# Tables

An open table is its definition together with its records and its indexes.  A
new table is assembled where nobody looks for it and then moved into place, so
the directory of a table never exists without its header and its records.

Every change of records is written to the data file first and followed by the
indexes.
-/

import FlatDB.Schema.Header
import FlatDB.Table.Indexes

namespace FlatDB

/-- An open table. -/
structure Table where
  /-- The definition. -/
  definition : Definition
  /-- Where the table is kept. -/
  layout : Layout
  /-- The records. -/
  records : RecordFile
  /-- The indexes. -/
  indexes : TableIndexes
  deriving DecidableEq

namespace Table

/-- The name of the table. -/
def name (t : Table) : String :=
  t.definition.name

/-- The columns of the table. -/
def schema (t : Table) : Schema :=
  t.definition.schema

/-! ## Opening, making and dropping -/

/-- Read the header of a table. -/
def readHeader (layout : Layout) (name : String) : Action Definition := do
  match ← Action.ask (.read layout.header) with
  | .ok source => Action.ofResult (Header.parse name source.lines)
  | .error fault => throw (.unreadableHeader name (.unreachable fault))

/-- Open a table. -/
def load (root : Path) (name : String) (sync : Bool) : Action Table := do
  Action.ofResult (Identifier.check name)
  let layout := Layout.ofTable root name
  if (← Action.kind layout.directory) ≠ some .directory then throw (.tableNotFound name)
  let definition ← readHeader layout name
  let records ←
    RecordFile.load name layout.data layout.counter definition.schema.arity sync
  let indexes ← TableIndexes.load definition layout records sync
  return ⟨definition, layout, records, indexes⟩

/-- Write the header of a table. -/
def writeHeader (path : Path) (d : Definition) : Action Unit := do
  Action.fill (← Action.create path) (Utf8.encode (Header.ofDef d)) false

/-- Make everything that belongs to a new table. -/
def assemble (layout : Layout) (d : Definition) (sync : Bool) : Action Unit := do
  Action.makeDirectories layout.indexes
  writeHeader layout.header d
  let _ ← RecordFile.create d.name layout.data layout.counter d.schema.arity sync

/-- Make a table and open it. -/
def create (root : Path) (d : Definition) (sync : Bool) : Action Table := do
  Action.ofResult (Identifier.check d.name)
  if (← Action.kind root) ≠ some .directory then throw (.storage (.missingRoot root.text))
  let layout := Layout.ofTable root d.name
  if (← Action.kind layout.directory).isSome then throw (.tableExists d.name)
  let staging := Layout.staging root d.name
  if (← Action.kind staging).isSome then Action.removeTree staging
  let assembled : Action Unit := do
    assemble ⟨staging⟩ d sync
    Action.rename staging layout.directory
  assembled.orElse (Action.removeTree staging)
  load root d.name sync

/-- Remove a table with all its files. -/
def drop (t : Table) : Action Unit := do
  Action.removeTree t.layout.directory
  if (← Action.kind t.layout.directory).isSome then
    throw (.storage (.stillThere t.layout.directory.text))

/-! ## Reading -/

/-- The number of records. -/
def size (t : Table) : Action Nat :=
  t.records.size

/-- The entries of the data file. -/
def scan (t : Table) : Action (List (Except Error Stored)) :=
  t.records.scan

/-- The ids of all records. -/
def ids (t : Table) : Action IdSet := do
  return (← t.records.records).foldl (fun ids s => ids.insert s.1) ∅

/-- The index of a column. -/
def index? (t : Table) (column : String) : Option Index :=
  t.indexes.get? column

/-- The records that the index of a column has under a key; nothing if the
column has no index. -/
def lookup (t : Table) (column : String) (key : Int32) : Action (Option (List Stored)) := do
  match t.index? column with
  | none => return none
  | some index =>
    match index.lookup? key with
    | none => return some []
    | some ids => return some (← t.records.fetch ids)

/-! ## Writing -/

/-- An update of the records alone. -/
def onRecords {α : Type} (u : Update RecordFile α) : Update Table α :=
  u.onPart Table.records fun records t => { t with records }

/-- An update of the indexes alone. -/
def onIndexes {α : Type} (u : Update TableIndexes α) : Update Table α :=
  u.onPart Table.indexes fun indexes t => { t with indexes }

/-- Make an index of a column. -/
def createIndex (column : String) : Update Table Unit := do
  let t ← get
  onIndexes (TableIndexes.create t.definition column t.records)

/-- Add a record, which must have a field for every column. -/
def insert (record : Record) : Update Table RecordId := do
  let id ← onRecords (RecordFile.append record)
  onIndexes (TableIndexes.onInsert (id, record))
  return id

/-- Set a column of every accepted record and count these records. -/
def updateWhere (accepts : Record → Bool) (column value : String) : Update Table Nat := do
  let t ← get
  let c ← Action.ofResult (t.definition.column column)
  let changes ← t.records.updateWhere accepts c.position value
  onIndexes (TableIndexes.onUpdate column changes)
  return changes.length

/-- Remove every accepted record and count these records. -/
def deleteWhere (accepts : Record → Bool) : Update Table Nat := do
  let t ← get
  let removed ← t.records.deleteWhere accepts
  onIndexes (TableIndexes.onDelete removed)
  return removed.length

/-- Remove all records and count them. -/
def deleteAll : Update Table Nat := do
  let t ← get
  let count ← t.size
  t.records.truncate
  onIndexes TableIndexes.clear
  return count

end Table

end FlatDB
