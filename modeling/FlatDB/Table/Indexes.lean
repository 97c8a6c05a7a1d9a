/-
# The indexes of a table

A table has any number of indexes, in the order they were made.  Each is kept in
a file of its own, and a list names the indexed columns.  The list is what
counts: an index whose file is missing, unreadable or about another column is
made anew from the records and written back.

After records have changed, the indexes in memory are brought up to date first
and written afterwards.  An index that cannot be written has its file removed,
so that the next opening makes it anew and does not trust what is outdated.
-/

import FlatDB.Index.Document
import FlatDB.Record.File
import FlatDB.Schema.Definition
import FlatDB.Table.Layout

namespace FlatDB

/-- The indexes of one table. -/
structure TableIndexes where
  /-- The table, for messages. -/
  table : String
  /-- Where the indexes are kept. -/
  layout : Layout
  /-- The indexes, in the order they were made. -/
  indexes : List Index
  /-- Whether what is written must have reached the medium. -/
  sync : Bool
  deriving DecidableEq

namespace TableIndexes

/-- A table without indexes. -/
def empty (table : String) (layout : Layout) (sync : Bool) : TableIndexes :=
  ⟨table, layout, [], sync⟩

/-- The index of a column. -/
def get? (t : TableIndexes) (column : String) : Option Index :=
  t.indexes.find? fun i => i.column == column

/-! ## Files -/

/-- Write the file of an index. -/
def writeIndex (t : TableIndexes) (i : Index) : Action Unit :=
  Replacement.replace (t.layout.index i.column) (Utf8.encode i.text) t.sync

/-- Write the file of an index, or see to it that there is none. -/
def persist (t : TableIndexes) (i : Index) : Action Unit :=
  (t.writeIndex i).orElse (Action.remove (t.layout.index i.column))

/-- Write the files of all indexes, up to the first that cannot be written. -/
def persistAll (t : TableIndexes) : Action Unit :=
  t.indexes.forM t.persist

/-- Read the file of an index, if it has one that describes it. -/
def readIndex? (t : TableIndexes) (column : String) (position : Nat) : Action (Option Index) := do
  match ← Action.ask (.read (t.layout.index column)) with
  | .ok (.content bytes) =>
    return (Index.ofBytes? position bytes).filter fun i => i.column == column
  | _ => return none

/-- The list of indexed columns as text, one on each line. -/
def listText (columns : List String) : String :=
  String.join (columns.map (· ++ "\n"))

/-- The columns named in a list.  Blanks around a name and empty lines count for
nothing. -/
def listOfText (text : String) : List String :=
  ((Split.pieces '\n' text.toList).map fun line => Blank.trim (String.ofList line)).filter
    fun name => !name.isEmpty

/-- Read the list of indexed columns; a list that is missing is empty. -/
def readList (t : TableIndexes) : Action (List String) := do
  match ← Action.ask (.read t.layout.indexList) with
  | .ok source => return listOfText (← Action.ofReply source.text)
  | .error .notFound => return []
  | .error fault => throw (.storage fault)

/-- Write the list of indexed columns. -/
def writeList (t : TableIndexes) (columns : List String) : Action Unit :=
  Replacement.replace t.layout.indexList (Utf8.encode (listText columns)) t.sync

/-- Make the index of a column from the records. -/
def build (t : TableIndexes) (column : Column) (records : RecordFile) : Action Index := do
  Action.ofResult (Index.build t.table column.name column.position (← records.scan))

/-! ## Opening -/

/-- Read the index of a listed column, or make it anew. -/
def loadIndex (d : Definition) (records : RecordFile) (t : TableIndexes) (name : String) :
    Action TableIndexes := do
  match d.schema.column? name with
  | none => throw (.damagedIndex d.name name .unknownColumn)
  | some column =>
    match ← t.readIndex? name column.position with
    | some index => return { t with indexes := t.indexes ++ [index] }
    | none =>
      let index ← t.build column records
      t.writeIndex index
      return { t with indexes := t.indexes ++ [index] }

/-- Open the indexes of a table. -/
def load (d : Definition) (layout : Layout) (records : RecordFile) (sync : Bool) :
    Action TableIndexes := do
  let t := empty d.name layout sync
  (← t.readList).foldlM (loadIndex d records) t

/-! ## Making an index -/

/-- Whether a column may be given an index. -/
def indexable (d : Definition) (t : TableIndexes) (name : String) : Except Error Column := do
  let column ← d.column name
  if (t.get? name).isSome then throw (.indexExists t.table name)
  if column.type ≠ .int then throw (.notIndexable t.table name)
  return column

/-- Make an index of a column and put it on the list. -/
def create (d : Definition) (name : String) (records : RecordFile) : Update TableIndexes Unit := do
  let t ← get
  let column ← Action.ofResult (indexable d t name)
  let index ← t.build column records
  t.writeIndex index
  t.writeList (t.indexes.map Index.column ++ [name])
  set { t with indexes := t.indexes ++ [index] }

/-! ## Keeping up with the records -/

/-- Enter a record into indexes one after the other, up to the first it does not
fit into. -/
def enter (table : String) (s : Stored) : List Index → Except Error Unit × List Index
  | [] => (.ok (), [])
  | i :: rest =>
    match i.insertRecord table s with
    | .error e => (.error e, i :: rest)
    | .ok i' =>
      let (result, rest') := enter table s rest
      (result, i' :: rest')

/-- Enter a new record into all indexes. -/
def onInsert (s : Stored) : Update TableIndexes Unit := do
  let t ← get
  if t.indexes.isEmpty then return ()
  let (result, indexes) := enter t.table s t.indexes
  let t := { t with indexes }
  set t
  Action.ofResult result
  t.persistAll

/-- Move one id according to a change, and note whether its key has changed. -/
def follow (table column : String) (state : Index × Bool) (c : FieldChange) :
    Except Error (Index × Bool) := do
  let old ← Index.parseKey table column c.old
  let new ← Index.parseKey table column c.new
  return (state.1.relocate old new c.id, state.2 || old != new)

/-- Follow the changes of a column.  Nothing is written unless a key changed. -/
def onUpdate (column : String) (changes : List FieldChange) : Update TableIndexes Unit := do
  let t ← get
  match t.indexes.findIdx? (fun i => i.column == column), t.get? column with
  | some place, some index =>
    let (next, changed) ← Action.ofResult (changes.foldlM (follow t.table column) (index, false))
    if changed then
      let t := { t with indexes := t.indexes.set place next }
      set t
      t.persist next
  | _, _ => return ()

/-- Take one record out of all indexes. -/
def leave (table : String) (indexes : List Index) (s : Stored) : Except Error (List Index) :=
  indexes.mapM fun i => i.eraseRecord table s

/-- Take removed records out of all indexes. -/
def onDelete (removed : List Stored) : Update TableIndexes Unit := do
  let t ← get
  if t.indexes.isEmpty then return ()
  let indexes ← Action.ofResult (removed.foldlM (leave t.table) t.indexes)
  let t := { t with indexes }
  set t
  t.persistAll

/-- Take all records out of all indexes. -/
def clear : Update TableIndexes Unit := do
  let t ← get
  let t := { t with indexes := t.indexes.map Index.clear }
  set t
  t.persistAll

end TableIndexes

end FlatDB
