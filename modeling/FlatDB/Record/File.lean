/-
# The records of a table

A store keeps records in one data file, in the order they were added.  A new
record is written at the end; updates and deletions prepare the whole file anew
and put it in place at once, so that a failure on the way leaves the old records
as they were.

Ids come from a counter in a file of its own.  The counter is advanced before
the record is written: a failed addition can skip an id but never have one
handed out twice.  A lost counter is restored from the greatest id in the data
file.
-/

import FlatDB.Disk.Replacement
import FlatDB.Record.Entries
import FlatDB.Text.Blank

namespace FlatDB

/-- The storage of one table's records. -/
structure RecordFile where
  /-- The table, for messages. -/
  table : String
  /-- The data file. -/
  data : Path
  /-- The file of the counter. -/
  counter : Path
  /-- The number of fields of every record. -/
  arity : Nat
  /-- The last id handed out; the first one is 1. -/
  lastId : RecordId
  /-- Whether what is written must have reached the medium. -/
  sync : Bool
  deriving DecidableEq, Repr

namespace RecordFile

/-! ## Reading -/

/-- The entries of the data file, in storage order. -/
def scan (s : RecordFile) : Action (List (Except Error Stored)) := do
  return Entries.ofSource s.table s.arity (← Action.read s.data)

/-- All records, in storage order; there must be no damaged line. -/
def records (s : RecordFile) : Action (List Stored) := do
  Action.ofResult (Entries.all (← s.scan))

/-- The number of records, whether damaged or not. -/
def size (s : RecordFile) : Action Nat := do
  Action.ofResult (Entries.count (← Action.read s.data).lines)

/-- The records with the given ids, in storage order. -/
def fetch (s : RecordFile) (ids : IdSet) : Action (List Stored) := do
  if ids.isEmpty then return []
  let source ← Action.read s.data
  Action.ofResult (Entries.find s.table s.arity ids ids.size 1 source.lines)

/-! ## Making and opening -/

/-- Make a store without records. -/
def create (table : String) (data counter : Path) (arity : Nat) (sync : Bool) :
    Action RecordFile := do
  let _ ← Action.create data
  Replacement.replace counter (Utf8.encode "0") sync
  return ⟨table, data, counter, arity, 0, sync⟩

/-- The counter in a file, which may have blanks around it. -/
def counterOfText (table text : String) : Except Error RecordId :=
  match Numeral.uint64? (Blank.trim text) with
  | some id => .ok id
  | none => .error (.damagedRecord table 0 (.notACounter (Blank.trim text)))

/-- The last id handed out, as the files tell it. -/
def loadCounter (s : RecordFile) : Action RecordId := do
  match ← Action.ask (.read s.counter) with
  | .ok source => do
    let text ← Action.ofReply source.text
    Action.ofResult (counterOfText s.table text)
  | .error .notFound => return Entries.greatestId (← s.records)
  | .error fault => throw (.storage fault)

/-- Open a store. -/
def load (table : String) (data counter : Path) (arity : Nat) (sync : Bool) :
    Action RecordFile := do
  if (← Action.kind data) ≠ some .file then throw (.missingRecords table)
  let store : RecordFile := ⟨table, data, counter, arity, 0, sync⟩
  return { store with lastId := ← store.loadCounter }

/-! ## Writing -/

/-- Put other records in place of all there are. -/
def replaceAll (s : RecordFile) (stored : List Stored) : Action Unit :=
  Replacement.replace s.data (Utf8.encode (Entries.text stored)) s.sync

/-- Add a record and hand out its id. -/
def append (record : Record) : Update RecordFile RecordId := do
  let s ← get
  if s.lastId.toNat + 1 = UInt64.size then throw (.storage .idsExhausted)
  let id := s.lastId + 1
  Replacement.replace s.counter (Utf8.encode (Numeral.ofUInt64 id)) s.sync
  set { s with lastId := id }
  Action.append s.data (Utf8.encode (record.line id)) s.sync
  return id

/-- Set a field of every accepted record, and report each of these records.  The
data file is not touched unless some text changes. -/
def updateWhere (s : RecordFile) (accepts : Record → Bool) (position : Nat) (value : String) :
    Action (List FieldChange) := do
  let stored ← s.records
  let changes := stored.filterMap (Entries.change? accepts position value)
  if changes.any fun c => c.old ≠ c.new then
    s.replaceAll (stored.map (Entries.assign accepts position value))
  return changes

/-- Remove every accepted record, and report them.  The data file is not touched
unless something is removed. -/
def deleteWhere (s : RecordFile) (accepts : Record → Bool) : Action (List Stored) := do
  let stored ← s.records
  let removed := stored.filter fun r => accepts r.2
  if !removed.isEmpty then
    s.replaceAll (stored.filter fun r => !accepts r.2)
  return removed

/-- Remove all records at once.  Ids go on from where they were. -/
def truncate (s : RecordFile) : Action Unit :=
  Action.truncate s.data s.sync

end RecordFile

end FlatDB
