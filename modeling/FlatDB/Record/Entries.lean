/-
# The entries of a data file

A data file is read as a list of entries, one for each line that is not empty:
the record on the line, or the error of a line that is none.  A damaged line
does not keep the lines after it from being read; a line that is not text, or
cannot be read at all, ends the list.  Line numbers count every line from one.

Looking up records by their ids reads no more of a line than its id unless the
id is asked for, and no further than to the last record it can find.
-/

import FlatDB.Disk.Source
import FlatDB.Record.Line
import Std.Data.ExtTreeSet

namespace FlatDB

/-- A record together with its id. -/
abbrev Stored := RecordId × Record

/-- A set of record ids. -/
abbrev IdSet := Std.ExtTreeSet RecordId

/-- One field that an update has written, whether or not it changed the text. -/
structure FieldChange where
  /-- The record. -/
  id : RecordId
  /-- The text before. -/
  old : String
  /-- The text after. -/
  new : String
  deriving DecidableEq, Repr

namespace Entries

/-- Say on which line of which table a record is damaged. -/
def atLine {α : Type} (table : String) (number : Nat) : Except RecordDamage α → Except Error α
  | .ok a => .ok a
  | .error damage => .error (.damagedRecord table number damage)

/-- The entries of lines, the first of which has the given number. -/
def ofLines (table : String) (arity : Nat) : Nat → List (Except Fault String) →
    List (Except Error Stored)
  | _, [] => []
  | _, .error fault :: _ => [.error (.storage fault)]
  | number, .ok line :: rest =>
    if line.isEmpty then ofLines table arity (number + 1) rest
    else
      atLine table number (Record.ofLineWithArity arity line) ::
        ofLines table arity (number + 1) rest

/-- The entries of what was read from a data file. -/
def ofSource (table : String) (arity : Nat) (source : Source) : List (Except Error Stored) :=
  ofLines table arity 1 source.lines

/-- All records, if every entry is one; otherwise the first error. -/
def all : List (Except Error Stored) → Except Error (List Stored)
  | [] => .ok []
  | .error e :: _ => .error e
  | .ok stored :: rest => return stored :: (← all rest)

/-- The number of lines that are not empty. -/
def count : List (Except Fault String) → Except Error Nat
  | [] => .ok 0
  | .error fault :: _ => .error (.storage fault)
  | .ok line :: rest => return (if line.isEmpty then 0 else 1) + (← count rest)

/-- The records with the given ids, of which `missing` are still to be found. -/
def find (table : String) (arity : Nat) (ids : IdSet) (missing : Nat) :
    Nat → List (Except Fault String) → Except Error (List Stored)
  | _, [] => .ok []
  | _, .error fault :: _ => .error (.storage fault)
  | number, .ok line :: rest =>
    if line.isEmpty then find table arity ids missing (number + 1) rest
    else do
      let id ← atLine table number (Record.idOfLine line)
      if id ∈ ids then
        let stored ← atLine table number (Record.ofLineWithArity arity line)
        if missing ≤ 1 then return [stored]
        else return stored :: (← find table arity ids (missing - 1) (number + 1) rest)
      else find table arity ids missing (number + 1) rest

/-- The greatest id among records, zero if there are none. -/
def greatestId (stored : List Stored) : RecordId :=
  stored.foldl (fun greatest s => max greatest s.1) 0

/-- The text of a data file with the given records. -/
def text (stored : List Stored) : String :=
  String.join (stored.map fun (id, record) => record.line id)

/-- What an update does to one record. -/
def assign (accepts : Record → Bool) (position : Nat) (value : String) (s : Stored) : Stored :=
  if accepts s.2 then (s.1, s.2.set position value) else s

/-- What an update reports of one record. -/
def change? (accepts : Record → Bool) (position : Nat) (value : String) (s : Stored) :
    Option FieldChange :=
  if accepts s.2 then some ⟨s.1, (s.2.get? position).getD "", value⟩ else none

end Entries

end FlatDB
