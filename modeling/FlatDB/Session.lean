/-
# Sessions

A session works under one storage root and keeps the tables it has opened.  A
table is opened when it is first needed and stays open until it is dropped or
forgotten, so what it holds in memory has to agree with its files at all times:
whatever an operation leaves behind in an open table is kept, even if the
operation fails.
-/

import FlatDB.Table.Basic

namespace FlatDB

/-- A storage root and the tables that are open under it. -/
structure Session where
  /-- The directory of all tables. -/
  root : Path
  /-- Whether what is written must have reached the medium. -/
  sync : Bool
  /-- The open tables by name. -/
  tables : Std.ExtTreeMap String Table

namespace Session

/-- A session in which no table is open. -/
def start (root : Path) (sync : Bool) : Session :=
  ⟨root, sync, ∅⟩

/-- An open table. -/
def table? (s : Session) (name : String) : Option Table :=
  s.tables[name]?

/-- Keep a table open, instead of any other of its name. -/
def keep (s : Session) (t : Table) : Session :=
  { s with tables := s.tables.insert t.name t }

/-- Forget an open table. -/
def forget (s : Session) (name : String) : Session :=
  { s with tables := s.tables.erase name }

/-- Open a table, unless it is open. -/
def openTable (name : String) : Update Session Table := do
  let s ← get
  match s.table? name with
  | some table => return table
  | none =>
    let table ← Table.load s.root name s.sync
    set (s.keep table)
    return table

/-- Update a table, which is opened if it has to be. -/
def onTable {α : Type} (name : String) (u : Update Table α) : Update Session α := do
  let table ← openTable name
  u.onPart (fun _ => table) fun table s => s.keep table

/-- Make a table and keep it open. -/
def createTable (d : Definition) : Update Session Table := do
  let s ← get
  let table ← Table.create s.root d s.sync
  set (s.keep table)
  return table

/-- Take a table out of the session, opening it first if it is not open. -/
def takeTable (name : String) : Update Session Table := do
  let s ← get
  match s.table? name with
  | some table =>
    set (s.forget name)
    return table
  | none => Table.load s.root name s.sync

/-- Drop a table.  It is no longer open afterwards, even if it cannot be removed. -/
def dropTable (name : String) : Update Session Unit := do
  (← takeTable name).drop

/-- Whether something in the storage root is a table: a directory that is not
hidden and has a header. -/
def isTable (root : Path) (entry : String × Kind) : Action Bool := do
  if entry.2 ≠ .directory || entry.1.toList.head? == some '.' then return false
  return (← Action.kind (Layout.ofTable root entry.1).header) = some .file

/-- The names of all tables, sorted. -/
def tableNames (s : Session) : Action (List String) := do
  let tables ← (← Action.list s.root).filterM (isTable s.root)
  return (tables.map Prod.fst).mergeSort fun a b => decide (a ≤ b)

end Session

end FlatDB
