/-
# The command line tool

The tool makes a storage root, lists the tables in one, and describes a table.
It answers with an exit code and with what it writes to its two outputs: an
answer goes to the first, the report of a failure to the second.
-/

import FlatDB.Admin.Arguments
import FlatDB.Admin.Grid
import FlatDB.Admin.Report
import FlatDB.Query.Execute

namespace FlatDB

namespace Admin

/-- What a run of the tool comes to. -/
structure Outcome where
  /-- The exit code. -/
  code : Nat
  /-- What is written as the answer. -/
  output : String
  /-- What is written about a failure. -/
  errors : String
  deriving DecidableEq, Repr

/-- Execute a statement in a new session. -/
def ask (settings : Settings) (statement : Statement) : Program (Except Error Answer) := do
  let (result, _) ← statement.execute.run.run (Session.start settings.root settings.sync)
  return result

/-- Make the storage root. -/
def makeRoot (root : Path) : Program (Except Failure String) := do
  match ← Program.perform (.makeDirectories root) with
  | .ok () => return .ok ("Initialized storage root at " ++ root.text)
  | .error fault =>
    return .error ⟨"creating storage root " ++ root.text, [fault.message]⟩

/-- Go on only if the storage root is there. -/
def inRoot (root : Path) (p : Program (Except Failure String)) : Program (Except Failure String) := do
  if (← Program.perform (.kind root)) = some .directory then p
  else
    return .error
      ⟨"storage root " ++ root.text ++ " does not exist, run `sqlito init` first", []⟩

/-- Execute a statement and show its answer. -/
def answer (settings : Settings) (activity : String) (statement : Statement)
    (display : Answer → String) : Program (Except Failure String) := do
  match ← ask settings statement with
  | .ok a => return .ok (display a)
  | .error e => return .error (.ofError activity e)

/-- Carry out a command. -/
def carryOut (settings : Settings) : Command → Program (Except Failure String)
  | .init => makeRoot settings.root
  | .tables =>
    inRoot settings.root (answer settings "listing tables" .showTables Grid.ofAnswer)
  | .describe table json =>
    inRoot settings.root
      (answer settings ("describing table " ++ table) (.describe table)
        (if json then fun a => a.toJson.pretty else Grid.ofAnswer))

/-- Run the tool with its arguments and the settings of its environment. -/
def run (arguments : List String) (settings : Settings) : Program Outcome := do
  let result ←
    match Arguments.read arguments settings with
    | .error e => pure (.error ⟨e.message, []⟩)
    | .ok (command, settings) => carryOut settings command
  match result with
  | .ok text => return ⟨0, text ++ "\n", ""⟩
  | .error failure => return ⟨1, "", failure.report⟩

end Admin

end FlatDB
