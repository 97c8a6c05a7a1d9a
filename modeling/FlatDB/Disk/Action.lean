/-
# Actions and updates

An action is a program that may fail with an error.  An update is an action on a value
held in memory, such as an open table; the value it leaves behind is kept even
if it fails, because by then the files may have changed and the value has to go
with them.
-/

import FlatDB.Disk.Program
import FlatDB.Error

namespace FlatDB

/-- A program that may fail. -/
abbrev Action := ExceptT Error Program

/-- An action on a value of type `σ`, which it may change whether it fails or not. -/
abbrev Update (σ : Type) := ExceptT Error (StateT σ Program)

namespace Action

variable {α : Type}

/-- Make a call that cannot fail. -/
def ask (c : Call) : Action c.Reply :=
  ExceptT.lift (Program.perform c)

/-- Fail if a reply is a fault. -/
def ofReply : Except Fault α → Action α
  | .ok a => pure a
  | .error fault => throw (.storage fault)

/-- Fail if a result is an error. -/
def ofResult (result : Except Error α) : Action α :=
  ExceptT.mk (pure result)

/-- What there is at a path, if anything. -/
def kind (path : Path) : Action (Option Kind) :=
  ask (.kind path)

/-- Open a path for reading. -/
def read (path : Path) : Action Source := do
  ofReply (← ask (.read path))

/-- The names in a directory. -/
def list (path : Path) : Action (List (String × Kind)) := do
  ofReply (← ask (.list path))

/-- Make a directory and those on the way to it. -/
def makeDirectories (path : Path) : Action Unit := do
  ofReply (← ask (.makeDirectories path))

/-- Make a file, or empty it. -/
def create (path : Path) : Action Handle := do
  ofReply (← ask (.create path))

/-- Write to a file just created. -/
def fill (handle : Handle) (content : Bytes) (sync : Bool) : Action Unit := do
  ofReply (← ask (.fill handle content sync))

/-- Write at the end of a file. -/
def append (path : Path) (content : Bytes) (sync : Bool) : Action Unit := do
  ofReply (← ask (.append path content sync))

/-- Empty a file. -/
def truncate (path : Path) (sync : Bool) : Action Unit := do
  ofReply (← ask (.truncate path sync))

/-- Move a file or directory. -/
def rename (source target : Path) : Action Unit := do
  ofReply (← ask (.rename source target))

/-- Remove a file. -/
def remove (path : Path) : Action Unit := do
  ofReply (← ask (.remove path))

/-- Remove a directory with all that is in it. -/
def removeTree (path : Path) : Action Unit := do
  ofReply (← ask (.removeTree path))

/-- The outcome of an action, whichever it is. -/
def outcome (t : Action α) : Action (Except Error α) :=
  ExceptT.lift t.run

/-- Run `cleanup` if an action fails, and fail with the action's error whatever comes
of that. -/
def orElse (t : Action α) (cleanup : Action Unit) : Action α := do
  match ← t.outcome with
  | .ok a => pure a
  | .error e =>
    let _ ← cleanup.outcome
    throw e

end Action

namespace Update

variable {σ τ α : Type}

/-- An action as an update that changes nothing. -/
def ofAction (t : Action α) : Update σ α :=
  ExceptT.mk (StateT.lift t.run)

instance : MonadLift Action (Update σ) where
  monadLift := ofAction

/-- An update of a part of a value. -/
def onPart (part : σ → τ) (replace : τ → σ → σ) (u : Update τ α) : Update σ α :=
  ExceptT.mk fun s => do
    let (result, t) ← u.run.run (part s)
    return (result, replace t s)

end Update

end FlatDB
