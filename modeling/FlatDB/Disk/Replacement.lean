/-
# Replacing a file

A file is replaced by writing the new content beside it and moving that over it
at the end, so that whoever looks finds either the old content or the new.  What
is written is gathered in memory and reaches the file beside the target when the
replacement is committed.  A replacement that is not committed, or cannot be, is
taken away again.
-/

import FlatDB.Disk.Action

namespace FlatDB

/-- The sibling of a file in which its replacement is prepared. -/
def Path.staged (target : Path) : Path :=
  target.withName (target.lastName ++ ".swp")

/-- A replacement under preparation. -/
structure Replacement where
  /-- The file to be replaced. -/
  target : Path
  /-- The file the new content is written to. -/
  handle : Handle
  /-- The new content so far. -/
  content : Bytes
  /-- Whether the new content must have reached the medium before the move. -/
  sync : Bool
  deriving DecidableEq, Repr

namespace Replacement

/-- Start to replace a file. -/
def start (target : Path) (sync : Bool) : Action Replacement := do
  return ⟨target, ← Action.create target.staged, [], sync⟩

/-- Add to the new content. -/
def write (r : Replacement) (bytes : Bytes) : Replacement :=
  { r with content := r.content ++ bytes }

/-- Take the file beside the target away, if it is still there. -/
def clearAway (r : Replacement) : Action Unit := do
  let _ ← (Action.remove r.target.staged).outcome

/-- Give the replacement up; the target stays as it is.  The file beside it is
closed only after it was taken away, so what was gathered goes nowhere. -/
def discard (r : Replacement) : Action Unit := do
  r.clearAway
  let _ ← (Action.fill r.handle r.content false).outcome

/-- Put the new content in the target's place. -/
def commit (r : Replacement) : Action Unit :=
  let move : Action Unit := do
    Action.fill r.handle r.content r.sync
    Action.rename r.target.staged r.target
  move.orElse r.clearAway

/-- Replace the content of a file, or make the file. -/
def replace (target : Path) (bytes : Bytes) (sync : Bool) : Action Unit := do
  let r ← start target sync
  (r.write bytes).commit

end Replacement

end FlatDB
