/-
# Making directories

A directory is made together with those on the way to it.  The path is tried as
a whole first.  Only if something on the way is missing is the directory above
made, in the same manner, and the path tried once more.  Two faults depend on
this.  A file on the way cannot be gone through, but if something is missing
before it, it is met as what takes the place of a directory to be made.  And a
dot at the end of a path is no step, so the directory it is in is never made for
its sake and has to be there.

The rule is the same wherever directories are made, so it is given for any way
of making a single one.  What was made on the way stays if the path as a whole
cannot be made.
-/

import FlatDB.Disk.Fault
import FlatDB.Disk.Path

namespace FlatDB

namespace Directories

variable {m : Type → Type} [Monad m]

/-- Make the directory that `names` lead to by some steps, the last of which is
given first.  `ensure` makes a single directory, unless it is there. -/
def ensureAlong (ensure : List String → m (Except Fault Unit)) (names : List String) :
    (steps : List String) → m (Except Fault Unit)
  | [] => return .ok ()
  | _ :: above => do
    match ← ensure names with
    | .error .notFound =>
      match ← ensureAlong ensure above.reverse above with
      | .ok () => ensure names
      | .error fault => return .error fault
    | reply => return reply

/-- Make the directory that a path leads to. -/
def ensureAll (ensure : List String → m (Except Fault Unit)) (path : Path) :
    m (Except Fault Unit) :=
  ensureAlong ensure path.names path.steps.reverse

end Directories

end FlatDB
