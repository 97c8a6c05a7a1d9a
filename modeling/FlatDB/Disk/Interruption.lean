/-
# Interruptions

A program may be stopped at any point: the power fails, or somebody kills it.  What
it has done until then stays, and nothing is cleaned up.  Most calls are done at once
or not at all.  Three take more than one step of the file system and can be stopped in
between: what is written to a new file goes out in portions, directories are made one
after the other, and a directory is removed together with all that is in it piece by
piece.  In which order pieces come is not laid down here, so any of them may be done
already while others are not.
-/

import FlatDB.Disk.Perform

namespace FlatDB

/-- A tree on the way from one tree to another: each place is as in one of the two. -/
structure FileTree.Between (t t' u : FileTree) : Prop where
  here : u.here = t.here
  places : ∀ place, u.at? place = t.at? place ∨ u.at? place = t'.at? place

namespace Disk

/-- Whether a disk may be found while a call is made that has not been done yet. -/
def Amid (d : Disk) : Call → Disk → Prop
  | .fill handle content _, d' => ∃ bytes, d' = d.fill handle (content.take bytes)
  | .makeDirectories path, d' => d.tree.Between (d.step (.makeDirectories path)).2.tree d'.tree
  | .removeTree path, d' => d.tree.Between (d.step (.removeTree path)).2.tree d'.tree
  | _, _ => False

end Disk

/-- Whether a disk may be left by a program that is stopped somewhere: before its first
call, amid it, or later.  If it is stopped after the last call, it has been done. -/
def Program.Interrupted {α : Type} : Program α → Disk → Disk → Prop
  | .done _, d, d' => d' = d
  | .call c next, d, d' =>
    d' = d ∨ d.Amid c d' ∨ (next (d.step c).1).Interrupted (d.step c).2 d'

/-- Whether a disk may be left by an action that is stopped somewhere. -/
def Action.Interrupted {α : Type} (a : Action α) (d d' : Disk) : Prop :=
  Program.Interrupted (ExceptT.run a) d d'

/-- Whether a disk may be left by an update of a value that is stopped somewhere. -/
def Update.Interrupted {σ α : Type} (u : Update σ α) (s : σ) (d d' : Disk) : Prop :=
  Program.Interrupted (StateT.run (ExceptT.run u) s) d d'

end FlatDB
