/-
# Running programs in memory

A disk is a tree of files together with the files that were created and not yet
written.  Such a file is known by its handle: if it has been moved in the
meantime, what is written through the handle goes to its new place, and if it
has been removed or replaced, to nowhere.  Running a program makes its calls on
the disk one after the other.
-/

import FlatDB.Disk.FileTree

namespace FlatDB

/-- A tree of files, and where the files now are that wait to be written. -/
structure Disk where
  /-- The files and directories. -/
  tree : FileTree
  /-- For every handle given out so far, where its file is. -/
  waiting : List (Option Place)
  deriving DecidableEq

namespace Disk

/-- The disk with nothing on it. -/
def empty : Disk := ⟨.empty, []⟩

/-- Let relative paths start from a directory. -/
def enter (d : Disk) (directory : Place) : Disk :=
  { d with tree := { d.tree with here := directory } }

/-- Put something at a place of the tree. -/
def put (d : Disk) (place : Place) (entry : Entry) : Disk :=
  { d with tree := d.tree.put place entry }

/-- Follow the waiting files when places change. -/
def relocate (d : Disk) (whither : Place → Option Place) : Disk :=
  { d with waiting := d.waiting.map fun place => place.bind whither }

/-- Remove a place and all that is below it. -/
def prune (d : Disk) (place : Place) : Disk :=
  { d.relocate fun p => if (FileTree.below? place p).isSome then none else some p with
    tree := d.tree.prune place }

/-- Move a place and all that is below it. -/
def move (d : Disk) (source target : Place) : Disk :=
  let whither (p : Place) : Option Place :=
    match FileTree.below? source p with
    | some s => some (s ++ target)
    | none => if (FileTree.below? target p).isSome then none else some p
  { d.relocate whither with tree := d.tree.move source target }

/-- Whether a path names its directory by a dot or two, which nothing can be
moved to or from. -/
def endsInDots (path : Path) : Bool :=
  let last := path.names.getLast?
  last == some "." || last == some ".."

/-- Why one place may not be moved to another: what is moved must exist and not
be moved into itself, and only what is of the same kind and empty is replaced. -/
def moveFault? (t : FileTree) (source target : Place) (slash : Bool) : Option Fault :=
  match t.at? source with
  | none => some .notFound
  | some entry =>
    if slash && entry.kind = .file then some .notDirectory
    else if source = target then none
    else if (FileTree.below? source target).isSome then some .invalidArgument
    else if (FileTree.below? target source).isSome then some .notEmpty
    else
      match entry.kind, t.at? target with
      | .directory, some (.file _) => some .notDirectory
      | .directory, some .directory =>
        if (t.children target).isEmpty then none else some .notEmpty
      | .file, some .directory => some .isDirectory
      | _, _ => none

/-- Move what is at one path to another. -/
def rename (d : Disk) (source target : Path) : Except Fault Unit × Disk :=
  match d.tree.place source, d.tree.place target with
  | .error fault, _ => (.error fault, d)
  | _, .error fault => (.error fault, d)
  | .ok s, .ok t =>
    if endsInDots source || endsInDots target then (.error .busy, d)
    else
      match moveFault? d.tree s t (source.endsInSlash || target.endsInSlash) with
      | some fault => (.error fault, d)
      | none => (.ok (), if s = t then d else d.move s t)

/-- Write through a handle: over the beginning of what its file holds by now. -/
def fill (d : Disk) (handle : Handle) (content : Bytes) : Disk :=
  let written :=
    match d.waiting[handle]? with
    | some (some place) =>
      match d.tree.at? place with
      | some (.file old) => d.tree.put place (.file (content ++ old.drop content.length))
      | _ => d.tree
    | _ => d.tree
  ⟨written, d.waiting.set handle none⟩

/-- Make one call: its reply, and the disk afterwards. -/
def step (d : Disk) : (c : Call) → c.Reply × Disk
  | .kind path =>
    match d.tree.look path with
    | .ok (_, entry) => (entry.map Entry.kind, d)
    | .error _ => (none, d)
  | .read path =>
    match d.tree.look path with
    | .ok (_, some (.file content)) => (.ok (.content content), d)
    | .ok (_, some .directory) => (.ok .directory, d)
    | .ok (_, none) => (.error .notFound, d)
    | .error fault => (.error fault, d)
  | .list path =>
    match d.tree.look path with
    | .ok (place, some .directory) =>
      (.ok ((d.tree.children place).map fun (name, entry) => (name, entry.kind)), d)
    | .ok (_, some (.file _)) => (.error .notDirectory, d)
    | .ok (_, none) => (.error .notFound, d)
    | .error fault => (.error fault, d)
  | .makeDirectories path =>
    if path.text.isEmpty then (.ok (), d)
    else
      match FileTree.refusal? path with
      | some fault => (.error fault, d)
      | none =>
        let (reply, tree) := d.tree.ensureAll path
        (reply, { d with tree })
  | .create path =>
    match d.tree.look path with
    | .ok (_, some .directory) => (.error .isDirectory, d)
    | .ok (place, _) =>
      if path.endsInSlash then (.error .isDirectory, d)
      else (.ok d.waiting.length, ⟨d.tree.put place (.file []), d.waiting ++ [some place]⟩)
    | .error fault => (.error fault, d)
  | .fill handle content _ => (.ok (), d.fill handle content)
  | .append path content _ =>
    match d.tree.lookFile path with
    | .ok (place, old) => (.ok (), d.put place (.file (old ++ content)))
    | .error fault => (.error fault, d)
  | .truncate path _ =>
    match d.tree.lookFile path with
    | .ok (place, _) => (.ok (), d.put place (.file []))
    | .error fault => (.error fault, d)
  | .rename source target => d.rename source target
  | .remove path =>
    match d.tree.lookFile path with
    | .ok (place, _) => (.ok (), d.prune place)
    | .error fault => (.error fault, d)
  | .removeTree path =>
    match d.tree.look path with
    | .ok (place, some .directory) => (.ok (), d.prune place)
    | .ok (_, some (.file _)) => (.error .notDirectory, d)
    | .ok (_, none) => (.error .notFound, d)
    | .error fault => (.error fault, d)

/-- Asking what is at a path changes nothing. -/
theorem step_kind_snd (d : Disk) (path : Path) : (d.step (.kind path)).2 = d := by
  rw [step]
  split <;> rfl

/-- Reading changes nothing. -/
theorem step_read_snd (d : Disk) (path : Path) : (d.step (.read path)).2 = d := by
  rw [step]
  split <;> rfl

theorem step_fill (d : Disk) (handle : Handle) (content : Bytes) (sync : Bool) :
    d.step (.fill handle content sync) = (.ok (), d.fill handle content) := by
  rw [step]

theorem step_rename (d : Disk) (source target : Path) :
    d.step (.rename source target) = d.rename source target := by
  rw [step]

end Disk

namespace Program

variable {α β : Type}

/-- Make all the calls of a program on a disk. -/
def run : Program α → Disk → α × Disk
  | .done a, d => (a, d)
  | .call c next, d =>
    let (reply, d') := d.step c
    (next reply).run d'

@[simp]
theorem run_done (a : α) (d : Disk) : (Program.done a).run d = (a, d) := rfl

@[simp]
theorem run_perform (c : Call) (d : Disk) : (perform c).run d = d.step c := rfl

/-- Programs run one after the other, the second on the disk the first left. -/
@[simp]
theorem run_bind (p : Program α) (f : α → Program β) (d : Disk) :
    (p >>= f).run d = (f (p.run d).1).run (p.run d).2 := by
  induction p generalizing d with
  | done a => rfl
  | call c next ih => simp only [call_bind, run, ih]

end Program

end FlatDB
