/-
# Trees of files

A file system in memory: which places are taken, and by what.  A place is the
list of names that leads to it, innermost name first, so that a directory is
the tail of each place in it; the empty list is the directory everything else
is in, which always exists.  Two trees with the same entries are equal if
relative paths start from the same place in them.

A path leads to a place by its names, one after the other, from the outermost
directory or from the one that relative paths start from: every name but the
last must be that of a directory.  What a path leads to need not exist, but the
directory it would be in does.
-/

import FlatDB.Disk.Directories
import FlatDB.Disk.Program
import Std.Data.ExtTreeMap

namespace FlatDB

/-- A place in a tree: the names that lead to it, innermost first. -/
abbrev Place := List String

/-- What takes a place. -/
inductive Entry where
  | file (content : Bytes)
  | directory
  deriving DecidableEq, Repr

/-- What kind of thing an entry is. -/
def Entry.kind : Entry → Kind
  | .file _ => .file
  | .directory => .directory

/-- A tree of files and directories. -/
structure FileTree where
  /-- Everything in the tree but the outermost directory. -/
  entries : Std.ExtTreeMap Place Entry
  /-- The directory that relative paths start from. -/
  here : Place
  deriving DecidableEq

namespace FileTree

/-- The tree with nothing in it. -/
def empty : FileTree := ⟨∅, []⟩

/-- What is at a place. -/
def at? (t : FileTree) (place : Place) : Option Entry :=
  if place = [] then some .directory else t.entries[place]?

/-- Put something at a place. -/
def put (t : FileTree) (place : Place) (entry : Entry) : FileTree :=
  { t with entries := t.entries.insert place entry }

/-- What is left of a place below a directory, if it is the directory or below it. -/
def below? (directory place : Place) : Option Place :=
  if directory.isSuffixOf place then some (place.take (place.length - directory.length)) else none

/-- A place is below a directory if it goes on from it. -/
theorem below?_eq_some_iff {directory place rest : Place} :
    below? directory place = some rest ↔ place = rest ++ directory := by
  unfold below?
  constructor
  · intro h
    split at h
    · next hs =>
      obtain ⟨front, rfl⟩ := List.isSuffixOf_iff_suffix.1 hs
      simp at h
      rw [h]
    · cases h
  · rintro rfl
    simp

@[simp]
theorem at?_nil (t : FileTree) : t.at? [] = some .directory := rfl

/-- What was put at a place is there, and everything else is where it was. -/
theorem at?_put (t : FileTree) {place : Place} (h : place ≠ []) (entry : Entry) (p : Place) :
    (t.put place entry).at? p = if p = place then some entry else t.at? p := by
  by_cases hp : p = place
  · subst hp
    simp [at?, put, h]
  · by_cases hn : p = []
    · simp [hn, Ne.symm h]
    · simp [at?, put, hn, hp, Std.ExtTreeMap.getElem?_insert, Ne.symm hp]

/-- Remove a place and all that is below it. -/
def prune (t : FileTree) (place : Place) : FileTree :=
  { t with entries := t.entries.filter fun p _ => (below? place p).isNone }

/-- Nothing is left at or below a removed place, and everything else stays. -/
theorem at?_prune (t : FileTree) (place : Place) {p : Place} (h : p ≠ []) :
    (t.prune place).at? p = if (below? place p).isSome then none else t.at? p := by
  cases hb : below? place p with
  | none => cases he : t.entries[p]? <;> simp [at?, prune, h, hb, he]
  | some rest => cases he : t.entries[p]? <;> simp [at?, prune, h, hb, he]

/-- Move a place and all that is below it to another place. -/
def move (t : FileTree) (source target : Place) : FileTree :=
  let moved := t.entries.toList.filterMap fun (p, e) => (below? source p).map fun s => (s ++ target, e)
  { t with entries := ((t.prune source).prune target).entries.insertMany moved }

/-- What is directly in a directory. -/
def children (t : FileTree) (directory : Place) : List (String × Entry) :=
  t.entries.toList.filterMap fun (p, e) =>
    match p with
    | name :: parent => if parent = directory then some (name, e) else none
    | [] => none

/-- Everything below a directory, each with its place as seen from there. -/
def contents (t : FileTree) (directory : Place) : List (Place × Entry) :=
  t.entries.toList.filterMap fun (p, e) =>
    match below? directory p with
    | some (name :: rest) => some (name :: rest, e)
    | _ => none

/-! ## From paths to places -/

/-- Whether a name is longer than a file system admits. -/
def isTooLong (name : String) : Bool :=
  255 < name.utf8ByteSize

/-- Follow names from a directory. -/
def walk (t : FileTree) (here : Place) : List String → Except Fault Place
  | [] => .ok here
  | name :: rest =>
    if name = "." then walk t here rest
    else if name = ".." then walk t here.tail rest
    else if isTooLong name then .error .nameTooLong
    else if rest.isEmpty then .ok (name :: here)
    else
      match t.at? (name :: here) with
      | some .directory => walk t (name :: here) rest
      | some (.file _) => .error .notDirectory
      | none => .error .notFound

/-- What is wrong with a path before any of its names is looked at. -/
def refusal? (path : Path) : Option Fault :=
  if path.text.toList.contains '\x00' then some .nullInPath
  else if path.text.isEmpty then some .notFound
  else if 4096 ≤ path.text.utf8ByteSize then some .nameTooLong
  else none

/-- Where a path starts. -/
def start (t : FileTree) (path : Path) : Place :=
  if path.isAbsolute then [] else t.here

/-- The place that a path leads to. -/
def place (t : FileTree) (path : Path) : Except Fault Place :=
  match refusal? path with
  | some fault => .error fault
  | none => walk t (t.start path) path.names

/-- The place that a path leads to and what is there.  A path that ends in a
slash leads to no file. -/
def look (t : FileTree) (path : Path) : Except Fault (Place × Option Entry) := do
  let place ← t.place path
  match t.at? place with
  | some (.file content) =>
    if path.endsInSlash then .error .notDirectory else .ok (place, some (.file content))
  | entry => .ok (place, entry)

/-- The content of the file that a path leads to, and its place. -/
def lookFile (t : FileTree) (path : Path) : Except Fault (Place × Bytes) := do
  match ← t.look path with
  | (place, some (.file content)) => .ok (place, content)
  | (_, some .directory) => .error .isDirectory
  | (_, none) => .error .notFound

/-- Make the directory that some names lead to, unless it is there. -/
def ensure (start : Place) (names : List String) (t : FileTree) : Except Fault Unit × FileTree :=
  match t.walk start names with
  | .error fault => (.error fault, t)
  | .ok place =>
    match t.at? place with
    | none => (.ok (), t.put place .directory)
    | some .directory => (.ok (), t)
    | some (.file _) => (.error .alreadyExists, t)

/-- Make the directory that a path leads to and those on the way to it, as far
as that goes. -/
def ensureAll (t : FileTree) (path : Path) : Except Fault Unit × FileTree :=
  StateT.run (m := Id) (Directories.ensureAll (m := StateM FileTree) (ensure (t.start path)) path) t

end FileTree

end FlatDB
