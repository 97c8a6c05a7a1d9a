/-
# Paths

A path is a text with slashes in it, and it is kept as it was written: joining
appends and never tidies up.  Names of files are taken from the end of a path,
where slashes and single dots at the very end count for nothing.
-/

import FlatDB.Text.Split

namespace FlatDB

/-- The path of a file or directory. -/
structure Path where
  /-- The path as it is written. -/
  text : String
  deriving DecidableEq, Repr

namespace Path

/-- Whether the path starts at the root of the file system. -/
def isAbsolute (p : Path) : Bool :=
  p.text.toList.head? == some '/'

/-- Whether the path ends in a slash. -/
def endsInSlash (p : Path) : Bool :=
  p.text.toList.getLast? == some '/'

/-- The path of `name` as seen from `p`.  A name that is absolute stands for
itself, and no slash is added where there is one already. -/
def join (p : Path) (name : String) : Path :=
  if (Path.mk name).isAbsolute then ⟨name⟩
  else if p.text.isEmpty || p.endsInSlash then ⟨p.text ++ name⟩
  else ⟨p.text ++ "/" ++ name⟩

/-- The names of a path, outermost first. -/
def names (p : Path) : List String :=
  ((Split.pieces '/' p.text.toList).filter fun part => !part.isEmpty).map String.ofList

/-- The names of a path that stand for a step, outermost first. -/
def steps (p : Path) : List String :=
  p.names.filter (· ≠ ".")

/-- Whether a part of a path between two slashes stands for no step at all. -/
def isIdle (part : List Char) : Bool :=
  part.isEmpty || part == ['.']

/-- The parts of a path without the idle ones at its end. -/
def dropIdleEnd (parts : List (List Char)) : List (List Char) :=
  (parts.reverse.dropWhile isIdle).reverse

/-- The beginning of a path that no step goes back over, and the parts after it:
the root of an absolute path, or the dot that a relative path begins with. -/
def beginning (parts : List (List Char)) : List (List Char) × List (List Char) :=
  match parts with
  | [] :: part :: rest => ([[]], part :: rest)
  | ['.'] :: rest => ([['.']], rest)
  | _ => ([], parts)

/-- The last name of a path and the path of the directory it is in.  There is
none if the path names no directory but the one it starts at, or goes up last. -/
def split? (p : Path) : Option (Path × String) :=
  let (start, rest) := beginning (Split.pieces '/' p.text.toList)
  let steps := dropIdleEnd rest
  match steps.getLast? with
  | none => none
  | some last =>
    if last = ['.', '.'] then none
    else
      let parent := start ++ dropIdleEnd steps.dropLast
      let text := if parent = [[]] then ['/'] else Split.join '/' parent
      some (⟨String.ofList text⟩, String.ofList last)

/-- The path with another last name. -/
def withName (p : Path) (name : String) : Path :=
  match p.split? with
  | some (parent, _) => parent.join name
  | none => p.join name

/-- The last name of a path, empty if it has none. -/
def lastName (p : Path) : String :=
  match p.split? with
  | some (_, name) => name
  | none => ""

end Path

end FlatDB
