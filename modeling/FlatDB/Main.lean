/-
# The program

This is the only module that touches the world.  It makes each call of a program
on the file system of the machine and reports a failed call by its fault, so
that the program goes on exactly as it would in memory.
-/

import FlatDB.Admin.Tool
import FlatDB.Disk.Directories

namespace FlatDB

namespace Machine

/-- The number of an error of the system, which some calls report as a negative
number. -/
def magnitude (code : UInt32) : Nat :=
  if code.toNat < 2147483648 then code.toNat else UInt32.size - code.toNat

/-- The fault that goes by a number of the system. -/
def faultOfCode (code : UInt32) (text : String) : Fault :=
  match magnitude code with
  | 2 => .notFound
  | 16 => .busy
  | 17 => .alreadyExists
  | 20 => .notDirectory
  | 21 => .isDirectory
  | 22 => .invalidArgument
  | 36 => .nameTooLong
  | 39 => .notEmpty
  | _ => .other text

/-- The fault that an error of the system reports. -/
def faultOf (e : IO.Error) : Fault :=
  match e with
  | .noFileOrDirectory _ code _ => faultOfCode code e.toString
  | .noSuchThing _ code _ => faultOfCode code e.toString
  | .alreadyExists _ code _ => faultOfCode code e.toString
  | .inappropriateType _ code _ => faultOfCode code e.toString
  | .invalidArgument _ code _ => faultOfCode code e.toString
  | .resourceBusy code _ => faultOfCode code e.toString
  | .unsatisfiedConstraints code _ => faultOfCode code e.toString
  | _ => .other e.toString

/-- Do something and say what fault came of it, if one did. -/
def attempt {α : Type} (act : IO α) : IO (Except Fault α) := do
  try
    return .ok (← act)
  catch e => return .error (faultOf e)

/-- What there is at a path. -/
def kind (path : Path) : IO (Option Kind) := do
  if path.text.isEmpty then return none
  try
    let there := (← IO.currentDir) / path.text
    match (← there.metadata).type with
    | .dir => return some .directory
    | _ => return some .file
  catch _ => return none

/-- Open a path for reading. -/
def read (path : Path) : IO (Except Fault Source) := do
  if (← kind path) = some .directory then return .ok .directory
  attempt do return .content (← IO.FS.readBinFile path.text).toList

/-- The names in a directory. -/
def list (path : Path) : IO (Except Fault (List (String × Kind))) :=
  attempt do
    let there := (← IO.currentDir) / path.text
    let mut found := []
    for entry in ← there.readDir do
      match (← entry.path.metadata).type with
      | .dir => found := (entry.fileName, Kind.directory) :: found
      | _ => found := (entry.fileName, Kind.file) :: found
    return found

/-- Make the directory that some names lead to from a directory, unless it is there. -/
def ensure (start : String) (names : List String) : IO (Except Fault Unit) := do
  let there := start ++ "/".intercalate names
  match ← attempt (IO.FS.createDir there) with
  | .ok () => return .ok ()
  | .error fault =>
    if (← kind ⟨there⟩) = some .directory then return .ok () else return .error fault

/-- Do something to a file that must exist. -/
def onFile (path : Path) (act : IO Unit) : IO (Except Fault Unit) := do
  match ← kind path with
  | none => return .error .notFound
  | some .directory => return .error .isDirectory
  | some .file => attempt act

/-- Make a call.  The files that were created are kept open until they are written,
in the order of their handles. -/
def perform (files : IO.Ref (Array (Option IO.FS.Handle))) : (c : Call) → IO c.Reply
  | .kind path => kind path
  | .read path => read path
  | .list path => list path
  | .makeDirectories path =>
    Directories.ensureAll (ensure (if path.isAbsolute then "/" else "")) path
  | .create path =>
    attempt do
      let file ← IO.FS.Handle.mk path.text .write
      let opened ← files.get
      files.set (opened.push (some file))
      return opened.size
  | .fill handle content _ =>
    attempt do
      if let some (some file) := (← files.get)[handle]? then
        files.modify fun opened => opened.setIfInBounds handle none
        file.write content.toByteArray
        file.flush
  | .append path content _ =>
    onFile path do
      let file ← IO.FS.Handle.mk path.text .append
      file.write content.toByteArray
      file.flush
  | .truncate path _ =>
    onFile path do
      let file ← IO.FS.Handle.mk path.text .readWrite
      file.truncate
  | .rename source target => attempt (IO.FS.rename source.text target.text)
  | .remove path => attempt (IO.FS.removeFile path.text)
  | .removeTree path => attempt (IO.FS.removeDirAll path.text)

/-- Make all the calls of a program. -/
def run {α : Type} (files : IO.Ref (Array (Option IO.FS.Handle))) : Program α → IO α
  | .done result => return result
  | .call c next => do run files (next (← perform files c))

end Machine

end FlatDB

open FlatDB in
/-- Run the command line tool. -/
def main (arguments : List String) : IO UInt32 := do
  let root ← IO.getEnv Settings.rootVariable
  let sync ← IO.getEnv Settings.syncVariable
  let files ← IO.mkRef #[]
  let outcome ← Machine.run files (Admin.run arguments (.ofEnvironment root sync))
  IO.print outcome.output
  IO.eprint outcome.errors
  return outcome.code.toUInt32
