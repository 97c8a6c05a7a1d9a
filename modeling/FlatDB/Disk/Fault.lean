/-
# Faults of storage

Why a step on files or directories could not be taken.  Most faults are the
file system's own and carry its number; the others are raised where the library
itself finds that it cannot go on reading or writing.
-/

import FlatDB.Text.Numeral

namespace FlatDB

/-- Why storage could not be read or written. -/
inductive Fault where
  /-- There is nothing at the path, or nothing at a directory on the way to it. -/
  | notFound
  /-- Something else is busy with what the path names. -/
  | busy
  /-- There is something at the path already. -/
  | alreadyExists
  /-- The path goes through, or needs, a directory where there is a file. -/
  | notDirectory
  /-- There is a directory where a file is needed. -/
  | isDirectory
  /-- A directory would be moved into itself. -/
  | invalidArgument
  /-- The path or one of its names is too long. -/
  | nameTooLong
  /-- A directory that has to be empty is not. -/
  | notEmpty
  /-- The path holds a null character. -/
  | nullInPath
  /-- What was read is not text. -/
  | notText
  /-- The directory that holds all tables is not there. -/
  | missingRoot (root : String)
  /-- A table's directory is still there after its removal. -/
  | stillThere (directory : String)
  /-- Every record id has been handed out. -/
  | idsExhausted
  /-- Any other fault, in the words of the system. -/
  | other (text : String)
  deriving DecidableEq, Repr

namespace Fault

/-- A fault of the file system with its number. -/
def numbered (text : String) (number : Nat) : String :=
  text ++ " (os error " ++ Numeral.ofNat number ++ ")"

/-- The fault in words. -/
def message : Fault → String
  | .notFound => numbered "No such file or directory" 2
  | .busy => numbered "Device or resource busy" 16
  | .alreadyExists => numbered "File exists" 17
  | .notDirectory => numbered "Not a directory" 20
  | .isDirectory => numbered "Is a directory" 21
  | .invalidArgument => numbered "Invalid argument" 22
  | .nameTooLong => numbered "File name too long" 36
  | .notEmpty => numbered "Directory not empty" 39
  | .nullInPath => "file name contained an unexpected NUL byte"
  | .notText => "stream did not contain valid UTF-8"
  | .missingRoot root => "storage root '" ++ root ++ "' does not exist"
  | .stillThere directory => "table directory '" ++ directory ++ "' was not fully removed"
  | .idsExhausted => "no record id is left"
  | .other text => text

end Fault

end FlatDB
