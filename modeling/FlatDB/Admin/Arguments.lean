/-
# Arguments of the command line

The arguments are read from left to right.  An option for the storage root takes
the argument after it, whatever that is; the option for documents stands alone;
everything else makes up the command, in order.  The last storage root counts,
and options may stand anywhere.
-/

import FlatDB.Settings

namespace FlatDB

namespace Admin

/-- What the command line can ask for. -/
inductive Command where
  /-- Make the storage root. -/
  | init
  /-- List the tables. -/
  | tables
  /-- Describe a table, as a document if `json` is set. -/
  | describe (table : String) (json : Bool)
  deriving DecidableEq, Repr

/-- Why arguments are not understood. -/
inductive UsageError where
  | missingRoot
  | noCommand
  deriving DecidableEq, Repr

/-- How the program is used. -/
def usage : String :=
  "usage: sqlito [--root <dir>] <init | tables | describe <table> [--json]>"

/-- The error in words. -/
def UsageError.message : UsageError → String
  | .missingRoot => "--root needs a directory\n" ++ usage
  | .noCommand => usage

/-- Arguments sorted by what they are for. -/
structure Arguments where
  /-- The arguments that make up the command. -/
  words : List String := []
  /-- Whether a document is asked for. -/
  json : Bool := false
  /-- The storage root that is asked for. -/
  root : Option String := none
  deriving DecidableEq, Repr

namespace Arguments

/-- Whether an argument announces a storage root. -/
def isRootOption (argument : String) : Bool :=
  argument == "--root" || argument == "-r"

/-- Whether an argument asks for a document. -/
def isJsonOption (argument : String) : Bool :=
  argument == "--json"

/-- Sort the arguments that follow those already sorted. -/
def sort (a : Arguments) : List String → Except UsageError Arguments
  | [] => .ok a
  | argument :: rest =>
    if isRootOption argument then
      match rest with
      | [] => .error .missingRoot
      | root :: rest => sort { a with root := some root } rest
    else if isJsonOption argument then sort { a with json := true } rest
    else sort { a with words := a.words ++ [argument] } rest

/-- The command that the arguments make up. -/
def command (a : Arguments) : Except UsageError Command :=
  match a.words with
  | [word] =>
    if word = "init" then .ok .init
    else if word = "tables" then .ok .tables
    else .error .noCommand
  | [word, table] =>
    if word = "describe" then .ok (.describe table a.json) else .error .noCommand
  | _ => .error .noCommand

/-- The settings with the storage root that is asked for. -/
def settings (a : Arguments) (s : Settings) : Settings :=
  match a.root with
  | some root => { s with root := ⟨root⟩ }
  | none => s

/-- Read arguments, given the settings from elsewhere. -/
def read (arguments : List String) (s : Settings) : Except UsageError (Command × Settings) := do
  let a ← sort {} arguments
  return (← a.command, a.settings s)

end Arguments

end Admin

end FlatDB
