/-
# Settings

Where tables are kept, and whether writing waits for the medium.  Both have
defaults and can be set from the environment; a setting that is empty or not
understood leaves the default in force.
-/

import FlatDB.Disk.Path
import FlatDB.Text.Blank

namespace FlatDB

/-- The settings of a session. -/
structure Settings where
  /-- The directory of all tables. -/
  root : Path := ⟨".sqlito/data"⟩
  /-- Whether what is written must have reached the medium. -/
  sync : Bool := true
  deriving DecidableEq, Repr

namespace Settings

/-- The variable that sets the directory. -/
def rootVariable : String := "SQLITO_ROOT"

/-- The variable that sets whether writing waits. -/
def syncVariable : String := "SQLITO_SYNC"

/-- Read a flag, in any case and with blanks around it. -/
def flag? (text : String) : Option Bool :=
  let word := String.ofList ((Blank.trim text).toList.map Char.toLower)
  if word ∈ ["1", "true", "yes", "on"] then some true
  else if word ∈ ["0", "false", "no", "off"] then some false
  else none

/-- The settings that the two variables make, where they are set. -/
def ofEnvironment (root sync : Option String) : Settings :=
  let standard : Settings := {}
  { root := match root.filter (!·.isEmpty) with
      | some text => ⟨text⟩
      | none => standard.root
    sync := (sync.bind flag?).getD standard.sync }

end Settings

end FlatDB
