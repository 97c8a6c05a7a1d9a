/-
# Reports of failure

A failure is reported by what was being done and, below that, by its causes, the
nearest first.  A single cause is indented; several are numbered.  A cause that
runs over several lines keeps its indentation.
-/

import FlatDB.Error
import FlatDB.Text.Split

namespace FlatDB

namespace Admin

/-- A failure: what failed, and the causes behind it. -/
structure Failure where
  /-- What failed. -/
  summary : String
  /-- The causes, nearest first. -/
  causes : List String
  deriving DecidableEq, Repr

namespace Failure

/-- A failure to do something because of an error. -/
def ofError (activity : String) (e : Error) : Failure :=
  ⟨activity, e.message :: (e.cause?.map Fault.message).toList⟩

/-- A text with something before its first line and something before the others. -/
def indented (first others : String) (text : String) : String :=
  first ++ ("\n" ++ others).intercalate ((Split.pieces '\n' text.toList).map String.ofList)

/-- The number of a cause, right-aligned. -/
def number (n : Nat) : String :=
  let digits := Numeral.ofNat n
  String.ofList (List.replicate (5 - digits.length) ' ') ++ digits ++ ": "

/-- The causes of a failure, each on lines of its own. -/
def causeLines : List String → List String
  | [cause] => [indented "    " "    " cause]
  | causes => causes.mapIdx fun n cause => indented (number n) "       " cause

/-- The report of a failure. -/
def report (f : Failure) : String :=
  let causes :=
    if f.causes.isEmpty then ""
    else "\n\nCaused by:" ++ String.join ((causeLines f.causes).map ("\n" ++ ·))
  "Error: " ++ f.summary ++ causes ++ "\n"

end Failure

end Admin

end FlatDB
