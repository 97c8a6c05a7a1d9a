/-
# What is read from a file

An opened file is read as one text or line by line.  Either way a directory
yields nothing but a fault, and bytes that are not text are a fault too: of the
whole text, or of the one line they are in.
-/

import FlatDB.Disk.Program
import FlatDB.Text.Lines

namespace FlatDB

namespace Source

/-- The text of some bytes, or a fault. -/
def decode (bytes : Bytes) : Except Fault String :=
  match Utf8.decode? bytes with
  | some s => .ok s
  | none => .error .notText

/-- All bytes. -/
def bytes : Source → Except Fault Bytes
  | .content bytes => .ok bytes
  | .directory => .error .isDirectory

/-- The whole text. -/
def text : Source → Except Fault String
  | .content bytes => decode bytes
  | .directory => .error .isDirectory

/-- The lines, each of which can be at fault on its own. -/
def lines : Source → List (Except Fault String)
  | .content bytes => (Lines.ofBytes bytes).map decode
  | .directory => [.error .isDirectory]

end Source

end FlatDB
