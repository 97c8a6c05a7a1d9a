/-
# Answers

What a statement answers: rows under column headers, or a message, or a message
with the number of rows it is about.  Rows come with the width at which each
column is shown, two more than the longest text in it, counted in characters.
-/

import FlatDB.Json.Value

namespace FlatDB

/-- The answer to a statement. -/
structure Answer where
  /-- The headers of the columns. -/
  columns : List String := []
  /-- The width at which each column is shown. -/
  widths : List Nat := []
  /-- The rows. -/
  rows : List (List String) := []
  /-- The number of rows that were added, changed or removed. -/
  affected : Nat := 0
  /-- A message. -/
  message : Option String := none
  /-- Whether the rows were found by an index. -/
  usedIndex : Bool := false
  deriving DecidableEq, Repr

namespace Answer

/-- The width at which a text is shown. -/
def widthOf (text : String) : Nat :=
  text.length + 2

/-- Make columns wide enough for a row. -/
def widen : List Nat → List String → List Nat
  | width :: widths, cell :: cells => max width (widthOf cell) :: widen widths cells
  | widths, _ => widths

/-- The answer with nothing in it. -/
def empty : Answer := {}

/-- An answer that is a message. -/
def ofMessage (message : String) : Answer :=
  { message := some message }

/-- An answer about a number of rows. -/
def ofCount (affected : Nat) (message : String) : Answer :=
  { affected, message := some message }

/-- An answer of rows. -/
def ofRows (columns : List String) (rows : List (List String)) : Answer :=
  { columns, widths := rows.foldl widen (columns.map widthOf), rows }

/-- A list of texts as a document. -/
def textsToJson (texts : List String) : Json :=
  .array (texts.map .string)

/-- The answer as a document. -/
def toJson (a : Answer) : Json :=
  .object [("columns", textsToJson a.columns),
    ("widths", .array (a.widths.map .number)),
    ("rows", .array (a.rows.map textsToJson)),
    ("affected_rows", .number a.affected),
    ("message", match a.message with | some m => .string m | none => .null),
    ("used_index", .bool a.usedIndex)]

end Answer

end FlatDB
