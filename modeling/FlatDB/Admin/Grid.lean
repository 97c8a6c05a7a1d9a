/-
# Answers as grids

Rows are shown in a grid of characters: a header between two separators, the
rows below it, another separator if there are any rows, and their number.  Each
column is as wide as the answer says; a cell has one blank before its text and
at least one after it.
-/

import FlatDB.Query.Answer

namespace FlatDB

namespace Admin

namespace Grid

/-- A line between corners or edges. -/
def line (edge : String) (cells : List String) : String :=
  edge ++ edge.intercalate cells ++ edge ++ "\n"

/-- The line above and below the header, and below the rows. -/
def separator (widths : List Nat) : String :=
  line "+" (widths.map fun width => String.ofList (List.replicate width '-'))

/-- A text with a blank before it, filled up with blanks to a width. -/
def cell (text : String) (width : Nat) : String :=
  String.ofList (' ' :: text.toList ++ List.replicate (width - 1 - text.length) ' ')

/-- The line of a row. -/
def row (widths : List Nat) (cells : List String) : String :=
  line "|" (List.zipWith cell cells widths)

/-- The grid of an answer's rows. -/
def ofRows (a : Answer) : String :=
  separator a.widths ++ row a.widths a.columns ++ separator a.widths ++
    String.join (a.rows.map (row a.widths)) ++
    (if a.rows.isEmpty then "" else separator a.widths) ++
    Numeral.ofNat a.rows.length ++ " row(s) returned"

/-- An answer as it is shown: its grid, or its message if it has no columns. -/
def ofAnswer (a : Answer) : String :=
  if a.columns.isEmpty then a.message.getD "" else ofRows a

end Grid

end Admin

end FlatDB
