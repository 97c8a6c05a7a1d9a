/-
# Projections

A select list is either the lone wildcard or a list of columns, none of them
named twice.  It is turned into a header and a position for each column of the
answer, and from then on picks the fields of a record.
-/

import FlatDB.Query.Statement
import FlatDB.Record.Basic

namespace FlatDB

/-- One column of an answer: its header, and where its values are in a record. -/
structure Projected where
  /-- The header. -/
  header : String
  /-- The place in a record. -/
  position : Nat
  deriving DecidableEq, Repr

namespace Projection

/-- All columns of a table. -/
def wildcard (s : Schema) : List Projected :=
  s.columns.mapIdx fun i c => ⟨c.name, i⟩

/-- The columns of a select list, when some columns have been named before it. -/
def ofItems (d : Definition) : (seen : List String) → List SelectItem →
    Except Error (List Projected)
  | _, [] => .ok []
  | _, .wildcard :: _ => .error .wildcardNotAlone
  | seen, .expr (.column ref) label :: rest => do
    if seen.contains ref.column then throw (.repeatedField ref.column)
    let column ← d.column ref.column
    return ⟨label.getD column.name, column.position⟩ :: (← ofItems d (ref.column :: seen) rest)
  | _, .expr value _ :: _ => .error (.unsupported (.selectExpression value.written))

/-- The columns that a select list asks for. -/
def ofList (d : Definition) : List SelectItem → Except Error (List Projected)
  | [.wildcard] => .ok (wildcard d.schema)
  | items => ofItems d [] items

/-- The row that a record contributes. -/
def row (columns : List Projected) (record : Record) : List String :=
  columns.map fun c => (record.get? c.position).getD ""

end Projection

end FlatDB
