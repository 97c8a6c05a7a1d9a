/-
# Values for columns

A literal is stored in a column as a text that depends on the column's type.
Integers must fit 32 bits and are stored as their shortest numeral, texts must
not be longer than the column admits, and dates must be dates in their written
form.  Everything else does not fit the column, null included.
-/

import FlatDB.Date
import FlatDB.Query.Expr
import FlatDB.Schema.Definition

namespace FlatDB

namespace Column

/-- Whether a literal is of the kind that the column holds, whatever its size
and form. -/
def admitsKind (c : Column) : Literal → Bool
  | .integer _ => c.type = .int
  | .text _ => c.type.isTextual
  | _ => false

/-- The literal of an expression that must be one. -/
def literal (table : String) (c : Column) : Expr → Except Error Literal
  | .literal value => .ok value
  | _ => .error (.typeMismatch table c.name)

/-- The text under which a literal is stored in the column. -/
def storedText (table : String) (c : Column) (value : Literal) : Except Error String :=
  match c.type, value with
  | .int, .integer n =>
    match Numeral.int32OfInt? n with
    | some v => .ok (Numeral.ofInt32 v)
    | none => .error (.valueTooLarge table c.name)
  | .char bound, .text s =>
    if s.utf8ByteSize ≤ bound then .ok s else .error (.valueTooLarge table c.name)
  | .date, .text s =>
    if (Date.parse? s).isSome then .ok s else .error (.invalidDate table c.name s)
  | _, _ => .error (.typeMismatch table c.name)

/-- The text under which the value of an expression is stored in the column. -/
def storedValue (table : String) (c : Column) (value : Expr) : Except Error String := do
  c.storedText table (← c.literal table value)

end Column

end FlatDB
