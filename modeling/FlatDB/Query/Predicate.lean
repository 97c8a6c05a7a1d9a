/-
# Predicates

A filter compares one column with one literal.  It is checked against the
table's definition once, and becomes a predicate whose operand is a value of the
column's type; after that, testing a record cannot fail.  Integers are compared
as numbers, texts by their bytes, and dates in time.  A stored text that is not
a value of the column's type satisfies no comparison at all.
-/

import FlatDB.Query.Value
import FlatDB.Record.Basic

namespace FlatDB

/-- A value to compare with, of the type of the column. -/
inductive Operand where
  | int (n : Int32)
  | char (s : String)
  | date (d : Date)
  deriving DecidableEq

namespace Operand

/-- The value that a literal stands for in a comparison with a column.  A text
may be longer than the column admits. -/
def ofLiteral (table : String) (c : Column) (value : Literal) : Except Error Operand :=
  match c.type, value with
  | .int, .integer n =>
    match Numeral.int32OfInt? n with
    | some v => .ok (.int v)
    | none => .error (.valueTooLarge table c.name)
  | .char _, .text s => .ok (.char s)
  | .date, .text s =>
    match Date.parse? s with
    | some d => .ok (.date d)
    | none => .error (.invalidDate table c.name s)
  | _, _ => .error (.typeMismatch table c.name)

/-- How the value of a stored text is ordered against the operand, if the text
has a value of the operand's type. -/
def order? : Operand → String → Option Ordering
  | .int n, text => (Numeral.int32? text).map fun v => compare v n
  | .char s, text => some (compare text s)
  | .date d, text => (Date.parse? text).map fun v => compare v d

end Operand

/-- A checked comparison of a column with a value. -/
structure Predicate where
  /-- The column. -/
  column : String
  /-- The place of the column in a record. -/
  position : Nat
  /-- How the column is compared. -/
  comparison : Comparison
  /-- What the column is compared with. -/
  operand : Operand
  deriving DecidableEq

namespace Predicate

/-- Check a filter.  Of several faults the leftmost is reported, except that the
column is looked up before the operator is looked at. -/
def ofExpr (d : Definition) : Expr → Except Error Predicate
  | .binary op (.column ref) right => do
    let column ← d.column ref.column
    match op.comparison? with
    | none => throw (.unknownOperator op.symbol)
    | some comparison =>
      let operand ← Operand.ofLiteral d.name column (← column.literal d.name right)
      return ⟨column.name, column.position, comparison, operand⟩
  | .binary _ left _ => .error (.notAColumn left.written)
  | expr => .error (.notAColumn expr.written)

/-- Check a filter that may be absent. -/
def ofFilter (d : Definition) : Option Expr → Except Error (Option Predicate)
  | none => .ok none
  | some expr => return some (← ofExpr d expr)

/-- The key that all accepted records have, if the predicate asks an integer
column for one value. -/
def key? (p : Predicate) : Option Int32 :=
  match p.comparison, p.operand with
  | .eq, .int n => some n
  | _, _ => none

/-- Whether a stored text satisfies the comparison. -/
def acceptsText (p : Predicate) (text : String) : Bool :=
  match p.operand.order? text with
  | some ordering => p.comparison.holds ordering
  | none => false

/-- Whether a record satisfies the predicate. -/
def accepts (p : Predicate) (record : Record) : Bool :=
  match record.get? p.position with
  | some text => p.acceptsText text
  | none => false

/-- Whether a record satisfies a predicate that may be absent. -/
def acceptedBy (p : Option Predicate) (record : Record) : Bool :=
  match p with
  | some p => p.accepts record
  | none => true

end Predicate

end FlatDB
