/-
# Expressions of statements

Statements reach the library already parsed.  Their expressions are column
references, literals, and binary operations; only a few shapes of them have a
meaning in each clause, but all of them can be written back for a message.
-/

import FlatDB.Decimal.Positional
import FlatDB.Text.Numeral

namespace FlatDB

/-- A binary operator. -/
inductive Operator where
  | eq
  | ne
  | lt
  | gt
  | le
  | ge
  | and
  | or
  | add
  | sub
  | mul
  | div
  deriving DecidableEq, Repr

/-- The operator as a statement spells it. -/
def Operator.symbol : Operator → String
  | .eq => "="
  | .ne => "!="
  | .lt => "<"
  | .gt => ">"
  | .le => "<="
  | .ge => ">="
  | .and => "AND"
  | .or => "OR"
  | .add => "+"
  | .sub => "-"
  | .mul => "*"
  | .div => "/"

/-- A comparison between two values of one type. -/
inductive Comparison where
  | eq
  | ne
  | lt
  | le
  | gt
  | ge
  deriving DecidableEq, Repr

/-- The comparison that an operator stands for, if it is one. -/
def Operator.comparison? : Operator → Option Comparison
  | .eq => some .eq
  | .ne => some .ne
  | .lt => some .lt
  | .gt => some .gt
  | .le => some .le
  | .ge => some .ge
  | _ => none

/-- Whether a comparison holds of two values, given how they are ordered. -/
def Comparison.holds : Comparison → Ordering → Bool
  | .eq, o => o.isEq
  | .ne, o => o.isNe
  | .lt, o => o.isLT
  | .le, o => o.isLE
  | .gt, o => o.isGT
  | .ge, o => o.isGE

/-- A literal value. -/
inductive Literal where
  | null
  | integer (n : Int)
  | real (x : Float)
  | text (s : String)

/-- The literal in words, a text between single quotes. -/
def Literal.written : Literal → String
  | .null => "NULL"
  | .integer n => Numeral.ofInt n
  | .real x => Decimal.ofFloat x
  | .text s => "'" ++ s ++ "'"

/-- A reference to a column, with or without its table. -/
structure ColumnRef where
  /-- The table, where it is named. -/
  table : Option String
  /-- The column. -/
  column : String
  deriving DecidableEq, Repr

/-- An expression. -/
inductive Expr where
  | column (ref : ColumnRef)
  | literal (value : Literal)
  | binary (op : Operator) (left right : Expr)

/-- The expression written out, without parentheses. -/
def Expr.written : Expr → String
  | .column ⟨some table, name⟩ => table ++ "." ++ name
  | .column ⟨none, name⟩ => name
  | .literal value => value.written
  | .binary op left right => left.written ++ " " ++ op.symbol ++ " " ++ right.written

end FlatDB
