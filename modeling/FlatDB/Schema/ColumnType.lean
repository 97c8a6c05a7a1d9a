/-
# Column types

A column holds 32-bit integers, texts of bounded length, or calendar dates.
Besides its name a type has a width, which only serves to report the size of a
record, and a tag and a length under which it is kept in a table's header.
-/

import FlatDB.Text.Numeral

namespace FlatDB

/-- What a column can hold. -/
inductive ColumnType where
  /-- A 32-bit integer. -/
  | int
  /-- A text of at most `bound` bytes. -/
  | char (bound : Nat)
  /-- A calendar date. -/
  | date
  deriving DecidableEq, Repr

namespace ColumnType

/-- The nominal width of a value in bytes. -/
def width : ColumnType → Nat
  | .int => 4
  | .char bound => bound
  | .date => 8

/-- The tag of the type in a table's header. -/
def tag : ColumnType → Nat
  | .int => 1
  | .char _ => 4
  | .date => 7

/-- The length kept beside the tag; zero where it means nothing. -/
def length : ColumnType → Nat
  | .char bound => bound
  | _ => 0

/-- The type with a tag and length. -/
def ofTag? (tag length : Nat) : Option ColumnType :=
  match tag with
  | 1 => some .int
  | 4 => some (.char length)
  | 7 => some .date
  | _ => none

/-- Whether values of the type are written as texts in statements. -/
def isTextual : ColumnType → Bool
  | .int => false
  | _ => true

/-- The type as a statement spells it. -/
def name : ColumnType → String
  | .int => "INT"
  | .char bound => "CHAR(" ++ Numeral.ofNat bound ++ ")"
  | .date => "DATE"

/-- Tag and length determine the type. -/
@[simp]
theorem ofTag?_tag_length (t : ColumnType) : ofTag? t.tag t.length = some t := by
  cases t <;> rfl

end ColumnType

end FlatDB
