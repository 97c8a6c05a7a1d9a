/-
# Table headers

The definition of a table is kept in a small text file.  Its first line holds
the table's name, the number of columns and the nominal record size; one line
for each column follows, with the column's name, the tag and length of its type
and a flag that says whether it is nullable.  Fields are separated by tabs.

Reading checks the name before anything else, because a header of another table
is no worse for being damaged besides.  Lines after the announced columns are
not looked at.
-/

import FlatDB.Disk.Source
import FlatDB.Schema.Definition
import FlatDB.Text.Blank

namespace FlatDB

namespace Header

/-- Fields on one line. -/
def line (fields : List String) : String :=
  "\t".intercalate fields ++ "\n"

/-- The line of a column. -/
def ofColumn (c : Column) : String :=
  line [c.name, Numeral.ofNat c.type.tag, Numeral.ofNat c.type.length, if c.nullable then "1" else "0"]

/-- The header of a table. -/
def ofDef (d : Definition) : String :=
  line [d.name, Numeral.ofNat d.schema.arity, Numeral.ofNat d.recordSize] ++
    String.join (d.schema.columns.map ofColumn)

/-- The fields of a line. -/
def fields (line : String) : List String :=
  (Split.pieces '\t' line.toList).map String.ofList

/-- The number below `bound` in a field, which may have blanks around it. -/
def number (bound : Nat) (field text : String) : Except HeaderDamage Nat :=
  match Numeral.natBelow? bound (Blank.trim text) with
  | some n => .ok n
  | none => .error (.notANumber field text)

/-- The flag in a field. -/
def flag (text : String) : Except HeaderDamage Bool :=
  if text = "1" then .ok true
  else if text = "0" then .ok false
  else .error (.notAFlag text)

/-- Read the line of a column. -/
def column (line : String) : Except HeaderDamage Declaration :=
  match fields line with
  | [name, tag, length, nullable] => do
    let tag ← number UInt8.size "type code" tag
    let length ← number UInt64.size "column length" length
    match ColumnType.ofTag? tag length with
    | some type => return ⟨name, type, ← flag nullable⟩
    | none => throw (.unknownType tag name)
  | _ => .error (.malformedColumn line)

/-- Read the lines of as many columns as are missing. -/
def columns : (missing : Nat) → Nat → Schema → List (Except Fault String) →
    Except HeaderDamage Schema
  | 0, _, schema, _ => .ok schema
  | _ + 1, position, _, [] => .error (.missingColumn position)
  | _ + 1, _, _, .error fault :: _ => .error (.unreachable fault)
  | missing + 1, position, schema, .ok line :: rest => do
    columns missing (position + 1) (schema.add (← column line)) rest

/-- Say of which table a header is damaged. -/
def ofTable {α : Type} (table : String) : Except HeaderDamage α → Except Error α
  | .ok a => .ok a
  | .error damage => .error (.unreadableHeader table damage)

/-- Read the header of a table from its lines. -/
def parse (table : String) (lines : List (Except Fault String)) : Except Error Definition :=
  match lines with
  | [] => .error (.unreadableHeader table .empty)
  | .error fault :: _ => .error (.unreadableHeader table (.unreachable fault))
  | .ok first :: rest =>
    match fields first with
    | [name, count, size] =>
      if name = table then ofTable table do
        let count ← number UInt64.size "column count" count
        let size ← number UInt64.size "record size" size
        return ⟨name, ← columns count 0 .empty rest, size⟩
      else .error (.foreignHeader table name)
    | _ => .error (.unreadableHeader table (.malformedHeader first))

end Header

end FlatDB
