/-
# Records as lines

A record is kept on one line of its table's data file: its id and then its
fields, each after a tab.  Inside a field the tab, the two line endings and the
backslash are escaped by a backslash and a letter, so a field can hold any text
and still has neither a tab nor a line ending in it.

Reading a line accepts a little more than writing produces: the id may have a
plus sign or leading zeros, and a carriage return inside a field need not be
escaped.
-/

import FlatDB.Error
import FlatDB.Record.Basic
import FlatDB.Text.Split

namespace FlatDB

/-! ## Fields -/

namespace Field

/-- How one character is written in a field. -/
def escapeChar (c : Char) : List Char :=
  if c = '\\' then ['\\', '\\']
  else if c = '\t' then ['\\', 't']
  else if c = '\n' then ['\\', 'n']
  else if c = '\r' then ['\\', 'r']
  else [c]

/-- A text as it is written in a field. -/
def escape (cs : List Char) : List Char :=
  cs.flatMap escapeChar

/-- The character that a letter after a backslash stands for. -/
def letter? (c : Char) : Option Char :=
  if c = '\\' then some '\\'
  else if c = 't' then some '\t'
  else if c = 'n' then some '\n'
  else if c = 'r' then some '\r'
  else none

/-- The text that a field is written for. -/
def unescape : List Char → Except RecordDamage (List Char)
  | [] => .ok []
  | '\\' :: [] => .error (.unknownEscape none)
  | '\\' :: c :: rest =>
    match letter? c with
    | some meant => return meant :: (← unescape rest)
    | none => .error (.unknownEscape (some c))
  | c :: rest => return c :: (← unescape rest)

/-- Reading undoes writing. -/
@[simp]
theorem unescape_escape (cs : List Char) : unescape (escape cs) = .ok cs := by
  induction cs with
  | nil => rfl
  | cons c cs ih =>
    simp only [escape, List.flatMap_cons] at ih ⊢
    generalize List.flatMap escapeChar cs = written at ih ⊢
    simp only [escapeChar]
    split
    · simp_all [unescape, letter?, bind, Except.bind, pure, Except.pure]
    split
    · simp_all [unescape, letter?, bind, Except.bind, pure, Except.pure]
    split
    · simp_all [unescape, letter?, bind, Except.bind, pure, Except.pure]
    split
    · simp_all [unescape, letter?, bind, Except.bind, pure, Except.pure]
    · simp_all [unescape, bind, Except.bind, pure, Except.pure]

end Field

/-! ## Lines -/

namespace Record

/-- The line of a record, with its newline. -/
def line (id : RecordId) (r : Record) : String :=
  String.ofList ((Numeral.ofUInt64 id).toList ++
    r.fields.flatMap (fun field => '\t' :: Field.escape field.toList) ++ ['\n'])

/-- The id in the first part of a line. -/
def parseId (part : List Char) : Except RecordDamage RecordId :=
  match Numeral.uint64? (String.ofList part) with
  | some id => .ok id
  | none => .error (.notAnId (String.ofList part))

/-- The field in a further part of a line. -/
def parseField (part : List Char) : Except RecordDamage String := do
  return String.ofList (← Field.unescape part)

/-- The id that a line starts with. -/
def idOfLine (line : String) : Except RecordDamage RecordId :=
  parseId ((Split.pieces '\t' line.toList).headD [])

/-- The id and the record on a line, without its newline. -/
def ofLine (line : String) : Except RecordDamage (RecordId × Record) := do
  let parts := Split.pieces '\t' line.toList
  let id ← parseId (parts.headD [])
  return (id, ⟨← parts.tail.mapM parseField⟩)

/-- The id and the record on a line, which must have as many fields as the table
has columns. -/
def ofLineWithArity (arity : Nat) (line : String) : Except RecordDamage (RecordId × Record) := do
  let (id, record) ← ofLine line
  if record.arity = arity then return (id, record)
  else throw (.wrongArity arity record.arity)

end Record

end FlatDB
