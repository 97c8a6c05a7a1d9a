/-
# Records

A record is a sequence of fields, each kept as the text it is stored as.  It is
known by an id that is handed out once and never changes.
-/

import FlatDB.Json.Value

namespace FlatDB

/-- What a record is known by. -/
abbrev RecordId := UInt64

/-- One stored row. -/
structure Record where
  /-- The texts of the fields, in the order of the columns. -/
  fields : List String
  deriving DecidableEq, Repr

namespace Record

/-- The field at a position. -/
def get? (r : Record) (position : Nat) : Option String :=
  r.fields[position]?

/-- The record with another text at a position; the same record if it has no
such position. -/
def set (r : Record) (position : Nat) (text : String) : Record :=
  ⟨r.fields.set position text⟩

/-- The number of fields. -/
def arity (r : Record) : Nat :=
  r.fields.length

/-- The record in words. -/
def written (r : Record) : String :=
  "(" ++ ", ".intercalate r.fields ++ ")"

/-- The record as a document. -/
def toJson (r : Record) : Json :=
  .object [("values", .array (r.fields.map .string))]

@[simp]
theorem arity_set (r : Record) (position : Nat) (text : String) :
    (r.set position text).arity = r.arity := by
  simp [set, arity]

end Record

end FlatDB
