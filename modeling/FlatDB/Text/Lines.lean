/-
# Lines of a file

A line ends at a newline, and a carriage return directly before that newline
belongs to the ending and not to the line.  What follows the last newline is a
line of its own unless it is empty; it has no ending, so a carriage return at
its end is part of it.

Lines are cut from the bytes first and decoded one by one afterwards, because a
line that is not text must not take the lines before it along.
-/

import FlatDB.Text.Split
import FlatDB.Text.Utf8

namespace FlatDB

namespace Lines

/-- The byte that ends a line. -/
def newline : UInt8 := 10

/-- The byte that may precede a newline. -/
def carriageReturn : UInt8 := 13

/-- Remove one carriage return from the end, if there is one. -/
def dropReturn (line : Bytes) : Bytes :=
  if line.getLast? = some carriageReturn then line.dropLast else line

/-- Turn the pieces between newlines into lines. -/
def ofPieces : List Bytes → List Bytes
  | [] => []
  | [rest] => if rest.isEmpty then [] else [rest]
  | piece :: pieces => dropReturn piece :: ofPieces pieces

/-- The lines of a file, without their endings. -/
def ofBytes (bytes : Bytes) : List Bytes :=
  ofPieces (Split.pieces newline bytes)

@[simp]
theorem ofBytes_nil : ofBytes [] = [] := rfl

/-- A first line that is ended by a newline is read off the front. -/
theorem ofBytes_append_newline {line : Bytes} (h : newline ∉ line) (rest : Bytes) :
    ofBytes (line ++ newline :: rest) = dropReturn line :: ofBytes rest := by
  unfold ofBytes
  rw [Split.pieces_append_cons h]
  cases hp : Split.pieces newline rest with
  | nil => exact absurd hp (Split.pieces_ne_nil _ _)
  | cons p ps => rfl

end Lines

end FlatDB
