/-
# JSON documents

The documents the library writes: lists and objects of text, numbers, truth
values and nothing.  An object is a list of members, because the order in which
members are written is part of every document's text.  The compact form has no
spaces at all; the spread form has one element or member on each line, two
spaces deeper than its surroundings.
-/

import FlatDB.Json.Quoted
import FlatDB.Text.Numeral

namespace FlatDB

/-- A JSON document. -/
inductive Json where
  | null
  | bool (b : Bool)
  | number (n : Nat)
  | string (s : String)
  | array (items : List Json)
  | object (members : List (String × Json))

namespace Json

/-- The words for the two truth values. -/
def ofBool (b : Bool) : String := if b then "true" else "false"

mutual

/-- A document without any spaces. -/
def compact : Json → String
  | .null => "null"
  | .bool b => ofBool b
  | .number n => Numeral.ofNat n
  | .string s => Quoted.quote s
  | .array items => "[" ++ ",".intercalate (compactItems items) ++ "]"
  | .object members => "\x7b" ++ ",".intercalate (compactMembers members) ++ "\x7d"

/-- The texts of the elements of a list. -/
def compactItems : List Json → List String
  | [] => []
  | item :: rest => compact item :: compactItems rest

/-- The texts of the members of an object. -/
def compactMembers : List (String × Json) → List String
  | [] => []
  | (name, value) :: rest => (Quoted.quote name ++ ":" ++ compact value) :: compactMembers rest

end

/-- The start of a line at a depth. -/
def indent (depth : Nat) : String :=
  String.ofList ('\n' :: List.replicate (2 * depth) ' ')

/-- Entries between brackets, one on each line; the empty list stays on one line. -/
def block (opening closing : String) (depth : Nat) : List String → String
  | [] => opening ++ closing
  | entries =>
    opening ++ ",".intercalate (entries.map (indent (depth + 1) ++ ·)) ++ indent depth ++ closing

mutual

/-- A document spread over lines, starting at a depth. -/
def spread (depth : Nat) : Json → String
  | .null => "null"
  | .bool b => ofBool b
  | .number n => Numeral.ofNat n
  | .string s => Quoted.quote s
  | .array items => block "[" "]" depth (spreadItems depth items)
  | .object members => block "\x7b" "\x7d" depth (spreadMembers depth members)

/-- The texts of the elements of a list at a depth. -/
def spreadItems (depth : Nat) : List Json → List String
  | [] => []
  | item :: rest => spread (depth + 1) item :: spreadItems depth rest

/-- The texts of the members of an object at a depth. -/
def spreadMembers (depth : Nat) : List (String × Json) → List String
  | [] => []
  | (name, value) :: rest =>
    (Quoted.quote name ++ ": " ++ spread (depth + 1) value) :: spreadMembers depth rest

end

/-- A document spread over lines. -/
def pretty (document : Json) : String :=
  spread 0 document

end Json

end FlatDB
