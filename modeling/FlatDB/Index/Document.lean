/-
# Indexes as documents

An index is kept as a JSON document that names its column and lists, for each
key, the ids under it.  Keys are written in order, and so are the ids, so two
indexes of a column have the same document exactly if they hold the same.

Reading is lenient about form and strict about content.  The document may be an
object, with further members that are skipped, or just a list of its two parts.
A key must be the plain numeral of a 32-bit number and an id that of an unsigned
64-bit number.  If a key occurs twice, its last occurrence counts; if one of the
two parts occurs twice or not at all, there is no index.
-/

import FlatDB.Index.Basic
import FlatDB.Json.Tree

namespace FlatDB

namespace Index

/-! ## Writing -/

/-- The ids under a key as a document. -/
def idsToJson (ids : IdSet) : Json :=
  .array (ids.toList.map fun id => .number id.toNat)

/-- The index as a document. -/
def toJson (i : Index) : Json :=
  .object [("column", .string i.column),
    ("buckets", .object (i.buckets.toList.map fun (key, ids) =>
      (Numeral.ofInt32 key, idsToJson ids)))]

/-- The text of the document. -/
def text (i : Index) : String :=
  i.toJson.compact

/-! ## Reading -/

/-- The characters that bytes stand for one by one, which for numerals is all
there is to decoding them. -/
def characters (bytes : Bytes) : List Char :=
  bytes.map fun b => Char.ofNat b.toNat

/-- Read an id. -/
def idOfTree? : Json.Tree → Option RecordId
  | .number digits =>
    match Json.Tree.integer? digits with
    | some (.ofNat n) => if n < UInt64.size then some (UInt64.ofNat n) else none
    | _ => none
  | _ => none

/-- Read the ids under a key. -/
def idsOfTree? : Json.Tree → Option IdSet
  | .array items => do
    return (← items.mapM idOfTree?).foldl (fun ids id => ids.insert id) ∅
  | _ => none

/-- Read a key. -/
def keyOfName? (name : Bytes) : Option Int32 :=
  (Json.Tree.integer? (characters name)).bind Numeral.int32OfInt?

/-- Read one key with its ids. -/
def bucketOfMember? (member : Bytes × Json.Tree) : Option (Int32 × IdSet) := do
  return (← keyOfName? member.1, ← idsOfTree? member.2)

/-- Read all keys with their ids. -/
def bucketsOfTree? : Json.Tree → Option Buckets
  | .object members => do
    let buckets ← members.mapM bucketOfMember?
    return buckets.foldl (fun all bucket => all.insert bucket.1 bucket.2) ∅
  | _ => none

/-- The values of the members with a name. -/
def membersNamed (name : String) (members : List (String × Json.Tree)) : List Json.Tree :=
  members.filterMap fun (n, value) => if n = name then some value else none

/-- The member with a name, which must occur once. -/
def theMember? (name : String) (members : List (String × Json.Tree)) : Option Json.Tree :=
  match membersNamed name members with
  | [value] => some value
  | _ => none

/-- Read the name of a member. -/
def nameOfMember? (member : Bytes × Json.Tree) : Option (String × Json.Tree) := do
  return (← Json.Quoted.unquote? member.1, member.2)

/-- Read an index of the column at a position. -/
def ofTree? (position : Nat) : Json.Tree → Option Index
  | .array [column, buckets] => do
    return ⟨← column.text?, position, ← bucketsOfTree? buckets⟩
  | .object members => do
    let members ← members.mapM nameOfMember?
    let column ← (← theMember? "column" members).text?
    let buckets ← bucketsOfTree? (← theMember? "buckets" members)
    return ⟨column, position, buckets⟩
  | _ => none

/-- Read the document of an index. -/
def ofBytes? (position : Nat) (bytes : Bytes) : Option Index :=
  (Json.Tree.ofBytes? bytes).bind (ofTree? position)

end Index

end FlatDB
