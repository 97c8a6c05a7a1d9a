/-
# Indexes

An index of a column says for every value which records hold it.  It is a
finite relation between keys and ids, kept as a map from keys to sets of ids.
Every operation keeps the sets non-empty, so a key that is in the map is held by
some record; only an index read from elsewhere can have it otherwise.
-/

import FlatDB.Record.Entries

namespace FlatDB

/-- The ids of the records for each value of an indexed column. -/
abbrev Buckets := Std.ExtTreeMap Int32 IdSet

/-- The index of one column. -/
structure Index where
  /-- The indexed column. -/
  column : String
  /-- The place of the column in a record. -/
  position : Nat
  /-- The ids for each key. -/
  buckets : Buckets
  deriving DecidableEq

namespace Index

/-- The index of a column that no record has a value of. -/
def empty (column : String) (position : Nat) : Index :=
  ⟨column, position, ∅⟩

/-- The ids under a key, if there are any. -/
def lookup? (i : Index) (key : Int32) : Option IdSet :=
  i.buckets[key]?

/-- Whether an id is under a key. -/
def holds (i : Index) (key : Int32) (id : RecordId) : Bool :=
  match i.lookup? key with
  | some ids => ids.contains id
  | none => false

/-- The number of pairs of a key and an id. -/
def size (i : Index) : Nat :=
  i.buckets.toList.foldr (fun bucket size => bucket.2.size + size) 0

/-- Whether there is no key at all. -/
def isEmpty (i : Index) : Bool :=
  i.buckets.isEmpty

/-- Put an id under a key. -/
def insert (i : Index) (key : Int32) (id : RecordId) : Index :=
  { i with buckets := i.buckets.insert key (((i.lookup? key).getD ∅).insert id) }

/-- Take an id away from under a key, and the key with its last id. -/
def erase (i : Index) (key : Int32) (id : RecordId) : Index :=
  match i.lookup? key with
  | none => i
  | some ids =>
    let rest := ids.erase id
    if rest.isEmpty then { i with buckets := i.buckets.erase key }
    else { i with buckets := i.buckets.insert key rest }

/-- Take an id away from under a key, and say whether it was there. -/
def remove (i : Index) (key : Int32) (id : RecordId) : Bool × Index :=
  match i.lookup? key with
  | none => (false, i)
  | some ids => (ids.contains id, i.erase key id)

/-- Move an id from one key to another, whether or not it was there; nothing
happens if the keys are the same. -/
def relocate (i : Index) (old new : Int32) (id : RecordId) : Index :=
  if old = new then i else (i.erase old id).insert new id

/-- Take everything away. -/
def clear (i : Index) : Index :=
  { i with buckets := ∅ }

/-! ## What an index holds

The operations on indexes are those on sets of pairs.
-/

@[simp]
theorem lookup?_empty (column : String) (position : Nat) (key : Int32) :
    (empty column position).lookup? key = none := by
  simp [empty, lookup?]

@[simp]
theorem holds_empty (column : String) (position : Nat) (key : Int32) (id : RecordId) :
    (empty column position).holds key id = false := by
  simp [holds]

theorem lookup?_insert (i : Index) (key : Int32) (id : RecordId) (k : Int32) :
    (i.insert key id).lookup? k =
      if key = k then some (((i.lookup? key).getD ∅).insert id) else i.lookup? k := by
  simp [insert, lookup?, Std.ExtTreeMap.getElem?_insert]

/-- Inserting adds the pair. -/
theorem holds_insert (i : Index) (key : Int32) (id : RecordId) (k : Int32) (n : RecordId) :
    (i.insert key id).holds k n = (decide (key = k ∧ id = n) || i.holds k n) := by
  unfold holds
  rw [lookup?_insert]
  by_cases hk : key = k
  · subst hk
    by_cases hn : id = n
    · simp [hn]
    · cases h : i.lookup? key with
      | none => simp [Std.ExtTreeSet.contains_insert, hn]
      | some ids => simp [Std.ExtTreeSet.contains_insert, hn]
  · simp [hk]

theorem lookup?_erase (i : Index) (key : Int32) (id : RecordId) (k : Int32) :
    (i.erase key id).lookup? k =
      if key = k then
        match i.lookup? key with
        | none => none
        | some ids => if (ids.erase id).isEmpty then none else some (ids.erase id)
      else i.lookup? k := by
  unfold erase
  by_cases hk : key = k
  · subst hk
    cases h : i.lookup? key with
    | none => simp [h]
    | some ids =>
      by_cases he : (ids.erase id).isEmpty = true
      · simp [he, lookup?]
      · simp [he, lookup?]
  · cases h : i.lookup? key with
    | none => simp [hk]
    | some ids =>
      by_cases he : (ids.erase id).isEmpty = true
      · simp [he, hk, lookup?, Std.ExtTreeMap.getElem?_erase]
      · simp [he, hk, lookup?, Std.ExtTreeMap.getElem?_insert]

/-- Erasing removes the pair. -/
theorem holds_erase (i : Index) (key : Int32) (id : RecordId) (k : Int32) (n : RecordId) :
    (i.erase key id).holds k n = (!decide (key = k ∧ id = n) && i.holds k n) := by
  unfold holds
  rw [lookup?_erase]
  by_cases hk : key = k
  · subst hk
    cases h : i.lookup? key with
    | none => simp
    | some ids =>
      have hc : (ids.erase id).contains n = (!decide (id = n) && ids.contains n) := by
        by_cases hn : id = n
        · simp [Std.ExtTreeSet.contains_erase, hn]
        · simp [Std.ExtTreeSet.contains_erase, hn]
      by_cases he : (ids.erase id).isEmpty = true
      · have hn : (ids.erase id).contains n = false := by
          rw [Std.ExtTreeSet.isEmpty_iff.1 he]
          simp
        simp [he, ← hc, hn]
      · simp [he, hc]
  · simp [hk]

/-- Removing tells whether the pair was there. -/
theorem remove_eq (i : Index) (key : Int32) (id : RecordId) :
    i.remove key id = (i.holds key id, i.erase key id) := by
  unfold remove holds
  cases h : i.lookup? key with
  | none => simp [erase, h]
  | some ids => rfl

/-! ## Keys of records -/

/-- The key that a stored text stands for. -/
def parseKey (table column text : String) : Except Error Int32 :=
  match Numeral.int32? text with
  | some key => .ok key
  | none => .error (.damagedIndex table column (.notAnInt text))

/-- The key under which a record belongs. -/
def keyOf (i : Index) (table : String) (record : Record) : Except Error Int32 :=
  parseKey table i.column ((record.get? i.position).getD "")

/-- Put a record under its key. -/
def insertRecord (table : String) (i : Index) (s : Stored) : Except Error Index := do
  return i.insert (← i.keyOf table s.2) s.1

/-- Take a record away from under its key. -/
def eraseRecord (table : String) (i : Index) (s : Stored) : Except Error Index := do
  return i.erase (← i.keyOf table s.2) s.1

/-- Put the record of an entry under its key. -/
def insertEntry (table : String) (i : Index) (entry : Except Error Stored) :
    Except Error Index := do
  i.insertRecord table (← entry)

/-- The index of the records of a data file. -/
def build (table column : String) (position : Nat) (entries : List (Except Error Stored)) :
    Except Error Index :=
  entries.foldlM (insertEntry table) (empty column position)

end Index

end FlatDB
