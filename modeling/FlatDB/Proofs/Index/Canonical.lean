/-
# Documents of indexes are canonical

An index comes about by operations on the index that holds nothing.  None of them leaves a key
behind that has no ids, and keys and ids are kept in order, so it does not matter by which
operations an index came to hold what it holds: the document tells the column and the pairs of a
key and an id, all of them and nothing else.
-/

import FlatDB.Proofs.Index.Holding
import FlatDB.Proofs.Index.RoundTrip

namespace FlatDB

namespace Index

/-! ## Operations -/

/-- What can be done to an index. -/
inductive Operation where
  | insert (key : Int32) (id : RecordId)
  | erase (key : Int32) (id : RecordId)
  | relocate (old new : Int32) (id : RecordId)
  | clear

/-- The index after an operation. -/
def after (i : Index) : Operation → Index
  | .insert key id => i.insert key id
  | .erase key id => i.erase key id
  | .relocate old new id => i.relocate old new id
  | .clear => i.clear

/-- The index after some operations. -/
def run (i : Index) (operations : List Operation) : Index :=
  operations.foldl after i

@[simp]
theorem column_after (i : Index) (operation : Operation) :
    (i.after operation).column = i.column := by
  cases operation with
  | insert key id => rfl
  | erase key id => exact column_erase i key id
  | relocate old new id =>
      rw [after, relocate]
      split
      · rfl
      · rw [column_insert, column_erase]
  | clear => rfl

@[simp]
theorem column_run (i : Index) (operations : List Operation) :
    (i.run operations).column = i.column := by
  induction operations generalizing i with
  | nil => rfl
  | cons operation operations ih => exact (ih _).trans (column_after i operation)

/-- An operation leaves no key without ids behind. -/
theorem Compact.after {i : Index} (h : i.Compact) (operation : Operation) :
    (i.after operation).Compact := by
  cases operation with
  | insert key id => exact h.insert key id
  | erase key id => exact h.erase key id
  | relocate old new id =>
      rw [Index.after, relocate]
      split
      · exact h
      · exact (h.erase old id).insert new id
  | clear => exact compact_empty i.column i.position

/-- Nor do any operations one after the other. -/
theorem Compact.run {i : Index} (h : i.Compact) (operations : List Operation) :
    (i.run operations).Compact := by
  induction operations generalizing i with
  | nil => exact h
  | cons operation operations ih => exact ih (h.after operation)

/-! ## Documents -/

/-- The document says nothing of where the column is in a record. -/
theorem text_position (i : Index) (position : Nat) : ({ i with position } : Index).text = i.text :=
  rfl

/-- Indexes without idle keys have the same document just if they are of one column and hold the
same. -/
theorem text_eq_iff {i j : Index} (hi : i.Compact) (hj : j.Compact) :
    i.text = j.text ↔ i.column = j.column ∧ ∀ key id, i.holds key id = j.holds key id := by
  constructor
  · intro same
    have read := ofBytes?_text 0 i
    rw [same, ofBytes?_text 0 j, Option.some.injEq, Index.mk.injEq] at read
    obtain ⟨column, -, buckets⟩ := read
    refine ⟨column.symm, fun key id => ?_⟩
    rw [holds, holds, lookup?, lookup?, buckets]
  · rintro ⟨column, holds⟩
    have same : ({ i with position := 0 } : Index) = { j with position := 0 } :=
      ext_of_holds hi hj column rfl holds
    rw [← text_position i 0, same, text_position]

/-- An index is read back from its document, whatever operations it came about by.  Two of them
have the same document just if they are of one column and hold the same ids under the same keys,
even if they came about by different operations. -/
theorem text_canonical (column column' : String) (position position' : Nat)
    (operations operations' : List Operation) :
    let i := (empty column position).run operations
    let j := (empty column' position').run operations'
    (∀ place, ofBytes? place (Utf8.encode i.text) = some ⟨column, place, i.buckets⟩) ∧
      (i.text = j.text ↔ column = column' ∧ ∀ key id, i.holds key id = j.holds key id) := by
  intro i j
  have columns : i.column = column ∧ j.column = column' := ⟨column_run _ _, column_run _ _⟩
  have compact : i.Compact ∧ j.Compact :=
    ⟨(compact_empty _ _).run operations, (compact_empty _ _).run operations'⟩
  constructor
  · intro place
    rw [ofBytes?_text, columns.1]
  · rw [text_eq_iff compact.1 compact.2, columns.1, columns.2]

/-- Going back and forth leaves no trace, and the name of the column may need escapes. -/
example :
    let name := "\"a\\\n\u00e9"
    ((empty name 0).run [.insert (-5) 1, .relocate (-5) 3 1, .insert 7 2, .erase 7 2]).text =
      ((empty name 4).run [.insert 3 1]).text := by
  rfl

end Index

end FlatDB
