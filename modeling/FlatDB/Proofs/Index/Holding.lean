/-
# Indexes of stored records

The index of a column is determined by the records it is made from: it holds an
id under a key exactly if the record with that id has the key in the column.
Since no key is kept without an id, holding the same is being the same, so every
way of keeping an index up to date can be compared with making it anew: entering
one more record, moving one to another key, taking one out, and doing any of this
to many records after each other all lead to the index of the records there are
afterwards.
-/

import FlatDB.Index.Basic
import FlatDB.Proofs.Result
import FlatDB.Schema.Definition
import Mathlib.Data.List.Induction

namespace FlatDB

/-- The key that a record has at a position, if there is one. -/
def Record.key? (r : Record) (position : Nat) : Option Int32 :=
  (r.get? position).bind Numeral.int32?

namespace Index

/-- Put a record under its key, if it has one. -/
def enter (i : Index) (s : Stored) : Index :=
  match s.2.key? i.position with
  | some key => i.insert key s.1
  | none => i

/-- The index of a column of stored records. -/
def ofStored (c : Column) (stored : List Stored) : Index :=
  stored.foldl enter (empty c.name c.position)

/-! ## What is kept of an index -/

@[simp]
theorem column_insert (i : Index) (key : Int32) (id : RecordId) :
    (i.insert key id).column = i.column := rfl

@[simp]
theorem position_insert (i : Index) (key : Int32) (id : RecordId) :
    (i.insert key id).position = i.position := rfl

@[simp]
theorem column_erase (i : Index) (key : Int32) (id : RecordId) :
    (i.erase key id).column = i.column := by
  rw [erase]
  cases i.lookup? key with
  | none => rfl
  | some ids => dsimp only; split <;> rfl

@[simp]
theorem position_erase (i : Index) (key : Int32) (id : RecordId) :
    (i.erase key id).position = i.position := by
  rw [erase]
  cases i.lookup? key with
  | none => rfl
  | some ids => dsimp only; split <;> rfl

@[simp]
theorem column_enter (i : Index) (s : Stored) : (i.enter s).column = i.column := by
  rw [enter]
  cases s.2.key? i.position <;> rfl

@[simp]
theorem position_enter (i : Index) (s : Stored) : (i.enter s).position = i.position := by
  rw [enter]
  cases s.2.key? i.position <;> rfl

theorem ofStored_nil (c : Column) : ofStored c [] = empty c.name c.position := rfl

theorem ofStored_concat (c : Column) (stored : List Stored) (s : Stored) :
    ofStored c (stored ++ [s]) = (ofStored c stored).enter s := by
  rw [ofStored, List.foldl_append]
  rfl

@[simp]
theorem column_ofStored (c : Column) (stored : List Stored) :
    (ofStored c stored).column = c.name := by
  induction stored using List.reverseRecOn with
  | nil => rfl
  | append_singleton stored s ih => rw [ofStored_concat, column_enter, ih]

@[simp]
theorem position_ofStored (c : Column) (stored : List Stored) :
    (ofStored c stored).position = c.position := by
  induction stored using List.reverseRecOn with
  | nil => rfl
  | append_singleton stored s ih => rw [ofStored_concat, position_enter, ih]

/-! ## Indexes are determined by what they hold -/

/-- Whether every key has an id under it. -/
def Compact (i : Index) : Prop :=
  ∀ key ids, i.lookup? key = some ids → ∃ id, id ∈ ids

theorem compact_empty (column : String) (position : Nat) : Compact (empty column position) := by
  intro key ids found
  simp at found

/-- An inserted id is there, and the other keys keep theirs. -/
theorem Compact.insert {i : Index} (h : i.Compact) (key : Int32) (id : RecordId) :
    (i.insert key id).Compact := by
  intro k ids found
  rw [lookup?_insert] at found
  split at found
  · cases found
    exact ⟨id, Std.ExtTreeSet.mem_insert_self⟩
  · exact h k ids found

/-- A key that lost its last id is gone. -/
theorem Compact.erase {i : Index} (h : i.Compact) (key : Int32) (id : RecordId) :
    (i.erase key id).Compact := by
  intro k ids found
  rw [lookup?_erase] at found
  by_cases here : key = k
  · rw [if_pos here] at found
    cases before : i.lookup? key with
    | none => simp [before] at found
    | some old =>
        by_cases last : (old.erase id).isEmpty = true
        · simp [before, last] at found
        · simp only [before, last, Bool.false_eq_true, if_false, Option.some.injEq] at found
          rw [← found]
          by_contra none
          rw [not_exists] at none
          have rest : old.erase id = ∅ := Std.ExtTreeSet.ext_mem fun {n} => by simpa using none n
          exact last (Std.ExtTreeSet.isEmpty_iff.2 rest)
  · rw [if_neg here] at found
    exact h k ids found

theorem Compact.enter {i : Index} (h : i.Compact) (s : Stored) : (i.enter s).Compact := by
  rw [Index.enter]
  cases s.2.key? i.position with
  | none => exact h
  | some key => exact h.insert key s.1

theorem compact_ofStored (c : Column) (stored : List Stored) : (ofStored c stored).Compact := by
  induction stored using List.reverseRecOn with
  | nil => exact compact_empty c.name c.position
  | append_singleton stored s ih =>
      rw [ofStored_concat]
      exact ih.enter s

/-- An id is under a key if the set there has it. -/
theorem holds_eq_true_iff {i : Index} {key : Int32} {id : RecordId} :
    i.holds key id = true ↔ ∃ ids, i.lookup? key = some ids ∧ id ∈ ids := by
  rw [holds]
  cases i.lookup? key with
  | none => simp
  | some ids => simp [Std.ExtTreeSet.contains_iff_mem]

/-- Two indexes of a column that hold the same are the same. -/
theorem ext_of_holds {i j : Index} (hi : i.Compact) (hj : j.Compact) (column : i.column = j.column)
    (position : i.position = j.position) (holds : ∀ key id, i.holds key id = j.holds key id) :
    i = j := by
  have under (key : Int32) : i.lookup? key = j.lookup? key := by
    have same (id : RecordId) :
        (∃ ids, i.lookup? key = some ids ∧ id ∈ ids) ↔ ∃ ids, j.lookup? key = some ids ∧
          id ∈ ids := by
      rw [← holds_eq_true_iff, ← holds_eq_true_iff, holds]
    cases fi : i.lookup? key with
    | none =>
        cases fj : j.lookup? key with
        | none => rfl
        | some ids =>
            obtain ⟨id, mem⟩ := hj key ids fj
            obtain ⟨_, found, _⟩ := (same id).2 ⟨ids, fj, mem⟩
            simp [fi] at found
    | some ids =>
        cases fj : j.lookup? key with
        | none =>
            obtain ⟨id, mem⟩ := hi key ids fi
            obtain ⟨_, found, _⟩ := (same id).1 ⟨ids, fi, mem⟩
            simp [fj] at found
        | some ids' =>
            congr 1
            apply Std.ExtTreeSet.ext_mem
            intro id
            simpa [fi, fj] using same id
  obtain ⟨ci, pi, bi⟩ := i
  obtain ⟨cj, pj, bj⟩ := j
  have buckets : bi = bj := Std.ExtTreeMap.ext_getElem? fun {key} => under key
  cases column
  cases position
  rw [buckets]

/-! ## What the index of stored records holds -/

theorem holds_enter (i : Index) (s : Stored) (key : Int32) (id : RecordId) :
    (i.enter s).holds key id = true ↔
      (s.1 = id ∧ s.2.key? i.position = some key) ∨ i.holds key id = true := by
  rw [enter]
  cases s.2.key? i.position with
  | none => simp
  | some k => simp [holds_insert, and_comm]

/-- An id is under a key exactly if a record with that id has the key. -/
theorem holds_ofStored {c : Column} {stored : List Stored} {key : Int32} {id : RecordId} :
    (ofStored c stored).holds key id = true ↔
      ∃ s ∈ stored, s.1 = id ∧ s.2.key? c.position = some key := by
  induction stored using List.reverseRecOn with
  | nil => simp [ofStored_nil]
  | append_singleton stored s ih =>
      rw [ofStored_concat, holds_enter, ih, position_ofStored]
      simp only [List.mem_append, List.mem_singleton, or_and_right, exists_or, exists_eq_left]
      exact or_comm

/-- There are ids under a key exactly if a record has it, and they are those of
the records that do. -/
theorem lookup?_ofStored (c : Column) (stored : List Stored) (key : Int32) :
    match (ofStored c stored).lookup? key with
    | some ids => (∃ id, id ∈ ids) ∧
        ∀ id, id ∈ ids ↔ ∃ s ∈ stored, s.1 = id ∧ s.2.key? c.position = some key
    | none => ∀ s ∈ stored, s.2.key? c.position ≠ some key := by
  cases found : (ofStored c stored).lookup? key with
  | some ids =>
      refine ⟨compact_ofStored c stored key ids found, fun id => ?_⟩
      rw [← holds_ofStored, holds_eq_true_iff]
      simp [found]
  | none =>
      intro s mem has
      have held : (ofStored c stored).holds key s.1 = true :=
        holds_ofStored.2 ⟨s, mem, rfl, has⟩
      simp [holds, found] at held

/-- An index that holds what the index of stored records holds is that index. -/
theorem eq_ofStored {i : Index} {c : Column} {stored : List Stored} (compact : i.Compact)
    (column : i.column = c.name) (position : i.position = c.position)
    (holds : ∀ key id, i.holds key id = true ↔
      ∃ s ∈ stored, s.1 = id ∧ s.2.key? c.position = some key) :
    i = ofStored c stored := by
  apply ext_of_holds compact (compact_ofStored c stored) (by simp [column]) (by simp [position])
  intro key id
  rw [Bool.eq_iff_iff, holds, holds_ofStored]

/-- Records that have the same keys have the same index. -/
theorem ofStored_map {c : Column} {stored : List Stored} {f : Stored → Stored}
    (id : ∀ s ∈ stored, (f s).1 = s.1)
    (key : ∀ s ∈ stored, (f s).2.key? c.position = s.2.key? c.position) :
    ofStored c (stored.map f) = ofStored c stored := by
  apply eq_ofStored (compact_ofStored _ _) (by simp) (by simp)
  intro k n
  rw [holds_ofStored]
  constructor
  · rintro ⟨_, mem, rfl, has⟩
    obtain ⟨s, hs, rfl⟩ := List.mem_map.1 mem
    exact ⟨s, hs, (id s hs).symm, key s hs ▸ has⟩
  · rintro ⟨s, mem, rfl, has⟩
    exact ⟨f s, List.mem_map_of_mem mem, id s mem, (key s mem).trans has⟩

@[simp]
theorem clear_ofStored (c : Column) (stored : List Stored) :
    (ofStored c stored).clear = ofStored c [] := by
  show (⟨_, _, ∅⟩ : Index) = ⟨_, _, ∅⟩
  rw [column_ofStored, position_ofStored]

/-! ## One record -/

variable {c : Column} {front back : List Stored} {s s' : Stored}

theorem mem_middle {r : Stored} : r ∈ front ++ s :: back ↔ r = s ∨ r ∈ front ++ back := by
  rw [List.mem_append, List.mem_cons, List.mem_append, or_left_comm]

/-- An id that occurs once is not that of another record. -/
theorem ne_of_distinct (distinct : ((front ++ s :: back).map Prod.fst).Nodup) :
    ∀ r ∈ front ++ back, r.1 ≠ s.1 := by
  intro r mem e
  rw [List.map_append, List.map_cons] at distinct
  have once := (List.perm_middle.nodup_iff.1 distinct)
  rw [List.nodup_cons, ← List.map_append] at once
  exact once.1 (e ▸ List.mem_map_of_mem mem)

/-- Taking a record out leaves the index of the others. -/
theorem erase_ofStored (distinct : ((front ++ s :: back).map Prod.fst).Nodup) {key : Int32}
    (has : s.2.key? c.position = some key) :
    (ofStored c (front ++ s :: back)).erase key s.1 = ofStored c (front ++ back) := by
  have others := ne_of_distinct distinct
  apply eq_ofStored ((compact_ofStored _ _).erase _ _) (by simp) (by simp)
  intro k n
  rw [holds_erase, Bool.and_eq_true, holds_ofStored, Bool.not_eq_true', decide_eq_false_iff_not]
  constructor
  · rintro ⟨away, r, mem, rfl, hr⟩
    rcases mem_middle.1 mem with rfl | mem
    · exact absurd ⟨Option.some.inj (has.symm.trans hr), rfl⟩ away
    · exact ⟨r, mem, rfl, hr⟩
  · rintro ⟨r, mem, rfl, hr⟩
    exact ⟨fun here => others r mem here.2.symm, r, mem_middle.2 (.inr mem), rfl, hr⟩

/-- Moving a record to another key gives the index with the record under that key. -/
theorem relocate_ofStored (distinct : ((front ++ s :: back).map Prod.fst).Nodup)
    (id : s'.1 = s.1) {old new : Int32} (was : s.2.key? c.position = some old)
    (is : s'.2.key? c.position = some new) :
    (ofStored c (front ++ s :: back)).relocate old new s.1 = ofStored c (front ++ s' :: back) := by
  have among (k : Int32) (n : RecordId) :
      (∃ r ∈ front ++ s' :: back, r.1 = n ∧ r.2.key? c.position = some k) ↔
        (new = k ∧ s.1 = n) ∨ ∃ r ∈ front ++ back, r.1 = n ∧ r.2.key? c.position = some k := by
    simp only [mem_middle, or_and_right, exists_or, exists_eq_left, id, is, Option.some.injEq]
    rw [and_comm]
  rw [relocate]
  by_cases same : old = new
  · rw [if_pos same]
    apply eq_ofStored (compact_ofStored _ _) (by simp) (by simp)
    intro k n
    rw [holds_ofStored, among]
    simp only [mem_middle, or_and_right, exists_or, exists_eq_left, was, same, Option.some.injEq]
    rw [and_comm]
  · rw [if_neg same, erase_ofStored distinct was]
    apply eq_ofStored ((compact_ofStored _ _).insert _ _) (by simp) (by simp)
    intro k n
    rw [holds_insert, Bool.or_eq_true, holds_ofStored, among, decide_eq_true_iff]

end Index

end FlatDB
