/-
# Keeping indexes up with the records

What the functions that maintain indexes come to when all records have keys:
each of them succeeds, and it turns the indexes of the records before a change
into those of the records after it.  Nothing is said here about files.
-/

import FlatDB.Proofs.Index.Holding
import FlatDB.Table.Indexes

namespace FlatDB

namespace Index

variable {table : String}

/-- A record with a key is found to have it. -/
theorem keyOf_eq_ok {i : Index} {r : Record} {key : Int32} (h : r.key? i.position = some key) :
    i.keyOf table r = .ok key := by
  obtain ⟨text, field, number⟩ := Option.bind_eq_some_iff.1 h
  rw [keyOf, field, Option.getD_some, parseKey, number]

theorem insertRecord_eq_ok {i : Index} {s : Stored} {key : Int32}
    (h : s.2.key? i.position = some key) : i.insertRecord table s = .ok (i.enter s) := by
  rw [insertRecord, keyOf_eq_ok h, Result.ok_bind, enter, h]
  rfl

theorem eraseRecord_eq_ok {i : Index} {s : Stored} {key : Int32}
    (h : s.2.key? i.position = some key) : i.eraseRecord table s = .ok (i.erase key s.1) := by
  rw [eraseRecord, keyOf_eq_ok h, Result.ok_bind]
  rfl

/-- Making an index from records that all have a key. -/
theorem build_eq_ok {c : Column} {stored : List Stored}
    (h : ∀ s ∈ stored, (s.2.key? c.position).isSome) :
    build table c.name c.position (stored.map .ok) = .ok (ofStored c stored) := by
  rw [build, ofStored]
  have position : (empty c.name c.position).position = c.position := rfl
  generalize empty c.name c.position = i at position
  induction stored generalizing i with
  | nil => rfl
  | cons s stored ih =>
      obtain ⟨key, has⟩ := Option.isSome_iff_exists.1 (h s List.mem_cons_self)
      rw [List.map_cons, List.foldlM_cons, insertEntry, Result.ok_bind,
        insertRecord_eq_ok (position.symm ▸ has), Result.ok_bind]
      exact ih (fun r mem => h r (List.mem_cons_of_mem s mem)) _ (by rw [position_enter, position])

end Index

namespace TableIndexes

open Index

/-- Every record has a key in every one of the columns. -/
def Keyed (columns : List Column) (stored : List Stored) : Prop :=
  ∀ c ∈ columns, ∀ s ∈ stored, (s.2.key? c.position).isSome

/-- The indexes of some columns. -/
def ofStored (columns : List Column) (stored : List Stored) : List Index :=
  columns.map fun c => Index.ofStored c stored

variable {table : String} {columns : List Column} {indexes : List Index}
  {stored front back : List Stored} {s : Stored}

/-- A record is entered into indexes that all have a key for it. -/
theorem enter_of_keyed (keyed : ∀ i ∈ indexes, (s.2.key? i.position).isSome) :
    enter table s indexes = (.ok (), indexes.map (Index.enter · s)) := by
  induction indexes with
  | nil => rfl
  | cons i indexes ih =>
      obtain ⟨first, later⟩ := List.forall_mem_cons.1 keyed
      obtain ⟨key, has⟩ := Option.isSome_iff_exists.1 first
      rw [enter, Index.insertRecord_eq_ok has, List.map_cons, ih later]

/-- A new record is entered everywhere. -/
theorem enter_ofStored (h : Keyed columns [s]) :
    enter table s (ofStored columns stored) = (.ok (), ofStored columns (stored ++ [s])) := by
  have keyed : ∀ i ∈ ofStored columns stored, (s.2.key? i.position).isSome := by
    intro i mem
    obtain ⟨c, hc, rfl⟩ := List.mem_map.1 mem
    rw [position_ofStored]
    exact h c hc s List.mem_cons_self
  have entered : (ofStored columns stored).map (Index.enter · s) =
      ofStored columns (stored ++ [s]) := by
    rw [ofStored, List.map_map]
    exact List.map_congr_left fun c _ => (ofStored_concat c stored s).symm
  rw [enter_of_keyed keyed, entered]

/-- A record is taken out everywhere. -/
theorem leave_ofStored (h : Keyed columns [s])
    (distinct : ((front ++ s :: back).map Prod.fst).Nodup) :
    leave table (ofStored columns (front ++ s :: back)) s =
      .ok (ofStored columns (front ++ back)) := by
  unfold ofStored leave
  induction columns with
  | nil => rfl
  | cons c columns ih =>
      obtain ⟨key, has⟩ :=
        Option.isSome_iff_exists.1 (h c List.mem_cons_self s List.mem_cons_self)
      have here : (Index.ofStored c (front ++ s :: back)).eraseRecord table s =
          .ok (Index.ofStored c (front ++ back)) := by
        have present : s.2.key? (Index.ofStored c (front ++ s :: back)).position = some key := by
          rwa [position_ofStored]
        rw [eraseRecord_eq_ok present, erase_ofStored distinct has]
      rw [List.map_cons, List.mapM_cons, here, Result.ok_bind,
        ih fun c' mem => h c' (List.mem_cons_of_mem c mem)]
      rfl

/-- Taking out the accepted records one by one leaves the indexes of the others. -/
theorem foldlM_leave (table : String) (front : List Stored) (accepts : Stored → Bool)
    (h : Keyed columns back)
    (distinct : ((front ++ back).map Prod.fst).Nodup) :
    (back.filter accepts).foldlM (leave table) (ofStored columns (front ++ back)) =
      .ok (ofStored columns (front ++ back.filter fun s => !accepts s)) := by
  induction back generalizing front with
  | nil => rfl
  | cons s back ih =>
      have later : Keyed columns back := fun c mem r hr => h c mem r (List.mem_cons_of_mem s hr)
      by_cases out : accepts s = true
      · have here : Keyed columns [s] := fun c mem r hr => by
          rw [List.mem_singleton.1 hr]
          exact h c mem s List.mem_cons_self
        have rest : ((front ++ back).map Prod.fst).Nodup :=
          distinct.sublist (((List.sublist_cons_self s back).append_left front).map Prod.fst)
        rw [List.filter_cons_of_pos out, List.foldlM_cons, leave_ofStored here distinct,
          Result.ok_bind, ih _ later rest, List.filter_cons_of_neg (by simpa using out)]
      · have moved : front ++ s :: back = (front ++ [s]) ++ back := by simp
        rw [List.filter_cons_of_neg out, moved, ih _ later (moved ▸ distinct),
          List.filter_cons_of_pos (by simpa using out)]
        simp

/-- Whether a change of a field changes its key. -/
def changesKey (change : FieldChange) : Bool :=
  Numeral.int32? change.old ≠ Numeral.int32? change.new

/-- Following an update of a column leads to the index of the updated records, and tells
whether any key changed. -/
theorem foldlM_follow (table : String) (front : List Stored) {c : Column}
    (accepts : Record → Bool) {value : String} {new : Int32} (h : Keyed [c] back)
      (number : Numeral.int32? value = some new)
    (distinct : ((front ++ back).map Prod.fst).Nodup) (sofar : Bool) :
    (back.filterMap (Entries.change? accepts c.position value)).foldlM (follow table c.name)
        (Index.ofStored c (front ++ back), sofar) =
      .ok (Index.ofStored c (front ++ back.map (Entries.assign accepts c.position value)),
        sofar || (back.filterMap (Entries.change? accepts c.position value)).any changesKey) := by
  induction back generalizing front sofar with
  | nil => simp
  | cons s back ih =>
      have later : Keyed [c] back := fun c' mem r hr => h c' mem r (List.mem_cons_of_mem s hr)
      have moved (r : Stored) : front ++ r :: back = (front ++ [r]) ++ back := by simp
      by_cases out : accepts s.2 = true
      · obtain ⟨old, has⟩ :=
          Option.isSome_iff_exists.1 (h c List.mem_cons_self s List.mem_cons_self)
        obtain ⟨text, field, was⟩ := Option.bind_eq_some_iff.1 has
        have change : Entries.change? accepts c.position value s = some ⟨s.1, text, value⟩ := by
          rw [Entries.change?, if_pos out, field]
          rfl
        have assigned : Entries.assign accepts c.position value s =
            (s.1, s.2.set c.position value) := if_pos out
        have becomes : (s.2.set c.position value).key? c.position = some new := by
          have inside : c.position < s.2.fields.length :=
            (List.getElem?_eq_some_iff.1 field).1
          rw [Record.key?, Record.set, Record.get?, List.getElem?_set_self inside]
          exact number
        have same : (s.1, s.2.set c.position value).1 = s.1 := rfl
        have relocated := relocate_ofStored distinct same has becomes
        have step : follow table c.name (Index.ofStored c (front ++ s :: back), sofar)
            ⟨s.1, text, value⟩ =
              .ok (Index.ofStored c (front ++ (s.1, s.2.set c.position value) :: back),
                sofar || changesKey ⟨s.1, text, value⟩) := by
          have differ : (old != new) = changesKey ⟨s.1, text, value⟩ := by
            rw [Bool.eq_iff_iff]
            simp [changesKey, was, number]
          simp only [follow, parseKey, was, number, Result.ok_bind, relocated, differ]
          rfl
        have ids : ((front ++ [(s.1, s.2.set c.position value)] ++ back).map Prod.fst).Nodup := by
          simpa using distinct
        rw [List.filterMap_cons_some change, List.foldlM_cons, step, Result.ok_bind, moved,
          ih _ later ids, List.map_cons, assigned, List.any_cons, Bool.or_assoc]
        simp
      · have change : Entries.change? accepts c.position value s = none := if_neg out
        have assigned : Entries.assign accepts c.position value s = s := if_neg out
        rw [List.filterMap_cons_none change, moved, ih _ later (moved s ▸ distinct), List.map_cons,
          assigned]
        simp

end TableIndexes

end FlatDB
