/-
# Indexes are finite relations

An index says which ids are under which keys, and that is all there is to it: it stands for a
finite set of pairs, every operation on it is an operation on that set, and every question it can
be asked is answered from the set.  That there are no keys without ids is what makes the answers
exact, since a key that is found, or an index that is not empty, must come from a pair.

An index that is made from records is one of those that come about by operations, and the order
in which the records are entered makes no difference.
-/

import FlatDB.Proofs.Index.Canonical
import FlatDB.Proofs.Table.Upkeep
import Mathlib.Data.Finset.Card
import Mathlib.Data.Finset.Insert
import Mathlib.Data.List.Nodup

namespace FlatDB

namespace Index

/-- Pairs of a key and an id. -/
abbrev Pairs := Finset (Int32 × RecordId)

/-- What an operation makes of the pairs there are. -/
def Operation.relate (pairs : Pairs) : Operation → Pairs
  | .insert key id => Insert.insert (key, id) pairs
  | .erase key id => pairs.erase (key, id)
  | .relocate old new id =>
    if old = new then pairs else Insert.insert (new, id) (pairs.erase (old, id))
  | .clear => ∅

/-- What some operations make of no pairs at all. -/
def Operation.relation (operations : List Operation) : Pairs :=
  operations.foldl relate ∅

/-- Whether an index holds some pairs and no others, and has no key without an id. -/
structure Represents (i : Index) (pairs : Pairs) : Prop where
  compact : i.Compact
  holds : ∀ key id, i.holds key id = true ↔ (key, id) ∈ pairs

variable {i : Index} {pairs : Pairs} {key : Int32} {id : RecordId}

/-! ## Operations -/

theorem represents_empty (column : String) (position : Nat) :
    (empty column position).Represents ∅ :=
  ⟨compact_empty column position, by simp⟩

namespace Represents

theorem insert (h : i.Represents pairs) (key : Int32) (id : RecordId) :
    (i.insert key id).Represents (Insert.insert (key, id) pairs) := by
  refine ⟨h.compact.insert key id, fun k n => ?_⟩
  rw [holds_insert, Bool.or_eq_true, decide_eq_true_iff, h.holds, Finset.mem_insert, Prod.mk.injEq,
    eq_comm, eq_comm (a := id)]

theorem erase (h : i.Represents pairs) (key : Int32) (id : RecordId) :
    (i.erase key id).Represents (pairs.erase (key, id)) := by
  refine ⟨h.compact.erase key id, fun k n => ?_⟩
  rw [holds_erase, Bool.and_eq_true, Bool.not_eq_true', decide_eq_false_iff_not, h.holds,
    Finset.mem_erase, Ne, Prod.mk.injEq, eq_comm, eq_comm (a := id)]

/-- An operation on the index is the operation on the pairs. -/
theorem after (h : i.Represents pairs) (operation : Operation) :
    (i.after operation).Represents (operation.relate pairs) := by
  cases operation with
  | insert key id => exact h.insert key id
  | erase key id => exact h.erase key id
  | relocate old new id =>
      rw [Index.after, relocate, Operation.relate]
      split
      · exact h
      · exact (h.erase old id).insert new id
  | clear => exact represents_empty i.column i.position

/-- So are any operations one after the other. -/
theorem run (h : i.Represents pairs) (operations : List Operation) :
    (i.run operations).Represents (operations.foldl Operation.relate pairs) := by
  induction operations generalizing i pairs with
  | nil => exact h
  | cons operation operations ih => exact ih (h.after operation)

/-! ## Answers -/

/-- A key is found just if it is that of a pair, and then with the ids it is paired with. -/
theorem lookup? (h : i.Represents pairs) (key : Int32) :
    match i.lookup? key with
    | some ids => (∃ id, (key, id) ∈ pairs) ∧ ∀ id, id ∈ ids ↔ (key, id) ∈ pairs
    | none => ∀ id, (key, id) ∉ pairs := by
  cases found : i.lookup? key with
  | some ids =>
      have under (id : RecordId) : id ∈ ids ↔ (key, id) ∈ pairs := by
        rw [← h.holds, holds_eq_true_iff]
        simp [found]
      obtain ⟨id, mem⟩ := h.compact key ids found
      exact ⟨⟨id, (under id).1 mem⟩, under⟩
  | none =>
      intro id mem
      obtain ⟨ids, present, -⟩ := holds_eq_true_iff.1 ((h.holds key id).2 mem)
      simp [found] at present

end Represents

/-- The pairs that an index holds, one after the other. -/
def listed (i : Index) : List (Int32 × RecordId) :=
  i.buckets.toList.flatMap fun bucket => bucket.2.toList.map fun id => (bucket.1, id)

theorem mem_listed : (key, id) ∈ i.listed ↔ i.holds key id = true := by
  simp only [listed, List.mem_flatMap, List.mem_map, Prod.mk.injEq, holds_eq_true_iff,
    Index.lookup?]
  constructor
  · rintro ⟨⟨k, ids⟩, mem, n, under, rfl, rfl⟩
    exact ⟨ids, Std.ExtTreeMap.mem_toList_iff_getElem?_eq_some.1 mem,
      Std.ExtTreeSet.mem_toList.1 under⟩
  · rintro ⟨ids, found, mem⟩
    exact ⟨(key, ids), Std.ExtTreeMap.mem_toList_iff_getElem?_eq_some.2 found, id,
      Std.ExtTreeSet.mem_toList.2 mem, rfl, rfl⟩

/-- No pair is listed twice. -/
theorem nodup_listed (i : Index) : i.listed.Nodup := by
  rw [listed, List.nodup_flatMap]
  constructor
  · intro bucket _
    have distinct : bucket.2.toList.Nodup :=
      bucket.2.distinct_toList.imp fun differ => by simpa using differ
    exact distinct.map fun _ _ same => (Prod.mk.inj same).2
  · refine i.buckets.distinct_keys_toList.imp fun {a b} differ => List.disjoint_left.2 ?_
    intro pair first second
    obtain ⟨n, -, rfl⟩ := List.mem_map.1 first
    obtain ⟨m, -, same⟩ := List.mem_map.1 second
    exact differ (by simp [(Prod.mk.inj same).1])

theorem length_listed (i : Index) : i.listed.length = i.size := by
  rw [listed, size]
  induction i.buckets.toList with
  | nil => rfl
  | cons bucket buckets ih =>
      rw [List.flatMap_cons, List.length_append, ih, List.length_map, List.foldr_cons,
        Std.ExtTreeSet.length_toList]

namespace Represents

/-- The size of an index is the number of its pairs. -/
theorem size (h : i.Represents pairs) : i.size = pairs.card := by
  have same : pairs = i.listed.toFinset := by
    ext ⟨key, id⟩
    rw [List.mem_toFinset, mem_listed, h.holds]
  rw [same, List.toFinset_card_of_nodup i.nodup_listed, length_listed]

/-- There is a key just if there is a pair. -/
theorem isEmpty (h : i.Represents pairs) : i.isEmpty = true ↔ pairs = ∅ := by
  rw [Index.isEmpty, Std.ExtTreeMap.isEmpty_iff, Finset.eq_empty_iff_forall_notMem]
  constructor
  · rintro none ⟨key, id⟩ mem
    obtain ⟨ids, found, -⟩ := holds_eq_true_iff.1 ((h.holds key id).2 mem)
    simp [Index.lookup?, none] at found
  · intro none
    apply Std.ExtTreeMap.ext_getElem?
    intro key
    cases found : i.buckets[key]? with
    | none => simp
    | some ids =>
        obtain ⟨id, mem⟩ := h.compact key ids found
        exact absurd ((h.holds key id).1 (holds_eq_true_iff.2 ⟨ids, found, mem⟩)) (none (key, id))

/-- Removing a pair tells whether it was there. -/
theorem remove (h : i.Represents pairs) (key : Int32) (id : RecordId) :
    i.remove key id = (decide ((key, id) ∈ pairs), i.after (.erase key id)) := by
  have there : i.holds key id = decide ((key, id) ∈ pairs) := by
    rw [Bool.eq_iff_iff, h.holds, decide_eq_true_iff]
  rw [remove_eq, there]
  rfl

end Represents

/-! ## Indexes of records -/

@[simp]
theorem position_after (i : Index) (operation : Operation) :
    (i.after operation).position = i.position := by
  cases operation with
  | insert key id => rfl
  | erase key id => exact position_erase i key id
  | relocate old new id =>
      rw [after, relocate]
      split
      · rfl
      · rw [position_insert, position_erase]
  | clear => rfl

@[simp]
theorem position_run (i : Index) (operations : List Operation) :
    (i.run operations).position = i.position := by
  induction operations generalizing i with
  | nil => rfl
  | cons operation operations ih => exact (ih _).trans (position_after i operation)

/-- Inserting pairs one after the other. -/
def insertions (pairs : List (Int32 × RecordId)) : List Operation :=
  pairs.map fun pair => .insert pair.1 pair.2

theorem mem_foldl_insertions {listed : List (Int32 × RecordId)} {pair : Int32 × RecordId} :
    pair ∈ (insertions listed).foldl Operation.relate pairs ↔ pair ∈ listed ∨ pair ∈ pairs := by
  induction listed generalizing pairs with
  | nil => simp [insertions]
  | cons first listed ih =>
      rw [insertions, List.map_cons, List.foldl_cons, ← insertions, ih, Operation.relate,
        Finset.mem_insert, List.mem_cons, or_left_comm, or_assoc]

/-- Whether records have certain keys at a position: the pairs are those of a key and the id of
the record it belongs to. -/
def Keys (position : Nat) (stored : List Stored) (pairs : List (Int32 × RecordId)) : Prop :=
  List.Forall₂ (fun s pair => s.2.key? position = some pair.1 ∧ s.1 = pair.2) stored pairs

theorem Keys.isSome {position : Nat} {stored : List Stored} {pairs : List (Int32 × RecordId)}
    (keys : Keys position stored pairs) : ∀ s ∈ stored, (s.2.key? position).isSome := by
  induction keys with
  | nil => exact List.forall_mem_nil _
  | cons first _ ih => exact List.forall_mem_cons.2 ⟨by rw [first.1]; rfl, ih⟩

theorem Keys.mem {position : Nat} {stored : List Stored} {pairs : List (Int32 × RecordId)}
    (keys : Keys position stored pairs) :
    (key, id) ∈ pairs ↔ ∃ s ∈ stored, s.1 = id ∧ s.2.key? position = some key := by
  induction keys with
  | nil => simp
  | @cons s pair stored pairs first _ ih =>
      obtain ⟨has, same⟩ := first
      rw [List.mem_cons, ih, List.exists_mem_cons_iff, has, same, Prod.ext_iff, Option.some.injEq]
      exact or_congr_left ⟨fun ⟨k, n⟩ => ⟨n.symm, k.symm⟩, fun ⟨n, k⟩ => ⟨k.symm, n.symm⟩⟩

/-- Making the index of records is inserting their pairs, in any order. -/
theorem build_eq_run {position : Nat} {stored : List Stored}
    {pairs listed : List (Int32 × RecordId)} (keys : Keys position stored pairs)
    (order : listed.Perm pairs) (table column : String) :
    build table column position (stored.map .ok) =
      .ok ((empty column position).run (insertions listed)) := by
  let c : Column := ⟨⟨column, .int, true⟩, position⟩
  have built : build table column position (stored.map .ok) = .ok (ofStored c stored) :=
    build_eq_ok (c := c) keys.isSome
  have inserted := (represents_empty column position).run (insertions listed)
  rw [built]
  symm
  congr 1
  apply eq_ofStored inserted.compact (column_run _ _) (position_run _ _)
  intro key id
  rw [inserted.holds, mem_foldl_insertions, order.mem_iff, keys.mem]
  simp [c]

/-- After any operations on the index that holds nothing, every answer is that of the finite
relation that the operations make: which ids are under a key, how many pairs there are, whether
there are any, and whether one that is removed was there.  Making an index of records that have
keys is inserting their pairs, whatever the order. -/
theorem run_answers_relation (column : String) (position : Nat) (operations : List Operation) :
    let i := (empty column position).run operations
    let pairs := Operation.relation operations
    (∀ key,
      match i.lookup? key with
      | some ids => (∃ id, (key, id) ∈ pairs) ∧ ∀ id, id ∈ ids ↔ (key, id) ∈ pairs
      | none => ∀ id, (key, id) ∉ pairs) ∧
    i.size = pairs.card ∧
    (i.isEmpty = true ↔ pairs = ∅) ∧
    (∀ key id, i.remove key id = (decide ((key, id) ∈ pairs), i.after (.erase key id))) ∧
    ∀ stored keys, Keys position stored keys → ∀ listed, listed.Perm keys → ∀ table,
      build table column position (stored.map .ok) =
        .ok ((empty column position).run (insertions listed)) := by
  intro i pairs
  have represents : i.Represents pairs := (represents_empty column position).run operations
  refine ⟨represents.lookup?, represents.size, represents.isEmpty, represents.remove, ?_⟩
  intro stored keys parsed listed order table
  exact build_eq_run parsed order table column

/-- An id is moved away from under a key that it never was under, and the last one is taken from
another key; two records are entered the other way round. -/
theorem run_answers_relation_sample :
    let i := (empty "x" 0).run [.insert 5 1, .relocate 7 (-3) 2, .erase 5 1, .erase 5 9]
    i.lookup? 5 = none ∧ i.size = 1 ∧ (i.remove (-3) 2).1 = true ∧ (i.remove 7 2).1 = false ∧
      Keys 0 [(1, ⟨["5"]⟩), (2, ⟨["-3", "a"]⟩)] [(5, 1), (-3, 2)] ∧
      [((-3 : Int32), (2 : RecordId)), (5, 1)].Perm [(5, 1), (-3, 2)] ∧
      build "t" "x" 0 [.ok (1, ⟨["5"]⟩), .ok (2, ⟨["-3", "a"]⟩)] =
        .ok ((empty "x" 0).run (insertions [(-3, 2), (5, 1)])) := by
  intro i
  obtain ⟨under, size, -, remove, build⟩ :=
    run_answers_relation "x" 0 [.insert 5 1, .relocate 7 (-3) 2, .erase 5 1, .erase 5 9]
  have keys : Keys 0 [(1, ⟨["5"]⟩), (2, ⟨["-3", "a"]⟩)] [(5, 1), (-3, 2)] :=
    .cons ⟨by decide, rfl⟩ (.cons ⟨by decide, rfl⟩ .nil)
  have order : [((-3 : Int32), (2 : RecordId)), (5, 1)].Perm [(5, 1), (-3, 2)] :=
    List.Perm.swap _ _ _
  refine ⟨?_, size.trans (by decide), ?_, ?_, keys, order, build _ _ keys _ order "t"⟩
  · have five := under 5
    split at five
    · obtain ⟨id, mem⟩ := five.1
      simp [Operation.relation, Operation.relate] at mem
    · next none => exact none
  · rw [remove]
    decide
  · rw [remove]
    decide

end Index

end FlatDB
