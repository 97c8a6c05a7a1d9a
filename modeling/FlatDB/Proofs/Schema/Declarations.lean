/-
# Schemas of declared columns

Columns are added one by one, and nothing is checked when they are read from a
header.  Declarations with different names make the schema one expects: a column
for each, in their order, at its own place.  A repeated name makes another schema:
the later declaration takes over the place of the earlier one, so that there are
fewer columns than declarations, and one of them says a place it does not have.

Declarations that were checked have different names, so both ways of making a
schema agree on them.
-/

import FlatDB.Proofs.Schema.Columns
import Mathlib.Algebra.GroupWithZero.Nat
import Mathlib.Data.List.Induction
import Mathlib.Data.List.Nodup

namespace FlatDB

namespace Schema

variable {s : Schema}

/-! ## Adding one column -/

theorem ofDeclarations_append_singleton (ds : List Declaration) (d : Declaration) :
    ofDeclarations (ds ++ [d]) = (ofDeclarations ds).add d := by
  simp [ofDeclarations]

/-- A new name is put after the other names, and a repeated one changes no name. -/
theorem columnNames_add (s : Schema) (d : Declaration) :
    (s.add d).columnNames =
      if d.name ∈ s.columnNames then s.columnNames else s.columnNames ++ [d.name] := by
  by_cases named : d.name ∈ s.columnNames
  · have old : s.hasColumn d.name = true := hasColumn_eq_true_iff.2 named
    rw [if_pos named]
    simp only [add, old, if_true, columnNames, List.map_map]
    refine List.map_congr_left fun c _ => ?_
    by_cases same : c.name = d.name
    · simp [same]
    · simp [same]
  · have new : s.hasColumn d.name = false := by
      rw [Bool.eq_false_iff, Ne, hasColumn_eq_true_iff]
      exact named
    rw [if_neg named, columnNames, columns_add_of_new new, List.map_append]
    rfl

/-- A repeated name puts a column where it does not say it is. -/
theorem exists_displaced_add {d : Declaration} (named : d.name ∈ s.columnNames) :
    ∃ (i : Nat) (c : Column), (s.add d).columns[i]? = some c ∧ i < c.position := by
  obtain ⟨old, mem, name⟩ := List.mem_map.1 named
  obtain ⟨i, place⟩ := List.mem_iff_getElem?.1 mem
  have below : i < s.arity := (List.getElem?_eq_some_iff.1 place).1
  have again : s.hasColumn d.name = true := hasColumn_eq_true_iff.2 named
  exact ⟨i, { d with position := s.arity }, by simp [add, again, place, name], below⟩

/-! ## Adding all of them -/

/-- The names of the columns are the declared names, each at its first place. -/
theorem columnNames_ofDeclarations (ds : List Declaration) :
    (ofDeclarations ds).columnNames = (ds.map Declaration.name).eraseDups := by
  induction ds using List.reverseRecOn with
  | nil => rfl
  | append_singleton ds d ih =>
      rw [ofDeclarations_append_singleton, columnNames_add, ih, List.map_append,
        List.eraseDups_append, List.map_singleton]
      simp only [List.mem_eraseDups]
      generalize ds.map Declaration.name = names
      by_cases named : d.name ∈ names
      · simp [List.removeAll, named]
      · simp [List.removeAll, named, List.eraseDups_cons]

/-- No two columns have one name. -/
theorem nodup_columnNames_ofDeclarations (ds : List Declaration) :
    (ofDeclarations ds).columnNames.Nodup := by
  induction ds using List.reverseRecOn with
  | nil => exact List.nodup_nil
  | append_singleton ds d ih =>
      rw [ofDeclarations_append_singleton, columnNames_add]
      split
      · exact ih
      · next new => exact List.nodup_append_comm.1 (List.nodup_cons.2 ⟨new, ih⟩)

theorem mem_columnNames_ofDeclarations {ds : List Declaration} {name : String} :
    name ∈ (ofDeclarations ds).columnNames ↔ name ∈ ds.map Declaration.name := by
  rw [columnNames_ofDeclarations, List.mem_eraseDups]

theorem arity_eq_length_columnNames (s : Schema) : s.arity = s.columnNames.length := by
  simp [arity, columnNames]

theorem nodup_names_append_singleton {ds : List Declaration} {d : Declaration} :
    ((ds ++ [d]).map Declaration.name).Nodup ↔
      (ds.map Declaration.name).Nodup ∧ d.name ∉ ds.map Declaration.name := by
  rw [List.map_append, List.map_singleton, List.nodup_append_comm, List.singleton_append,
    List.nodup_cons, and_comm]

theorem arity_ofDeclarations_append_singleton (ds : List Declaration) (d : Declaration) :
    (ofDeclarations (ds ++ [d])).arity =
      if d.name ∈ ds.map Declaration.name then (ofDeclarations ds).arity
      else (ofDeclarations ds).arity + 1 := by
  rw [ofDeclarations_append_singleton, arity_eq_length_columnNames, columnNames_add,
    arity_eq_length_columnNames]
  simp only [mem_columnNames_ofDeclarations]
  split
  · rfl
  · simp

theorem arity_ofDeclarations_le (ds : List Declaration) :
    (ofDeclarations ds).arity ≤ ds.length := by
  induction ds using List.reverseRecOn with
  | nil => exact Nat.le_refl 0
  | append_singleton ds d ih =>
      rw [arity_ofDeclarations_append_singleton, List.length_append, List.length_singleton]
      split <;> omega

/-- There are as many columns as declarations if and only if no name is repeated. -/
theorem arity_ofDeclarations_eq_iff (ds : List Declaration) :
    (ofDeclarations ds).arity = ds.length ↔ (ds.map Declaration.name).Nodup := by
  induction ds using List.reverseRecOn with
  | nil => exact iff_of_true rfl List.nodup_nil
  | append_singleton ds d ih =>
      have le := arity_ofDeclarations_le ds
      rw [arity_ofDeclarations_append_singleton, nodup_names_append_singleton, List.length_append,
        List.length_singleton]
      by_cases named : d.name ∈ ds.map Declaration.name
      · rw [if_pos named]
        exact iff_of_false (by omega) fun distinct => distinct.2 named
      · rw [if_neg named, Nat.add_right_cancel_iff, ih]
        exact (and_iff_left named).symm

/-- Declarations with different names make a column each, at its own place. -/
theorem columns_ofDeclarations {ds : List Declaration}
    (distinct : (ds.map Declaration.name).Nodup) :
    (ofDeclarations ds).columns = ds.mapIdx fun i d => { d with position := i } := by
  induction ds using List.reverseRecOn with
  | nil => rfl
  | append_singleton ds d ih =>
      obtain ⟨rest, new⟩ := nodup_names_append_singleton.1 distinct
      have unnamed : (ofDeclarations ds).hasColumn d.name = false := by
        rw [Bool.eq_false_iff, Ne, hasColumn_eq_true_iff, mem_columnNames_ofDeclarations]
        exact new
      rw [ofDeclarations_append_singleton, columns_add_of_new unnamed, ih rest,
        (arity_ofDeclarations_eq_iff ds).2 rest, List.mapIdx_append]
      simp

/-- Declarations with different names make columns that know their places. -/
theorem position_of_ofDeclarations {ds : List Declaration}
    (distinct : (ds.map Declaration.name).Nodup) {i : Nat} {c : Column}
    (place : (ofDeclarations ds).columns[i]? = some c) : c.position = i := by
  rw [columns_ofDeclarations distinct, List.getElem?_mapIdx] at place
  obtain ⟨d, -, rfl⟩ := Option.map_eq_some_iff.1 place
  rfl

/-- A repeated name leaves a column where it does not say it is. -/
theorem exists_displaced_ofDeclarations {ds : List Declaration}
    (repeated : ¬ (ds.map Declaration.name).Nodup) :
    ∃ (i : Nat) (c : Column), (ofDeclarations ds).columns[i]? = some c ∧ i < c.position := by
  induction ds using List.reverseRecOn with
  | nil => exact absurd List.nodup_nil repeated
  | append_singleton ds d ih =>
      rw [ofDeclarations_append_singleton]
      by_cases named : d.name ∈ (ofDeclarations ds).columnNames
      · exact exists_displaced_add named
      · -- A new name goes to the end, so the column that was displaced before stays.
        have new : (ofDeclarations ds).hasColumn d.name = false := by
          rw [Bool.eq_false_iff, Ne, hasColumn_eq_true_iff]
          exact named
        rw [mem_columnNames_ofDeclarations] at named
        obtain ⟨i, c, place, beyond⟩ :=
          ih fun distinct => repeated (nodup_names_append_singleton.2 ⟨distinct, named⟩)
        refine ⟨i, c, ?_, beyond⟩
        rw [columns_add_of_new new,
          List.getElem?_append_left (List.getElem?_eq_some_iff.1 place).1, place]

/-! ## Columns that know their places -/

/-- A column is found where it is, if no other has its name. -/
theorem index?_name (distinct : s.columnNames.Nodup) {i : Nat} {c : Column}
    (place : s.columns[i]? = some c) : s.index? c.name = some i := by
  obtain ⟨below, here⟩ := List.getElem?_eq_some_iff.1 place
  refine List.findIdx?_eq_some_iff_getElem.2 ⟨below, by simp [here], fun j before same => ?_⟩
  have apart := List.nodup_iff_getElem?_ne_getElem?.1 distinct j i before
    (by simpa [columnNames] using below)
  refine apart ?_
  simpa [columnNames, place, Nat.lt_trans before below] using same

/-- The columns say where they are if and only if no name was declared twice. -/
theorem index?_ofDeclarations_iff (ds : List Declaration) :
    (∀ c ∈ (ofDeclarations ds).columns, (ofDeclarations ds).index? c.name = some c.position ∧
      c.position < (ofDeclarations ds).arity) ↔ (ds.map Declaration.name).Nodup := by
  have distinct := nodup_columnNames_ofDeclarations ds
  constructor
  · intro placed
    by_contra repeated
    obtain ⟨i, c, place, beyond⟩ := exists_displaced_ofDeclarations repeated
    have said := (placed c (List.mem_of_getElem? place)).1
    rw [index?_name distinct place] at said
    exact Nat.ne_of_lt beyond (Option.some.inj said)
  · intro different c mem
    obtain ⟨i, place⟩ := List.mem_iff_getElem?.1 mem
    have position := position_of_ofDeclarations different place
    exact ⟨position ▸ index?_name distinct place,
      position ▸ (List.getElem?_eq_some_iff.1 place).1⟩

/-- A schema whose columns have different names and know their places is made by its own
declarations. -/
theorem ofDeclarations_declarations (distinct : s.columnNames.Nodup)
    (positioned : ∀ {i : Nat} {c : Column}, s.columns[i]? = some c → c.position = i) :
    ofDeclarations (s.columns.map Column.toDeclaration) = s := by
  have names : ((s.columns.map Column.toDeclaration).map Declaration.name).Nodup := by
    rwa [List.map_map]
  have columns : (ofDeclarations (s.columns.map Column.toDeclaration)).columns = s.columns := by
    refine List.ext_getElem? fun i => ?_
    rw [columns_ofDeclarations names, List.getElem?_mapIdx, List.getElem?_map, Option.map_map]
    cases place : s.columns[i]? with
    | none => rfl
    | some c =>
        rw [Option.map_some, Function.comp_apply, ← positioned place]
  exact congrArg mk columns

/-! ## Checked declarations -/

theorem declarations_foldlM_addChecked {table : String} {ds : List Declaration} {s s' : Schema}
    (made : ds.foldlM (addChecked table) s = .ok s') :
    s'.columns.map Column.toDeclaration = s.columns.map Column.toDeclaration ++ ds := by
  induction ds generalizing s with
  | nil =>
      cases made
      simp
  | cons d ds ih =>
      obtain ⟨next, added, made⟩ := Result.bind_eq_ok.1 made
      obtain ⟨_, -, added⟩ := Result.bind_eq_ok.1 added
      cases new : s.hasColumn d.name with
      | true => simp [new] at added
      | false =>
          simp only [new, Bool.false_eq_true, if_false] at added
          cases added
          rw [ih made, columns_add_of_new new]
          simp

/-- The columns of a schema are the declared ones, in the declared order. -/
theorem declarations_of_ofDeclarations? {table : String} {ds : List Declaration} {s : Schema}
    (h : ofDeclarations? table ds = .ok s) : s.columns.map Column.toDeclaration = ds := by
  rw [ofDeclarations?] at h
  split at h
  · cases h
  · simpa [empty] using declarations_foldlM_addChecked h

/-- Checked declarations make the schema they would make unchecked. -/
theorem eq_ofDeclarations {table : String} {ds : List Declaration} {s : Schema}
    (h : ofDeclarations? table ds = .ok s) : s = ofDeclarations ds := by
  have proper := Proper.of_ofDeclarations? h
  rw [← declarations_of_ofDeclarations? h,
    ofDeclarations_declarations proper.distinct proper.positioned]

end Schema

end FlatDB
