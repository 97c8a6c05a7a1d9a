/-
# Giving a stored table an index

An index is refused if there is no such column, if the column has one already, or
if it does not hold integers.  Otherwise it is made from the records, written, and
put on the list; the only thing that can be in the way is a path that is too
long, and then nothing is written at all.
-/

import FlatDB.Proofs.Table.Writing

namespace FlatDB

namespace Contents

/-- Whether a column may be given an index. -/
def indexable (c : Contents) (name : String) : Except Error Column := do
  let column ← c.definition.column name
  if name ∈ c.indexedNames then throw (.indexExists c.name name)
  if column.type ≠ .int then throw (.notIndexable c.name name)
  return column

variable {c : Contents}

/-- A column has an index if its name is among those of the indexed columns. -/
theorem isSome_get?_tableIndexes (c : Contents) (root : Path) (sync : Bool) (name : String) :
    ((c.tableIndexes root sync).get? name).isSome = decide (name ∈ c.indexedNames) := by
  rw [get?_tableIndexes, Option.isSome_map, Bool.eq_iff_iff, List.find?_isSome, decide_eq_true_iff]
  simp [indexedNames]

/-- The open indexes tell the same. -/
theorem indexable_tableIndexes (c : Contents) (root : Path) (sync : Bool) (name : String) :
    TableIndexes.indexable c.definition (c.tableIndexes root sync) name = c.indexable name := by
  unfold TableIndexes.indexable indexable
  simp only [isSome_get?_tableIndexes, decide_eq_true_eq]
  rfl

/-- What is known of a column that may be given an index. -/
theorem of_indexable {name : String} {column : Column} (h : c.indexable name = .ok column) :
    column ∈ c.schema.columns ∧ column.name = name ∧ column.type = .int ∧
      name ∉ c.indexedNames := by
  obtain ⟨found, known, checked⟩ := Result.bind_eq_ok.1 h
  have look := Definition.column_eq_ok.1 known
  by_cases old : name ∈ c.indexedNames
  · simp [old] at checked
  · by_cases int : found.type = .int
    · simp [old, int] at checked
      subst checked
      exact ⟨Schema.mem_of_column? look, Schema.name_of_column? look, int, old⟩
    · simp [old, int] at checked

/-- The list and the new index are all that has to be written. -/
theorem files_withIndex {column : Column} (new : column.name ∉ c.indexedNames) :
    { c.files.withIndex column.name (Utf8.encode (Index.ofStored column c.stored).text) with
      list := some (Utf8.encode (TableIndexes.listText (c.indexedNames ++ [column.name]))) } =
      (c.withIndex column).files := by
  rw [TableFiles.mk.injEq]
  refine ⟨rfl, rfl, rfl, ?_, funext fun name => ?_⟩
  · simp [files, withIndex, indexedNames]
  · show (if name = column.name then _ else
      (c.indexed.find? fun column => column.name == name).map _) =
        ((c.indexed ++ [column]).find? fun column => column.name == name).map _
    rw [List.find?_append]
    by_cases here : name = column.name
    · have none : c.indexed.find? (fun column => column.name == name) = none := by
        rw [List.find?_eq_none]
        intro other mem named
        have same : other.name = column.name := by simpa [here] using named
        exact new (same ▸ List.mem_map_of_mem (f := fun column : Column => column.name) mem)
      rw [if_pos here, none]
      simp only [here, Option.none_or, List.find?_singleton, beq_self_eq_true, if_true,
        Option.map_some]
      rfl
    · rw [if_neg here]
      simp [Ne.symm here]
      rfl

end Contents

namespace FileTree

namespace Stores

variable {t : FileTree} {root : Path} {r : Place} {c : Contents}

/-- A column that may not be given an index is not. -/
theorem runs_createIndex_of_error (c : Contents) (root : Path) (sync : Bool) (t : FileTree)
    {name : String} {e : Error} (refused : c.indexable name = .error e) :
    (Table.createIndex name).Runs (c.handle root sync) t (.error e) (c.handle root sync) t := by
  have checked : (TableIndexes.create c.definition name (c.recordFile root sync)).Runs
      (c.tableIndexes root sync) t (.error e) (c.tableIndexes root sync) t :=
    .bind_get (.bind_error (.ofAction (.ofResult_of_eq
      ((c.indexable_tableIndexes root sync name).trans refused) t) _))
  exact .bind_get (.onPart checked)

/-- An index is made. -/
theorem runs_createIndex (h : t.Stores root r c) (sync : Bool) {name : String} {column : Column}
    (accepted : c.indexable name = .ok column) (room : root.RoomForIndex c.name name) :
    ∃ t', (Table.createIndex name).Runs (c.handle root sync) t (.ok ())
        ((c.withIndex column).handle root sync) t' ∧
      t.Turns root r (c.withIndex column) t' := by
  obtain ⟨mem, rfl, int, new⟩ := Contents.of_indexable accepted
  have step := isStep_of_isValid (h.proper.definition.schema.valid column mem)
  obtain ⟨t₁, written, first⟩ := h.houses.runs_replace_index step room
    (Utf8.encode (Index.ofStored column c.stored).text) sync
  obtain ⟨t₂, listed, second⟩ := first.houses.runs_replace_list
    (Utf8.encode (TableIndexes.listText (c.indexedNames ++ [column.name]))) sync
  rw [Contents.files_withIndex new] at second
  have names : (c.tableIndexes root sync).indexes.map Index.column = c.indexedNames := by
    show (c.indexed.map _).map Index.column = _
    rw [List.map_map]
    exact List.map_congr_left fun column _ => Index.column_ofStored column c.stored
  have next : TableIndexes.mk (c.tableIndexes root sync).table (c.tableIndexes root sync).layout
      ((c.tableIndexes root sync).indexes ++ [Index.ofStored column c.stored])
      (c.tableIndexes root sync).sync = (c.withIndex column).tableIndexes root sync := by
    show TableIndexes.mk _ _ _ _ = TableIndexes.mk _ _ ((c.indexed ++ [column]).map _) _
    rw [List.map_append]
    rfl
  have written' : ((c.tableIndexes root sync).writeIndex (Index.ofStored column c.stored)).Runs t
      (.ok ()) t₁ := by
    rw [TableIndexes.writeIndex]
    rw [Index.column_ofStored]
    exact written
  have created : (TableIndexes.create c.definition column.name (c.recordFile root sync)).Runs
      (c.tableIndexes root sync) t (.ok ()) ((c.withIndex column).tableIndexes root sync) t₂ := by
    rw [TableIndexes.create]
    refine .bind_get (.bind (.ofAction (.ofResult_of_eq
      ((c.indexable_tableIndexes root sync column.name).trans accepted) t) _) ?_)
    refine .bind (.ofAction (h.retains.runs_build sync _ mem int) _) (.bind (.ofAction written' _) ?_)
    rw [names, next]
    exact .bind (.ofAction listed _) (.set _ _ _)
  refine ⟨t₂, .bind_get (.onPart created), ⟨h.proper.withIndex mem int new, ?_, ?_⟩, ?_⟩
  · exact second.houses
  · intro other ho
    rcases List.mem_append.1 ho with ho | ho
    · exact h.rooms other ho
    · rw [List.mem_singleton.1 ho]
      exact room
  · exact (first.trans second).same

/-- Without room for its file an index is refused and nothing is written. -/
theorem runs_createIndex_of_no_room (h : t.Stores root r c) (sync : Bool) {name : String}
    {column : Column} (accepted : c.indexable name = .ok column)
    (full : ¬ root.RoomForIndex c.name name) :
    (Table.createIndex name).Runs (c.handle root sync) t (.error (.storage .nameTooLong))
      (c.handle root sync) t := by
  obtain ⟨mem, rfl, int, new⟩ := Contents.of_indexable accepted
  have step := isStep_of_isValid (h.proper.definition.schema.valid column mem)
  have refused : ((c.tableIndexes root sync).writeIndex (Index.ofStored column c.stored)).Runs t
      (.error (.storage .nameTooLong)) t := by
    rw [TableIndexes.writeIndex]
    rw [Index.column_ofStored]
    exact h.houses.runs_replace_index_of_no_room step full _ sync
  have created : (TableIndexes.create c.definition column.name (c.recordFile root sync)).Runs
      (c.tableIndexes root sync) t (.error (.storage .nameTooLong)) (c.tableIndexes root sync)
        t := by
    rw [TableIndexes.create]
    refine .bind_get (.bind (.ofAction (.ofResult_of_eq
      ((c.indexable_tableIndexes root sync column.name).trans accepted) t) _) ?_)
    exact .bind (.ofAction (h.retains.runs_build sync _ mem int) _) (.bind_error (.ofAction refused _))
  exact .bind_get (.onPart created)

end Stores

end FileTree

end FlatDB
