/-
# Changing a stored table

Each change of a table leads from a tree that stores its contents to one that
stores the changed contents, and leaves behind the open table that these
contents make.  That some files are not written when nothing in them has changed
makes no difference to either.  Only two changes can fail in a sound tree: a
record is refused if no id is left, and an index if its file's path would be too
long; both are refused before anything is written.
-/

import FlatDB.Proofs.Table.Opening

namespace FlatDB

/-! ## Files of indexes -/

namespace TableFiles

variable {f : TableFiles}

/-- The files with other indexes. -/
def withIndexes (f : TableFiles) (indexes : List Index) : TableFiles :=
  indexes.foldl (fun f i => f.withIndex i.column (Utf8.encode i.text)) f

/-- Writing the indexes of some columns changes the files of these and no others. -/
theorem withIndexes_ofStored {columns : List Column}
    (distinct : (columns.map fun column => column.name).Nodup) (stored : List Stored) :
    f.withIndexes (TableIndexes.ofStored columns stored) =
      { f with
        index := fun name =>
          ((columns.find? fun column => column.name == name).map fun column =>
            Utf8.encode (Index.ofStored column stored).text).or (f.index name) } := by
  induction columns generalizing f with
  | nil => rfl
  | cons column columns ih =>
      rw [List.map_cons, List.nodup_cons] at distinct
      show (f.withIndex (Index.ofStored column stored).column _).withIndexes
        (TableIndexes.ofStored columns stored) = _
      rw [ih distinct.2, Index.column_ofStored, TableFiles.mk.injEq]
      refine ⟨rfl, rfl, rfl, rfl, funext fun name => ?_⟩
      by_cases here : column.name = name
      · have none : columns.find? (fun column => column.name == name) = none := by
          rw [List.find?_eq_none]
          intro other mem same
          have named : other.name = name := by simpa using same
          exact distinct.1 (here ▸ named ▸
            List.mem_map_of_mem (f := fun column : Column => column.name) mem)
        simp [withIndex, none, here]
      · simp [withIndex, here, Ne.symm here]

end TableFiles

namespace Contents

variable {c : Contents}

theorem isEmpty_tableIndexes (c : Contents) (root : Path) (sync : Bool) :
    (c.tableIndexes root sync).indexes.isEmpty = c.indexed.isEmpty :=
  List.isEmpty_map

/-- A table without indexed columns has no indexes. -/
theorem ofStored_of_isEmpty (empty : c.indexed.isEmpty = true) (stored : List Stored) :
    TableIndexes.ofStored c.indexed stored = [] := by
  rw [List.isEmpty_iff.1 empty]
  rfl

/-- Once records, counter and indexes have been written the files are those of the new
contents. -/
theorem files_withIndexes (h : c.Proper) (stored : List Stored) (lastId : RecordId) :
    TableFiles.withIndexes
        { c.files with
          data := Utf8.encode (Entries.text stored)
          counter := Utf8.encode (Numeral.ofUInt64 lastId) }
        (TableIndexes.ofStored c.indexed stored) =
      { c with stored, lastId }.files := by
  rw [TableFiles.withIndexes_ofStored h.distinct, TableFiles.mk.injEq]
  refine ⟨rfl, rfl, rfl, rfl, funext fun name => ?_⟩
  show (Option.map _ _).or ((c.indexed.find? _).map _) = (c.indexed.find? _).map _
  cases c.indexed.find? (fun column => column.name == name) with
  | none => rfl
  | some column => rfl

end Contents

namespace FileTree

namespace Houses

variable {t : FileTree} {root : Path} {r : Place} {table : String} {f : TableFiles}

/-- An index is written. -/
theorem runs_persist (h : t.Houses root r table f) {x : TableIndexes}
    (layout : x.layout = Layout.ofTable root table) {i : Index} (step : Path.IsStep i.column)
    (room : root.RoomForIndex table i.column) :
    ∃ t', (x.persist i).Runs t (.ok ()) t' ∧
      t.Becomes root r table (f.withIndex i.column (Utf8.encode i.text)) t' := by
  obtain ⟨t', written, becomes⟩ :=
    h.runs_replace_index step room (Utf8.encode i.text) x.sync
  refine ⟨t', .orElse _ ?_, becomes⟩
  rw [TableIndexes.writeIndex]
  rw [layout]
  exact written

/-- All indexes are written, one after the other. -/
theorem runs_persistAll (h : t.Houses root r table f) {x : TableIndexes}
    (layout : x.layout = Layout.ofTable root table)
    (rooms : ∀ i ∈ x.indexes, Path.IsStep i.column ∧ root.RoomForIndex table i.column) :
    ∃ t', x.persistAll.Runs t (.ok ()) t' ∧
      t.Becomes root r table (f.withIndexes x.indexes) t' := by
  rw [TableIndexes.persistAll]
  generalize x.indexes = indexes at rooms
  induction indexes generalizing t f with
  | nil => exact ⟨t, .pure () t, h.becomes⟩
  | cons i indexes ih =>
      obtain ⟨step, room⟩ := rooms i List.mem_cons_self
      obtain ⟨t', written, becomes⟩ := h.runs_persist layout step room
      obtain ⟨t'', rest, after⟩ := ih becomes.houses fun i' mem =>
        rooms i' (List.mem_cons_of_mem i mem)
      exact ⟨t'', .bind written rest, becomes.trans after⟩

end Houses

namespace Stores

variable {t : FileTree} {root : Path} {r : Place} {c : Contents}

/-- The indexes of other records have the same columns. -/
theorem rooms_ofStored (h : t.Stores root r c) (stored : List Stored) :
    ∀ i ∈ TableIndexes.ofStored c.indexed stored,
      Path.IsStep i.column ∧ root.RoomForIndex c.name i.column := by
  intro i mem
  obtain ⟨column, hc, rfl⟩ := List.mem_map.1 mem
  rw [Index.column_ofStored]
  exact ⟨isStep_of_isValid (h.proper.isValid hc), h.rooms column hc⟩

/-! ## Adding a record -/

theorem runs_append (h : t.Stores root r c) (sync : Bool)
    (fresh : c.lastId.toNat + 1 ≠ UInt64.size) (record : Record) :
    ∃ t', (RecordFile.append record).Runs (c.recordFile root sync) t (.ok (c.lastId + 1))
        ((c.append record).recordFile root sync) t' ∧
      t.Becomes root r c.name
        { c.files with
          data := Utf8.encode (Entries.text (c.append record).stored)
          counter := Utf8.encode (Numeral.ofUInt64 (c.lastId + 1)) } t' := by
  obtain ⟨t₁, counted, first⟩ := h.houses.runs_replace_counter
    (Utf8.encode (Numeral.ofUInt64 (c.lastId + 1))) sync
  obtain ⟨t₂, appended, second⟩ := first.houses.runs_append_data
    (Utf8.encode (record.line (c.lastId + 1))) sync
  have data : c.files.data ++ Utf8.encode (record.line (c.lastId + 1)) =
      Utf8.encode (Entries.text (c.append record).stored) := by
    rw [Contents.append, Entries.text_append, Utf8.encode_append, Entries.text_singleton]
    rfl
  refine ⟨t₂, ?_, data ▸ first.trans second⟩
  rw [RecordFile.append]
  refine .bind_get ?_
  dsimp only
  rw [if_neg (show ¬ (c.recordFile root sync).lastId.toNat + 1 = UInt64.size from fresh)]
  exact .bind (.ofAction counted _) (.bind_set (.bind (.ofAction appended _) (.pure _ _ _)))

/-- No record is added once all ids have been handed out. -/
theorem runs_append_of_exhausted (c : Contents) (root : Path) (sync : Bool) (t : FileTree)
    (exhausted : c.lastId.toNat + 1 = UInt64.size) (record : Record) :
    (RecordFile.append record).Runs (c.recordFile root sync) t (.error (.storage .idsExhausted))
      (c.recordFile root sync) t := by
  rw [RecordFile.append]
  refine .bind_get ?_
  dsimp only
  rw [if_pos (show (c.recordFile root sync).lastId.toNat + 1 = UInt64.size from exhausted)]
  exact .bind_error (.throw _ _ _)

/-- A new record is entered into all indexes, and these are written. -/
theorem runs_onInsert (h : t.Stores root r c) (sync : Bool) {f : TableFiles} {t₁ : FileTree}
    (becomes : t.Becomes root r c.name f t₁) {s : Stored} (keyed : TableIndexes.Keyed c.indexed [s])
      :
    ∃ t₂, (TableIndexes.onInsert s).Runs (c.tableIndexes root sync) t₁ (.ok ())
        ({ c with stored := c.stored ++ [s] }.tableIndexes root sync) t₂ ∧
      t.Becomes root r c.name
        (f.withIndexes (TableIndexes.ofStored c.indexed (c.stored ++ [s]))) t₂ := by
  rw [TableIndexes.onInsert]
  by_cases empty : c.indexed.isEmpty = true
  · have none := Contents.ofStored_of_isEmpty empty
    have same : { c with stored := c.stored ++ [s] }.tableIndexes root sync =
        c.tableIndexes root sync := by
      simp only [Contents.tableIndexes, Contents.indexes, none]
      rfl
    rw [same, none]
    refine ⟨t₁, .bind_get ?_, becomes⟩
    rw [Contents.isEmpty_tableIndexes, if_pos empty]
    exact .pure _ _ _
  · obtain ⟨t₂, written, after⟩ := becomes.houses.runs_persistAll
      (x := { c with stored := c.stored ++ [s] }.tableIndexes root sync) rfl
      (h.rooms_ofStored (c.stored ++ [s]))
    refine ⟨t₂, .bind_get ?_, becomes.trans after⟩
    have entered : TableIndexes.enter (c.tableIndexes root sync).table s
        (c.tableIndexes root sync).indexes =
          (.ok (), TableIndexes.ofStored c.indexed (c.stored ++ [s])) :=
      TableIndexes.enter_ofStored keyed
    rw [Contents.isEmpty_tableIndexes, if_neg empty, entered]
    exact .bind_set (.bind (.ofAction (.ofResult _ _) _) (.ofAction written _))

/-- A record is added to a table. -/
theorem runs_insert (h : t.Stores root r c) (sync : Bool)
    (fresh : c.lastId.toNat + 1 ≠ UInt64.size) {record : Record} (typed : record.Typed c.schema) :
    ∃ t', (Table.insert record).Runs (c.handle root sync) t (.ok (c.lastId + 1))
        ((c.append record).handle root sync) t' ∧
      t.Turns root r (c.append record) t' := by
  have proper := h.proper.append fresh typed
  obtain ⟨t₁, appended, first⟩ := h.runs_append sync fresh record
  have keyed : TableIndexes.Keyed c.indexed [(c.lastId + 1, record)] := fun column mem s hs =>
    proper.keyed column mem s (List.mem_append_right _ hs)
  obtain ⟨t₂, entered, second⟩ := h.runs_onInsert sync first keyed
  have files := Contents.files_withIndexes h.proper (c.append record).stored (c.lastId + 1)
  refine ⟨t₂, ?_, ⟨proper, files ▸ second.houses, h.rooms⟩, second.same⟩
  rw [Table.insert]
  exact .bind (.onPart appended) (.bind (.onPart entered) (.pure _ _ _))

end Stores

end FileTree

end FlatDB
