/-
# Changes that fail

A change of a table writes the records first and the indexes one after the other.  If
it fails, the records are either as they were or changed, and the file of each index
tells the records there are, or is missing, or was not reached: then it still tells the
records there were.  The indexes that were not reached are the last ones, and right
before them is the one that could not be written, which has no file.  An update writes
only one index and so leaves none behind.
-/

import FlatDB.Proofs.Table.Changing
import FlatDB.Proofs.Table.Mishaps

namespace FlatDB

open FileTree

/-! ## Keys of changed records -/

namespace TableIndexes

variable {columns : List Column} {stored : List Stored}

theorem Keyed.concat (h : Keyed columns stored) {record : Record}
    (keyed : ∀ column ∈ columns, (record.key? column.position).isSome) (id : RecordId) :
    Keyed columns (stored ++ [(id, record)]) := by
  intro column mem s hs
  rcases List.mem_append.1 hs with hs | hs
  · exact h column mem s hs
  · rw [List.mem_singleton.1 hs]
    exact keyed column mem

theorem Keyed.filter (h : Keyed columns stored) (keep : Stored → Bool) :
    Keyed columns (stored.filter keep) :=
  fun column mem s hs => h column mem s (List.mem_filter.1 hs).1

/-- Setting a field takes no key away, unless it is set to what is none. -/
theorem Keyed.assign (h : Keyed columns stored) (accepts : Record → Bool) {position : Nat}
    {value : String}
    (number : ∀ column ∈ columns, column.position = position → (Numeral.int32? value).isSome) :
    Keyed columns (stored.map (Entries.assign accepts position value)) := by
  intro column mem s' hs'
  obtain ⟨s, hs, rfl⟩ := List.mem_map.1 hs'
  have had := h column mem s hs
  unfold Entries.assign
  split
  · by_cases here : column.position = position
    · obtain ⟨key, has⟩ := Option.isSome_iff_exists.1 had
      obtain ⟨text, field, -⟩ := Option.bind_eq_some_iff.1 has
      have inside : column.position < s.2.fields.length := (List.getElem?_eq_some_iff.1 field).1
      show ((s.2.set position value).key? column.position).isSome = true
      rw [← here, Record.key?, Record.set, Record.get?, List.getElem?_set_self inside]
      exact number column mem here
    · show ((s.2.set position value).key? column.position).isSome = true
      rwa [s.2.key?_set_of_ne here]
  · exact had

end TableIndexes

/-! ## What is left behind -/

namespace FileTree

/-- A tree with some records now, in which the files of some indexes may still tell the
records there were. -/
structure Outdates (t : FileTree) (root : Path) (r : Place) (c : Contents) (left : List Column)
    (now : List Stored) : Prop where
  orderly : { c with stored := now }.Orderly
  lodges : t.Lodges root r { c with stored := now }
  told : ∀ column ∈ c.indexed,
    t.Tells (c.name :: r) column fun stored => stored = now ∨ column ∈ left ∧ stored = c.stored

/-- A tree in which the files of indexes may be out of date only where they come after an
index that has none. -/
def Trails (t : FileTree) (root : Path) (r : Place) (c : Contents) : Prop :=
  ∃ left now, t.Outdates root r c left now ∧ (left = [] ∨ ∃ column, column :: left <:+ c.indexed ∧
    t.at? (Place.index (c.name :: r) column.name) = none)

variable {t t' : FileTree} {root : Path} {r : Place} {c : Contents}

/-- Where no file is out of date, not even the last ones are. -/
theorem Outdates.trails {now : List Stored} (h : t.Outdates root r c [] now) :
    t.Trails root r c :=
  ⟨[], now, h, .inl rfl⟩

/-- A tree in which every file tells the records there are now. -/
theorem outdates_of_told {now : List Stored} (orderly : { c with stored := now }.Orderly)
    (lodges : t.Lodges root r { c with stored := now })
    (told : ∀ column ∈ c.indexed, t.Tells (c.name :: r) column (· = now)) :
    t.Outdates root r c [] now :=
  ⟨orderly, lodges, fun column mem => (told column mem).mono fun _ same => .inl same⟩

/-- A tree with a table whose files agree. -/
structure Agrees (t : FileTree) (root : Path) (r : Place) (c : Contents) : Prop where
  orderly : c.Orderly
  lodges : t.Lodges root r c
  told : ∀ column ∈ c.indexed, t.Tells (c.name :: r) column (· = c.stored)
  /-- No id occurs twice. -/
  distinct : (c.stored.map Prod.fst).Nodup

namespace Agrees

variable {F : Tolerance} {d : Disk} {now : List Stored}

/-- The files of a table that is stored agree. -/
theorem of_stores (h : t.Stores root r c) : t.Agrees root r c where
  orderly := h.proper.orderly
  lodges := .of_stores h
  told column mem := by
    refine .inr ⟨c.stored, rfl, ?_⟩
    rw [show t.at? (Place.index (c.name :: r) column.name) = _ from
      h.houses.holds [column.name ++ ".idx", "indexes"], TableFiles.at?_index,
      h.proper.index_files mem]
    rfl
  distinct := h.proper.nodup

/-- After a change of the records the files of the table are where they belong, and the files
of indexes tell the records there were. -/
theorem withRecords (h : t.Agrees root r c) {sync : Bool} (lastId : RecordId)
    (stirs : (Lodging.ofTable (c.name :: r)).Stirs t t')
    (holds : { c.recordFile root sync with lastId }.Holds (.ofTable (c.name :: r)) now t')
    (counter : t'.at? (Lodging.ofTable (c.name :: r)).counter = none ∨
      ∃ id, (Lodging.ofTable (c.name :: r)).Counts id t') :
    t'.Lodges root r { c with stored := now } ∧
      ∀ column ∈ c.indexed, t'.Tells (c.name :: r) column (· = c.stored) :=
  ⟨h.lodges.withRecords stirs
    (fun _ => ⟨holds.dataSite, holds.counterSite, holds.data, holds.arity⟩) counter,
    fun column mem => (h.told column mem).of_eq (Lodges.same_index_of_records stirs column.name)⟩

/-- The same after a change of the data file alone. -/
theorem withData (h : t.Agrees root r c) {sync : Bool}
    (stirs : Stirs (Lodging.ofTable (c.name :: r)).data (Lodging.ofTable (c.name :: r)).besideData
      t t')
    (holds : (c.recordFile root sync).Holds (.ofTable (c.name :: r)) now t') :
    t'.Lodges root r { c with stored := now } ∧
      ∀ column ∈ c.indexed, t'.Tells (c.name :: r) column (· = c.stored) := by
  have same := Lodging.same_counter stirs
  exact h.withRecords c.lastId ((h.lodges.records sync).stirs_data stirs) holds
    (h.lodges.counter.imp same.trans fun ⟨id, counts⟩ => ⟨id, same.trans counts⟩)

end Agrees

/-! ## Writing the indexes -/

/-- If not all indexes can be written, those after the one that cannot may be out of date. -/
theorem Lodges.ensures_persistAll_now {F : Tolerance} {d : Disk} {now : List Stored}
    (clean : F.Clean) (orderly : { c with stored := now }.Orderly)
    (h : d.tree.Lodges root r { c with stored := now })
    (told : ∀ column ∈ c.indexed, d.tree.Tells (c.name :: r) column (· = c.stored)) (sync : Bool) :
    (TableIndexes.persistAll ({ c with stored := now }.tableIndexes root sync)).Ensures F
      (fun result d' => ∀ e, result = .error e → d'.tree.Trails root r c) d := by
  have all : ∀ column ∈ c.indexed, column ∈ c.indexed := fun _ mem => mem
  have writes := h.ensures_persistAll clean
    (x := { c with stored := now }.tableIndexes root sync) all orderly.distinct rfl now
  refine Action.Ensures.mono writes ?_
  rintro _ d' ⟨lodges, written, left, split, tell, same, outcome⟩ e rfl
  have unwritten {column : Column} (mem : column ∈ left) :
      column.name ∉ written.map fun column => column.name := by
    have distinct := orderly.distinct
    rw [Contents.indexedNames, split, List.map_append] at distinct
    exact fun again => (List.disjoint_of_nodup_append distinct) again
      (List.mem_map_of_mem (f := fun column : Column => column.name) mem)
  obtain ⟨before, last, rfl, gone⟩ := outcome
  replace split : c.indexed = before ++ [last] ++ left := split
  have after : last :: left <:+ c.indexed := ⟨before, by rw [split, List.append_cons]⟩
  refine ⟨left, now, ⟨orderly, lodges, fun column mem => ?_⟩, .inr ⟨last, after, gone⟩⟩
  rw [split, List.mem_append] at mem
  rcases mem with mem | mem
  · exact (tell column mem).mono fun _ same => .inl same
  · exact ((told column (split ▸ List.mem_append_right _ mem)).of_eq (same _ (unwritten mem))).mono
      fun _ same => .inr ⟨mem, same⟩

namespace Agrees

variable {F : Tolerance} {d : Disk} {now : List Stored}

/-! ## Adding a record -/

/-- Entering a record into the indexes after it was added. -/
theorem ensures_onInsert (clean : F.Clean) {s : Stored}
    (orderly : { c with stored := c.stored ++ [s] }.Orderly)
    (lodges : d.tree.Lodges root r { c with stored := c.stored ++ [s] })
    (told : ∀ column ∈ c.indexed, d.tree.Tells (c.name :: r) column (· = c.stored)) (sync : Bool) :
    (TableIndexes.onInsert s).Ensures F
      (fun result _ d' => ∀ e, result = .error e → d'.tree.Trails root r c)
      (c.tableIndexes root sync) d := by
  have keyed : TableIndexes.Keyed c.indexed [s] := fun column mem s' hs' =>
    orderly.keyed column mem s' (List.mem_append_right _ hs')
  have entered : TableIndexes.enter (c.tableIndexes root sync).table s
      (c.tableIndexes root sync).indexes =
        (.ok (), TableIndexes.ofStored c.indexed (c.stored ++ [s])) :=
    TableIndexes.enter_ofStored keyed
  unfold TableIndexes.onInsert
  refine .bind_get ?_
  split
  · exact .pure nofun
  rw [entered]
  refine .bind_set (.bind (Q := fun result s' d' => result = .ok () ∧ d' = d ∧
    s' = { c with stored := c.stored ++ [s] }.tableIndexes root sync) (.ofAction ⟨rfl, rfl, rfl⟩)
    ?_ ?_)
  · rintro _ _ _ ⟨-, rfl, rfl⟩
    exact .ofAction (lodges.ensures_persistAll_now clean orderly told sync)
  · rintro e _ _ ⟨impossible, -⟩
    cases impossible

/-- A record that is not added, or not to all indexes. -/
theorem ensures_insert (clean : F.Clean) (h : d.tree.Agrees root r c) {record : Record}
    (arity : record.arity = c.schema.arity)
    (keyed : ∀ column ∈ c.indexed, (record.key? column.position).isSome) (sync : Bool) :
    (Table.insert record).Ensures F
      (fun result _ d' => ∀ e, result = .error e → d'.tree.Trails root r c)
      (c.handle root sync) d := by
  have appends := (h.lodges.records sync).ensures_append clean.toContained arity
  unfold Table.insert Table.onRecords
  refine .bind (Q := fun result t d' =>
    match result with
    | .error _ => d'.tree.Outdates root r c [] c.stored
    | .ok id => t.indexes = c.tableIndexes root sync ∧
        d'.tree.Lodges root r { c with stored := c.stored ++ [(id, record)] } ∧
        ∀ column ∈ c.indexed, d'.tree.Tells (c.name :: r) column (· = c.stored))
    (.onPart (appends.mono ?_)) ?_ ?_
  · rintro result s d' ⟨stirs, ⟨e, rfl, rfl, holds, same⟩ | ⟨-, rfl, counts, outcome⟩⟩
    · obtain ⟨lodges, told⟩ := h.withRecords c.lastId stirs holds
        (h.lodges.counter.imp same.trans fun ⟨id, counts⟩ => ⟨id, same.trans counts⟩)
      exact outdates_of_told h.orderly lodges told
    obtain ⟨rfl, holds⟩ | ⟨e, rfl, holds | ⟨⟨path, content, sync, m, befalls, late⟩, -⟩⟩ := outcome
    · exact ⟨rfl, h.withRecords _ stirs holds (.inr ⟨_, counts⟩)⟩
    · obtain ⟨lodges, told⟩ := h.withRecords _ stirs holds (.inr ⟨_, counts⟩)
      exact outdates_of_told h.orderly lodges told
    · exact absurd late (clean.appendsNothing path content sync m befalls)
  · rintro id t d' ⟨same, lodges, told⟩
    have orderly : ({ c with stored := c.stored ++ [(id, record)] } : Contents).Orderly :=
      ⟨h.orderly.definition, h.orderly.indexed, h.orderly.distinct, h.orderly.keyed.concat keyed id⟩
    refine .bind_pure (.onPart ?_)
    rw [same]
    exact ensures_onInsert clean orderly lodges told sync
  · exact fun e t d' outdates _ _ => outdates.trails

/-! ## Setting a field -/

/-- No key in another column is changed, so the file of its index tells the new records as
well. -/
theorem tells_assign (h : c.Orderly) {accepts : Record → Bool} {column other : Column}
    (hc : column ∈ c.schema.columns) {value : String}
    (told : ∀ column ∈ c.indexed, t.Tells (c.name :: r) column (· = c.stored))
    (stirs : Stirs (Place.index (c.name :: r) column.name)
      (Place.besideIndex (c.name :: r) column.name) t t')
    (ho : other ∈ c.indexed) (ne : other ≠ column) :
    t'.Tells (c.name :: r) other (· = (c.assign accepts column.position value).stored) := by
  have named : other.name ≠ column.name := fun same =>
    ne (h.definition.schema.eq_of_name_eq (h.indexed other ho) hc same)
  refine ((told other ho).of_eq (Lodges.same_index stirs named)).imp_right ?_
  rintro ⟨_, rfl, text⟩
  refine ⟨_, rfl, ?_⟩
  rw [text, Contents.ofStored_assign_of_ne h.definition.schema hc (h.indexed other ho) ne]

/-- The index of the column follows an update, or loses its file. -/
theorem ensures_onUpdate (clean : F.Clean) (h : c.Orderly) (distinct : (c.stored.map Prod.fst).Nodup)
    {accepts : Record → Bool} {column : Column} (hc : column ∈ c.schema.columns) {value : String}
    (number : column ∈ c.indexed → (Numeral.int32? value).isSome)
    (orderly : (c.assign accepts column.position value).Orderly)
    (lodges : d.tree.Lodges root r (c.assign accepts column.position value))
    (told : ∀ column ∈ c.indexed, d.tree.Tells (c.name :: r) column (· = c.stored)) (sync : Bool) :
    (TableIndexes.onUpdate column.name (c.changes accepts column value)).Ensures F
      (fun result _ d' => ∀ e, result = .error e →
        d'.tree.Outdates root r c [] (c.assign accepts column.position value).stored)
      (c.tableIndexes root sync) d := by
  unfold TableIndexes.onUpdate
  refine .bind_get ?_
  by_cases mem : column ∈ c.indexed
  · have others (other : Column) (ho : other ∈ c.indexed) (ne : other ≠ column) :
        Index.ofStored other (c.assign accepts column.position value).stored =
          Index.ofStored other c.stored :=
      Contents.ofStored_assign_of_ne h.definition.schema hc (h.indexed other ho) ne
    obtain ⟨place, found, set⟩ := TableIndexes.set_ofStored h.distinct mem c.stored
      (c.assign accepts column.position value).stored others
    have index := Contents.get?_tableIndexes_of_mem h.distinct mem root sync
    have followed := Contents.foldlM_follow_changes h.keyed distinct mem (number mem) accepts
    rw [show List.findIdx? _ (c.tableIndexes root sync).indexes = _ from found, index]
    refine .bind (Q := fun result s d' => s = c.tableIndexes root sync ∧ d' = d ∧
      result = .ok (Index.ofStored column (c.assign accepts column.position value).stored,
        (c.changes accepts column value).any TableIndexes.changesKey))
      (.ofAction (.ofResult ⟨rfl, rfl, followed⟩)) ?_ ?_
    · rintro _ _ _ ⟨rfl, rfl, ⟨⟩⟩
      dsimp only
      split
      · refine .bind_set (.ofAction ((lodges.ensures_persist clean mem rfl _).mono ?_))
        rintro _ d' ⟨stirs, file⟩ e rfl
        refine outdates_of_told orderly (lodges.withIndex mem stirs) fun other ho => ?_
        by_cases here : other = column
        · exact .inl (here ▸ file)
        · exact tells_assign h hc told stirs ho here
      · exact .pure nofun
    · rintro e _ _ ⟨-, -, impossible⟩
      cases impossible
  · rw [Contents.get?_tableIndexes_eq_none (fun other ho named => mem
      (h.definition.schema.eq_of_name_eq (h.indexed other ho) hc named ▸ ho))]
    split
    · next impossible => cases impossible
    · exact .pure nofun

/-- An update that is not made, or not followed by the index of the column. -/
theorem ensures_updateWhere (clean : F.Clean) (h : d.tree.Agrees root r c)
    (accepts : Record → Bool) {name value : String}
    (number : ∀ column ∈ c.indexed, column.name = name → (Numeral.int32? value).isSome)
    (sync : Bool) :
    (Table.updateWhere accepts name value).Ensures F
      (fun result _ d' => ∀ e, result = .error e → ∃ now, d'.tree.Outdates root r c [] now)
      (c.handle root sync) d := by
  have schema := h.orderly.definition.schema
  unfold Table.updateWhere
  refine .bind_get (.bind (Q := fun result t d' => t = c.handle root sync ∧ d' = d ∧
    ∀ column, result = .ok column → c.schema.column? name = some column)
    (.ofAction (.ofResult ⟨rfl, rfl, fun column found => Definition.column_eq_ok.1 found⟩)) ?_ ?_)
  · rintro column _ _ ⟨rfl, rfl, known⟩
    have hc := Schema.mem_of_column? (known column rfl)
    obtain rfl := Schema.name_of_column? (known column rfl)
    have orderly : (c.assign accepts column.position value).Orderly := by
      refine ⟨h.orderly.definition, h.orderly.indexed, h.orderly.distinct,
        h.orderly.keyed.assign accepts fun other ho same => number other ho ?_⟩
      rw [schema.eq_of_position_eq (h.orderly.indexed other ho) hc same]
    have updates := (h.lodges.records sync).ensures_updateWhere clean.toContained accepts
      column.position value
    refine .bind (Q := fun result t d' => t = c.handle root sync ∧
      match result with
      | .error _ => d'.tree.Outdates root r c [] c.stored
      | .ok changes => changes = c.changes accepts column value ∧
          d'.tree.Lodges root r (c.assign accepts column.position value) ∧
          ∀ column ∈ c.indexed, d'.tree.Tells (c.name :: r) column (· = c.stored))
      (.ofAction (updates.mono ?_)) ?_ ?_
    · rintro (e | changes) d' ⟨stirs, outcome⟩
      · obtain ⟨lodges, told⟩ := h.withData stirs outcome
        exact ⟨rfl, outdates_of_told h.orderly lodges told⟩
      · obtain ⟨rfl, holds | ⟨unchanged, holds⟩⟩ := outcome
        · exact ⟨rfl, rfl, h.withData stirs holds⟩
        · have same := Contents.stored_assign_of_unchanged schema hc holds.arity unchanged
          exact ⟨rfl, rfl, h.withData stirs (same ▸ holds)⟩
    · rintro changes _ d' ⟨rfl, rfl, lodges, told⟩
      refine .bind_pure (.onPart ?_)
      refine (ensures_onUpdate clean h.orderly h.distinct hc (fun mem => number column mem rfl)
        orderly lodges told sync).mono fun result _ d'' outdates e failed =>
          ⟨_, outdates e failed⟩
    · rintro e t d' ⟨-, outdates⟩ _ _
      exact ⟨_, outdates⟩
  · rintro e _ _ ⟨rfl, rfl, -⟩ _ _
    exact ⟨_, outdates_of_told h.orderly h.lodges h.told⟩

/-! ## Removing records -/

/-- Taking removed records out of the indexes. -/
theorem ensures_onDelete (clean : F.Clean) (h : c.Orderly) (distinct : (c.stored.map Prod.fst).Nodup)
    {accepts : Record → Bool} (lodges : d.tree.Lodges root r (c.remove accepts))
    (told : ∀ column ∈ c.indexed, d.tree.Tells (c.name :: r) column (· = c.stored)) (sync : Bool) :
    (TableIndexes.onDelete (c.stored.filter fun s => accepts s.2)).Ensures F
      (fun result _ d' => ∀ e, result = .error e → d'.tree.Trails root r c)
      (c.tableIndexes root sync) d := by
  have orderly : (c.remove accepts).Orderly :=
    ⟨h.definition, h.indexed, h.distinct, h.keyed.filter _⟩
  have left := TableIndexes.foldlM_leave c.name [] (fun s : Stored => accepts s.2) h.keyed distinct
  unfold TableIndexes.onDelete
  refine .bind_get ?_
  split
  · exact .pure nofun
  refine .bind (Q := fun result s d' => s = c.tableIndexes root sync ∧ d' = d ∧
    result = .ok (TableIndexes.ofStored c.indexed (c.remove accepts).stored))
    (.ofAction (.ofResult ⟨rfl, rfl, left⟩)) ?_ ?_
  · rintro _ _ _ ⟨rfl, rfl, ⟨⟩⟩
    exact .bind_set (.ofAction (lodges.ensures_persistAll_now clean orderly told sync))
  · rintro e _ _ ⟨-, -, impossible⟩
    cases impossible

/-- Records that are not removed, or not from all indexes. -/
theorem ensures_deleteWhere (clean : F.Clean) (h : d.tree.Agrees root r c)
    (accepts : Record → Bool) (sync : Bool) :
    (Table.deleteWhere accepts).Ensures F
      (fun result _ d' => ∀ e, result = .error e → d'.tree.Trails root r c)
      (c.handle root sync) d := by
  have deletes := (h.lodges.records sync).ensures_deleteWhere clean.toContained accepts
  unfold Table.deleteWhere
  refine .bind_get (.bind (Q := fun result t d' => t = c.handle root sync ∧
    match result with
    | .error _ => d'.tree.Outdates root r c [] c.stored
    | .ok removed => removed = c.stored.filter (fun s => accepts s.2) ∧
        d'.tree.Lodges root r (c.remove accepts) ∧
        ∀ column ∈ c.indexed, d'.tree.Tells (c.name :: r) column (· = c.stored))
    (.ofAction (deletes.mono ?_)) ?_ ?_)
  · rintro (e | removed) d' ⟨stirs, outcome⟩
    · obtain ⟨lodges, told⟩ := h.withData stirs outcome
      exact ⟨rfl, outdates_of_told h.orderly lodges told⟩
    · exact ⟨rfl, outcome.1, h.withData stirs outcome.2⟩
  · rintro removed _ d' ⟨rfl, rfl, lodges, told⟩
    exact .bind_pure (.onPart (ensures_onDelete clean h.orderly h.distinct lodges told sync))
  · exact fun e t d' ⟨_, outdates⟩ _ _ => outdates.trails

/-- Emptying the indexes. -/
theorem ensures_clear (clean : F.Clean) (h : c.Orderly)
    (lodges : d.tree.Lodges root r { c with stored := [] })
    (told : ∀ column ∈ c.indexed, d.tree.Tells (c.name :: r) column (· = c.stored)) (sync : Bool) :
    TableIndexes.clear.Ensures F
      (fun result _ d' => ∀ e, result = .error e → d'.tree.Trails root r c)
      (c.tableIndexes root sync) d := by
  have orderly : ({ c with stored := [] } : Contents).Orderly :=
    ⟨h.definition, h.indexed, h.distinct, fun _ _ _ none => nomatch none⟩
  have cleared : (c.tableIndexes root sync).indexes.map Index.clear =
      TableIndexes.ofStored c.indexed [] := by
    show (c.indexed.map _).map Index.clear = _
    rw [List.map_map]
    exact List.map_congr_left fun column _ => Index.clear_ofStored column c.stored
  rw [TableIndexes.clear]
  refine .bind_get ?_
  dsimp only
  rw [cleared]
  exact .bind_set (.ofAction (lodges.ensures_persistAll_now clean orderly told sync))

/-- All records are removed, or not; the indexes may not all be emptied. -/
theorem ensures_deleteAll (clean : F.Clean) (h : d.tree.Agrees root r c) (sync : Bool) :
    Table.deleteAll.Ensures F (fun result _ d' => ∀ e, result = .error e → d'.tree.Trails root r c)
      (c.handle root sync) d := by
  have unchanged := (outdates_of_told h.orderly h.lodges h.told).trails
  unfold Table.deleteAll
  refine .bind_get (.bind (Q := fun _ t d' => t = c.handle root sync ∧ d' = d)
    (.ofAction ((h.lodges.records sync).ensures_size.mono fun _ _ same => ⟨rfl, same⟩)) ?_ ?_)
  · rintro count _ _ ⟨rfl, rfl⟩
    refine .bind (Q := fun result t d' => t = c.handle root sync ∧
      match result with
      | .error _ => d'.tree.Outdates root r c [] c.stored
      | .ok _ => d'.tree.Lodges root r { c with stored := [] } ∧
          ∀ column ∈ c.indexed, d'.tree.Tells (c.name :: r) column (· = c.stored))
      (.ofAction ((h.lodges.records sync).ensures_truncate.mono ?_)) ?_ ?_
    · rintro (e | _) d' ⟨stirs, outcome⟩
      · obtain holds | ⟨⟨m, befalls, late⟩, -⟩ := outcome
        · obtain ⟨lodges, told⟩ := h.withData stirs holds
          exact ⟨rfl, outdates_of_told h.orderly lodges told⟩
        · exact absurd late (clean.truncatesNothing _ _ m befalls)
      · exact ⟨rfl, h.withData stirs outcome⟩
    · rintro _ _ d' ⟨rfl, lodges, told⟩
      exact .bind_pure (.onPart (ensures_clear clean h.orderly lodges told sync))
    · exact fun e t d' ⟨_, outdates⟩ _ _ => outdates.trails
  · rintro e _ _ ⟨rfl, rfl⟩ _ _
    exact unchanged

end Agrees

end FileTree

end FlatDB
