/-
# Indexes that are made anew

Which columns have an index is told by a list, and what is in an index follows from
the records.  So a table has lost nothing when files of its indexes are missing or are
no indexes of their columns: opening it makes each of these indexes from the records,
which gives the very index that was lost, and writes it, which gives the very file.
-/

import FlatDB.Proofs.Table.Making

namespace FlatDB

/-- Whether bytes are no document of an index, or of an index of another column. -/
def Index.IsForeign (column : String) (bytes : Bytes) : Prop :=
  ∀ position i, ofBytes? position bytes = some i → i.column ≠ column

/-- The files of indexes of which only some are what they should be: those of the given
columns may be missing or foreign. -/
def Contents.Impaired (c : Contents) (columns : List Column) (index : String → Option Bytes) :
    Prop :=
  ∀ name, index name = c.files.index name ∨ (∃ column ∈ columns, column.name = name) ∧
    ∀ bytes, index name = some bytes → Index.IsForeign name bytes

/-- Once a file is written there is one file less to be written. -/
theorem Contents.Impaired.withIndex {c : Contents} {column : Column} {back : List Column}
    {index : String → Option Bytes} (h : c.Impaired (column :: back) index) {content : Bytes}
    (written : c.files.index column.name = some content) :
    c.Impaired back fun name => if name = column.name then some content else index name := by
  intro name
  by_cases this : name = column.name
  · refine .inl ?_
    simp only [this, if_true, written]
  · simp only [if_neg this]
    refine (h name).imp_right fun ⟨⟨other, mem, named⟩, foreign⟩ => ⟨⟨other, ?_, named⟩, foreign⟩
    exact (List.mem_cons.1 mem).resolve_left fun same => this (same ▸ named.symm)

/-- Only the files of indexes tell of the indexes. -/
theorem TableFiles.at?_of_not_index {f : TableFiles} {index : String → Option Bytes} {inner : Place}
    (other : ∀ name, inner ≠ [name ++ ".idx", "indexes"]) :
    TableFiles.at? { f with index } inner = f.at? inner := by
  unfold at?
  split
  case h_7 file notList =>
    cases found : columnOf? file with
    | none => rfl
    | some column => exact absurd (by rw [columnOf?_eq_some_iff.1 found]) (other column)
  all_goals rfl

namespace FileTree.Retains

variable {t : FileTree} {root : Path} {r : Place} {c : Contents} {index : String → Option Bytes}

/-- The file of an index is read if it is what it should be. -/
theorem runs_readIndex? (h : t.Retains root r c index) {x : TableIndexes}
    (layout : x.layout = Layout.ofTable root c.name) {column : Column} (mem : column ∈ c.indexed)
    (kept : index column.name = c.files.index column.name) :
    (x.readIndex? column.name column.position).Runs t
      (.ok (some (Index.ofStored column c.stored))) t := by
  rw [TableIndexes.readIndex?]
  rw [layout]
  refine .bind (h.houses.runs_read_index (isStep_of_isValid (h.proper.isValid mem))
    (h.rooms column mem) (kept.trans (h.proper.index_files mem))) ?_
  simp only [Index.filter_ofBytes?_ofStored]
  exact .pure _ t

/-- The file of an index is not trusted if it is missing or foreign. -/
theorem runs_readIndex?_of_foreign (h : t.Retains root r c index) {x : TableIndexes}
    (layout : x.layout = Layout.ofTable root c.name) {column : Column} (mem : column ∈ c.indexed)
    (foreign : ∀ bytes, index column.name = some bytes → Index.IsForeign column.name bytes) :
    (x.readIndex? column.name column.position).Runs t (.ok none) t := by
  have step := isStep_of_isValid (h.proper.isValid mem)
  rw [TableIndexes.readIndex?]
  rw [layout]
  cases found : index column.name with
  | none =>
      exact .bind (h.houses.runs_read_index_of_absent step (h.rooms column mem) found)
        (.pure _ t)
  | some bytes =>
      refine .bind (h.houses.runs_read_index step (h.rooms column mem) found) ?_
      have refused : (Index.ofBytes? column.position bytes).filter
          (fun i => i.column == column.name) = none := by
        rw [Option.filter_eq_none_iff]
        intro i read
        simpa using foreign bytes found column.position i read
      simp only [refused]
      exact .pure _ t

/-- An index is opened, and its file is then what it should be. -/
theorem runs_loadIndex (h : t.Retains root r c index) (sync : Bool) {column : Column}
    {back : List Column} (impaired : c.Impaired (column :: back) index)
    (mem : column ∈ c.indexed) (opened : List Index) :
    ∃ index' t', (TableIndexes.loadIndex c.definition (c.recordFile root sync)
          ⟨c.name, Layout.ofTable root c.name, opened, sync⟩ column.name).Runs t
        (.ok ⟨c.name, Layout.ofTable root c.name, opened ++ [Index.ofStored column c.stored],
          sync⟩) t' ∧
      t'.Retains root r c index' ∧ c.Impaired back index' ∧ SameOutside (c.name :: r) t t' := by
  obtain ⟨inside, int⟩ := h.proper.indexed column mem
  have known : c.definition.schema.column? column.name = some column :=
    h.proper.definition.schema.column?_name inside
  rw [TableIndexes.loadIndex]
  simp only [known]
  rcases impaired column.name with kept | ⟨-, foreign⟩
  · refine ⟨index, t, .bind (h.runs_readIndex? rfl mem kept) (.pure _ t), h, fun name => ?_,
      .refl _ t⟩
    rcases impaired name with whole | ⟨⟨other, among, named⟩, damaged⟩
    · exact .inl whole
    rcases List.mem_cons.1 among with rfl | later
    · exact .inl (named ▸ kept)
    · exact .inr ⟨⟨other, later, named⟩, damaged⟩
  · obtain ⟨t', written, becomes⟩ := h.houses.runs_replace_index
      (isStep_of_isValid (h.proper.isValid mem)) (h.rooms column mem)
      (Utf8.encode (Index.ofStored column c.stored).text) sync
    refine ⟨_, t', .bind (h.runs_readIndex?_of_foreign rfl mem foreign)
      (.bind (h.runs_build sync _ inside int) (.bind (x := ()) ?_ (.pure _ t'))),
      ⟨h.proper, becomes.houses, h.rooms⟩, impaired.withIndex (h.proper.index_files mem),
      becomes.same⟩
    rw [TableIndexes.writeIndex]
    rw [Index.column_ofStored]
    exact written

/-- The indexes of listed columns are opened one after the other, and all their files are
then what they should be. -/
theorem runs_loadIndexes (h : t.Retains root r c index) (sync : Bool) (front : List Column)
    {back : List Column} (split : c.indexed = front ++ back) (impaired : c.Impaired back index) :
    ∃ t', ((back.map fun column => column.name).foldlM
          (TableIndexes.loadIndex c.definition (c.recordFile root sync))
          ⟨c.name, Layout.ofTable root c.name, TableIndexes.ofStored front c.stored, sync⟩).Runs t
        (.ok (c.tableIndexes root sync)) t' ∧
      t.Turns root r c t' := by
  induction back generalizing t index front with
  | nil =>
      rw [List.append_nil] at split
      have whole : index = c.files.index := by
        funext name
        exact (impaired name).resolve_right fun ⟨⟨_, among, _⟩, _⟩ => by simp at among
      subst whole
      rw [← split]
      exact ⟨t, .pure _ t, ⟨h.proper, h.houses, h.rooms⟩, .refl _ t⟩
  | cons column back ih =>
      have mem : column ∈ c.indexed := split ▸ List.mem_append_right front List.mem_cons_self
      obtain ⟨index', t₁, first, retains, less, same⟩ := h.runs_loadIndex sync impaired mem
        (TableIndexes.ofStored front c.stored)
      have more : TableIndexes.ofStored front c.stored ++ [Index.ofStored column c.stored] =
          TableIndexes.ofStored (front ++ [column]) c.stored := by
        simp [TableIndexes.ofStored]
      rw [more] at first
      obtain ⟨t₂, rest, turns⟩ := ih retains (front ++ [column]) (by simp [split]) less
      refine ⟨t₂, ?_, turns.stores, same.trans turns.same⟩
      rw [List.map_cons, List.foldlM_cons]
      exact .bind first rest

/-- Opening a table makes the indexes anew that cannot be read, and yields the table as it
was. -/
theorem runs_load_of_impaired (h : t.Retains root r c index) (sync : Bool)
    (impaired : c.Impaired c.indexed index) (fits : Header.Fits c.definition) :
    ∃ t', (Table.load root c.name sync).Runs t (.ok (c.handle root sync)) t' ∧
      t.Turns root r c t' := by
  obtain ⟨t', loaded, turns⟩ := h.runs_loadIndexes sync [] rfl impaired
  exact ⟨t', h.runs_load_of_fits fits sync (.bind (h.runs_readList _ rfl) loaded), turns⟩

end FileTree.Retains

/-! ## Harm done to indexes -/

/-- What may have been done to a tree behind the back of a table: files of its indexes may
have been taken away, or overwritten with what is no index of their column.  All else is as it
was. -/
structure Table.Harmed (x : Table) (t t' : FileTree) : Prop where
  here : t'.here = t.here
  places : ∀ p, t'.at? p = t.at? p ∨ ∃ i ∈ x.indexes.indexes,
    t.place (x.layout.index i.column) = .ok p ∧ (t'.at? p = none ∨
      ∃ bytes, t'.at? p = some (.file bytes) ∧ Index.IsForeign i.column bytes)

/-- Overwriting the file of one index. -/
theorem Table.Harmed.put {x : Table} {t : FileTree} {i : Index} (among : i ∈ x.indexes.indexes)
    {p : Place} (ne : p ≠ []) (placed : t.place (x.layout.index i.column) = .ok p) {bytes : Bytes}
    (foreign : Index.IsForeign i.column bytes) : x.Harmed t (t.put p (.file bytes)) := by
  refine ⟨rfl, fun q => ?_⟩
  rw [FileTree.at?_put t ne]
  by_cases there : q = p
  · rw [if_pos there]
    exact .inr ⟨i, among, there ▸ placed, .inr ⟨bytes, rfl, foreign⟩⟩
  · exact .inl (if_neg there)

namespace FileTree

variable {t t' : FileTree} {root : Path} {r : Place} {c : Contents} {sync : Bool}

/-- What is in a file, if there is one. -/
def bytesAt? (t : FileTree) (p : Place) : Option Bytes :=
  match t.at? p with
  | some (.file bytes) => some bytes
  | _ => none

/-- Where the file of an index is. -/
theorem Stores.place_index (h : t.Stores root r c) {column : Column} (mem : column ∈ c.indexed) :
    t.place ((Layout.ofTable root c.name).index column.name) =
      .ok ((column.name ++ ".idx") :: "indexes" :: c.name :: r) := by
  have step := isStep_index (isStep_of_isValid (h.proper.isValid mem))
  have placed := h.houses.leads_indexes.place_join step
  rwa [if_pos (h.rooms column mem).of_staged] at placed

/-- A place that harm has been done to is that of the file of an index. -/
theorem Stores.harmed_cases (h : t.Stores root r c) (harmed : (c.handle root sync).Harmed t t')
    (p : Place) :
    t'.at? p = t.at? p ∨ ∃ column ∈ c.indexed,
      p = [column.name ++ ".idx", "indexes"] ++ c.name :: r ∧ (t'.at? p = none ∨
        ∃ bytes, t'.at? p = some (.file bytes) ∧ Index.IsForeign column.name bytes) := by
  refine (harmed.places p).imp_right fun ⟨i, among, placed, harm⟩ => ?_
  obtain ⟨column, mem, rfl⟩ := List.mem_map.1 among
  rw [Index.column_ofStored] at placed harm
  exact ⟨column, mem, (Except.ok.inj ((h.place_index mem).symm.trans placed)).symm, harm⟩

/-- A table that has been harmed retains all but files of its indexes. -/
theorem Stores.retains_of_harmed (h : t.Stores root r c)
    (harmed : (c.handle root sync).Harmed t t') :
    ∃ index, t'.Retains root r c index ∧ c.Impaired c.indexed index ∧
      SameOutside (c.name :: r) t t' := by
  let place (name : String) : Place := [name ++ ".idx", "indexes"] ++ c.name :: r
  have before (name : String) : t.at? (place name) = (c.files.index name).map .file :=
    (h.houses.holds _).trans (TableFiles.at?_index name)
  -- What is left in the place of an index is a file, if it is anything.
  have left (name : String) : t'.at? (place name) = (t'.bytesAt? (place name)).map .file := by
    rw [bytesAt?]
    rcases h.harmed_cases harmed (place name) with same | ⟨_, _, _, gone | ⟨bytes, there, _⟩⟩
    · rw [same, before]
      cases c.files.index name <;> rfl
    · rw [gone]
      rfl
    · rw [there]
      rfl
  have outside (p : Place) (other : ∀ name, p ≠ place name) : t'.at? p = t.at? p :=
    (h.harmed_cases harmed p).resolve_right fun ⟨column, _, here, _⟩ => other column.name here
  refine ⟨fun name => t'.bytesAt? (place name), ⟨h.proper, ⟨?_, h.houses.step, h.houses.room, ?_⟩,
    h.rooms⟩, fun name => ?_, harmed.here, fun p away => outside p ?_⟩
  · refine h.houses.leads.mono ⟨harmed.here, fun p directory => ?_⟩
    rw [outside p, directory]
    rintro name rfl
    rw [before] at directory
    cases found : c.files.index name <;> simp [found] at directory
  · intro inner
    by_cases among : ∃ name, inner = [name ++ ".idx", "indexes"]
    · obtain ⟨name, rfl⟩ := among
      rw [TableFiles.at?_index]
      exact left name
    · rw [outside _ fun name same => among ⟨name, List.append_cancel_right same⟩, h.houses.holds]
      exact (TableFiles.at?_of_not_index fun name same => among ⟨name, same⟩).symm
  · rcases h.harmed_cases harmed (place name) with same | ⟨column, mem, here, harm⟩
    · refine .inl ?_
      have both := (left name).symm.trans (same.trans (before name))
      exact Option.map_injective (fun _ _ e => Entry.file.inj e) both
    · have named : column.name = name := by
        have file := (List.cons.inj (List.append_cancel_right here)).1
        have columns := congrArg TableFiles.columnOf? file
        simpa using columns.symm
      subst named
      refine .inr ⟨⟨column, mem, rfl⟩, fun bytes found => ?_⟩
      have there : t'.at? (place column.name) = some (.file bytes) := by
        rw [left, show t'.bytesAt? (place column.name) = some bytes from found, Option.map_some]
      rcases harm with gone | ⟨bytes', there', foreign⟩
      · exact absurd (gone.symm.trans there) (by simp)
      · cases there'.symm.trans there
        exact foreign
  · rintro name rfl
    rw [below?_append] at away
    cases away

/-- Opening a table that has been harmed yields the table as it was, and undoes the harm. -/
theorem Stores.runs_load_of_harmed (h : t.Stores root r c) (fits : Header.Fits c.definition)
    (harmed : (c.handle root sync).Harmed t t') :
    ∃ t'', (Table.load root c.name sync).Runs t' (.ok (c.handle root sync)) t'' ∧ t.Same t'' := by
  obtain ⟨index, retains, impaired, harm⟩ := h.retains_of_harmed harmed
  obtain ⟨t'', loaded, healed⟩ := retains.runs_load_of_impaired sync impaired fits
  have same := harm.trans healed.same
  refine ⟨t'', loaded, same.here, fun p => ?_⟩
  cases below : below? (c.name :: r) p with
  | none => exact same.outside p below
  | some inner =>
      rw [below?_eq_some_iff.1 below, healed.stores.houses.holds, h.houses.holds]

end FileTree

end FlatDB
