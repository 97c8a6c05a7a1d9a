/-
# Tables keep to their directories

All paths of a table are made of the path of its directory and of names that are single
steps, provided the names of its columns are identifiers.  A table of which that is
known keeps to these paths whatever is done to it, and it stays known, because no
operation changes where a table is kept, and an index keeps its column.

The one thing that is taken from outside is the header: nothing checks the names of the
columns in it.  So opening a table keeps to its directory if the header that is read
then declares identifiers.
-/

import FlatDB.Proofs.Disk.Fences
import FlatDB.Proofs.Schema.Reading
import FlatDB.Proofs.Table.Interruptions
import FlatDB.Query.Execute

namespace FlatDB

variable {within : Path → Prop}

/-! ## Layouts -/

/-- Whether all paths of a table are among some. -/
structure Layout.Inside (within : Path → Prop) (l : Layout) : Prop where
  directory : within l.directory
  header : within l.header
  data : within l.data
  dataStaged : within l.data.staged
  counter : within l.counter
  counterStaged : within l.counter.staged
  indexes : within l.indexes
  list : within l.indexList
  listStaged : within l.indexList.staged
  index : ∀ column, Identifier.isValid column = true → within (l.index column)
  indexStaged : ∀ column, Identifier.isValid column = true → within (l.index column).staged

/-- The paths of a table are those of its directory and of what is in it. -/
theorem Layout.inside_of_isIn {root : Path} {name : String} (step : Path.IsStep name)
    (ne : root.text.toList ≠ []) (isIn : ∀ path : Path, path.IsIn (root.join name) → within path) :
    Layout.Inside within ⟨root.join name⟩ := by
  have self := Path.isIn_self (root.join name)
  have ne' := Path.toList_join_ne_nil step ne
  have file {name : String} (file : Path.IsStep name) := isIn _ (self.join file)
  have staged {file : String} (hf : Path.IsStep file) :
      within ((root.join name).join file).staged := by
    rw [Path.staged_join_join step hf ne]
    exact isIn _ (self.join (isStep_stagedName hf))
  have index {file : String} (hf : Path.IsStep file) :
      within (((root.join name).join "indexes").join file) :=
    isIn _ ((self.join isStep_indexes).join hf)
  have indexStaged {file : String} (hf : Path.IsStep file) :
      within (((root.join name).join "indexes").join file).staged := by
    rw [Path.staged_join_join isStep_indexes hf ne']
    exact index (isStep_stagedName hf)
  exact {
    directory := isIn _ self
    header := file fileName_header.step
    data := file fileName_data.step
    dataStaged := staged fileName_data.step
    counter := file fileName_counter.step
    counterStaged := staged fileName_counter.step
    indexes := file isStep_indexes
    list := index fileName_list.step
    listStaged := indexStaged fileName_list.step
    index := fun _ valid => index (isStep_index (isStep_of_isValid valid))
    indexStaged := fun _ valid => indexStaged (isStep_index (isStep_of_isValid valid)) }

/-! ## Records -/

theorem Action.keepsTo_kind (path : Path) : (Action.kind path).KeepsTo within fun _ => True :=
  .ask fun _ => trivial

theorem Action.keepsTo_read (path : Path) : (Action.read path).KeepsTo within fun _ => True :=
  .call (c := .read path) fun _ => trivial

/-- Whether the files of a store of records are among some. -/
structure RecordFile.Inside (within : Path → Prop) (s : RecordFile) : Prop where
  data : within s.data
  dataStaged : within s.data.staged
  counter : within s.counter
  counterStaged : within s.counter.staged

/-- A store that is kept where a table keeps its records. -/
theorem Layout.Inside.recordFile {l : Layout} (h : l.Inside within) {s : RecordFile}
    (data : s.data = l.data) (counter : s.counter = l.counter) : s.Inside within := by
  refine ⟨?_, ?_, ?_, ?_⟩
  · exact data ▸ h.data
  · exact data ▸ h.dataStaged
  · exact counter ▸ h.counter
  · exact counter ▸ h.counterStaged

namespace RecordFile

theorem keepsTo_scan (s : RecordFile) : s.scan.KeepsTo within fun _ => True :=
  .bind (Action.keepsTo_read _) fun _ _ => .pure trivial

theorem keepsTo_records (s : RecordFile) : s.records.KeepsTo within fun _ => True :=
  .bind s.keepsTo_scan fun _ _ => .check _

theorem keepsTo_size (s : RecordFile) : s.size.KeepsTo within fun _ => True :=
  .bind (Action.keepsTo_read _) fun _ _ => .check _

theorem keepsTo_fetch (s : RecordFile) (ids : IdSet) :
    (s.fetch ids).KeepsTo within fun _ => True := by
  unfold fetch
  split
  · exact .pure trivial
  · exact .bind (Action.keepsTo_read _) fun _ _ => .check _

theorem keepsTo_loadCounter (s : RecordFile) : s.loadCounter.KeepsTo within fun _ => True := by
  refine .bind (.ask (c := .read s.counter) fun _ => trivial) fun reply _ => ?_
  split
  · exact .bind (.ofReply _) fun _ _ => .check _
  · exact .bind s.keepsTo_records fun _ _ => .pure trivial
  · exact .throw _

/-- Opening a store only reads. -/
theorem keepsTo_load (table : String) (data counter : Path) (arity : Nat) (sync : Bool) :
    (load table data counter arity sync).KeepsTo within
      fun s => s.data = data ∧ s.counter = counter := by
  refine .bind (Action.keepsTo_kind data) fun kind _ => ?_
  split
  · exact .bind (.throw (P := fun _ => True) _) fun _ _ =>
      .bind (keepsTo_loadCounter _) fun _ _ => .pure ⟨rfl, rfl⟩
  · exact .bind (keepsTo_loadCounter _) fun _ _ => .pure ⟨rfl, rfl⟩

theorem keepsTo_create {l : Layout} (h : l.Inside within) (table : String) (arity : Nat)
    (sync : Bool) : (create table l.data l.counter arity sync).KeepsTo within fun _ => True :=
  .bind (.call (c := .create l.data) fun _ => h.data) fun _ _ =>
    .bind (Replacement.keepsTo_replace h.counter h.counterStaged _ _) fun _ _ => .pure trivial

variable {s : RecordFile}

theorem Inside.keepsTo_replaceAll (h : s.Inside within) (stored : List Stored) :
    (s.replaceAll stored).KeepsTo within fun _ => True :=
  Replacement.keepsTo_replace h.data h.dataStaged _ _

theorem keepsTo_append (record : Record) :
    (append record).KeepsTo within (Inside within) fun _ => True := by
  refine .bind_get fun s h => ?_
  have added : Update.KeepsTo within (Inside within) (do
      Replacement.replace s.counter (Utf8.encode (Numeral.ofUInt64 (s.lastId + 1))) s.sync
      set { s with lastId := s.lastId + 1 }
      Action.append s.data (Utf8.encode (record.line (s.lastId + 1))) s.sync
      return s.lastId + 1) fun _ => True :=
    .bind (.ofAction (Replacement.keepsTo_replace h.counter h.counterStaged _ _)) fun _ _ =>
      .bind_set ⟨h.data, h.dataStaged, h.counter, h.counterStaged⟩
        (.bind (.ofAction (.call (c := .append s.data _ _) fun _ => h.data)) fun _ _ =>
          .pure trivial)
  split
  · exact .bind (.throw (P := fun _ => True) _) fun _ _ => added
  · exact added

theorem Inside.keepsTo_updateWhere (h : s.Inside within) (accepts : Record → Bool)
    (position : Nat) (value : String) :
    (s.updateWhere accepts position value).KeepsTo within fun _ => True := by
  refine .bind s.keepsTo_records fun stored _ => ?_
  dsimp only
  split
  · exact .bind (h.keepsTo_replaceAll _) fun _ _ => .pure trivial
  · exact .pure trivial

theorem Inside.keepsTo_deleteWhere (h : s.Inside within) (accepts : Record → Bool) :
    (s.deleteWhere accepts).KeepsTo within fun _ => True := by
  refine .bind s.keepsTo_records fun stored _ => ?_
  dsimp only
  split
  · exact .bind (h.keepsTo_replaceAll _) fun _ _ => .pure trivial
  · exact .pure trivial

theorem Inside.keepsTo_truncate (h : s.Inside within) : s.truncate.KeepsTo within fun _ => True :=
  .call (c := .truncate s.data s.sync) fun _ => h.data

end RecordFile

/-! ## Indexes -/

namespace Index

variable {table : String} {i i' : Index}

theorem column_of_insertRecord {s : Stored} (h : i.insertRecord table s = .ok i') :
    i'.column = i.column := by
  obtain ⟨key, -, made⟩ := Result.bind_eq_ok.1 h
  cases made
  exact column_insert i key s.1

theorem column_of_eraseRecord {s : Stored} (h : i.eraseRecord table s = .ok i') :
    i'.column = i.column := by
  obtain ⟨key, -, made⟩ := Result.bind_eq_ok.1 h
  cases made
  exact column_erase i key s.1

theorem column_relocate (i : Index) (old new : Int32) (id : RecordId) :
    (i.relocate old new id).column = i.column := by
  rw [relocate]
  split
  · rfl
  · rw [column_insert, column_erase]

theorem column_of_build {column : String} {position : Nat} {entries : List (Except Error Stored)}
    (h : build table column position entries = .ok i) : i.column = column := by
  refine Result.of_foldlM_eq_ok (P := fun i => i.column = column) (fun i entry i' same made => ?_)
    rfl h
  obtain ⟨s, -, made⟩ := Result.bind_eq_ok.1 made
  exact (column_of_insertRecord made).trans same

end Index

namespace TableIndexes

/-- Whether every index is one of a column whose name is an identifier. -/
def Named (indexes : List Index) : Prop :=
  ∀ i ∈ indexes, Identifier.isValid i.column = true

theorem Named.concat {indexes : List Index} (h : Named indexes) {i : Index}
    (valid : Identifier.isValid i.column = true) : Named (indexes ++ [i]) := by
  intro j mem
  rcases List.mem_append.1 mem with mem | mem
  · exact h j mem
  · exact List.mem_singleton.1 mem ▸ valid

theorem Named.enter {indexes : List Index} (h : Named indexes) (table : String) (s : Stored) :
    Named (enter table s indexes).2 := by
  induction indexes with
  | nil => exact h
  | cons i rest ih =>
      have first := h i List.mem_cons_self
      have others : Named rest := fun j mem => h j (List.mem_cons_of_mem i mem)
      rw [TableIndexes.enter]
      cases made : i.insertRecord table s with
      | error e => exact h
      | ok i' =>
          refine List.forall_mem_cons.2 ⟨?_, ih others⟩
          rw [Index.column_of_insertRecord made]
          exact first

theorem Named.leave {indexes indexes' : List Index} (h : Named indexes) {table : String}
    {s : Stored} (left : leave table indexes s = .ok indexes') : Named indexes' := by
  intro i mem
  obtain ⟨j, mem, made⟩ := Result.exists_of_mapM_eq_ok left mem
  rw [Index.column_of_eraseRecord made]
  exact h j mem

theorem column_of_follow {table column : String} {index next : Index} {changed changed' : Bool}
    {c : FieldChange} (h : follow table column (index, changed) c = .ok (next, changed')) :
    next.column = index.column := by
  obtain ⟨old, -, h⟩ := Result.bind_eq_ok.1 h
  obtain ⟨new, -, h⟩ := Result.bind_eq_ok.1 h
  cases h
  exact index.column_relocate old new c.id

/-- Whether the files of some indexes are among some. -/
structure Inside (within : Path → Prop) (x : TableIndexes) : Prop where
  layout : x.layout.Inside within
  named : Named x.indexes

variable {x : TableIndexes}

theorem Inside.keepsTo_writeIndex (h : x.Inside within) {i : Index}
    (valid : Identifier.isValid i.column = true) :
    (x.writeIndex i).KeepsTo within fun _ => True :=
  Replacement.keepsTo_replace (h.layout.index _ valid) (h.layout.indexStaged _ valid) _ _

theorem Inside.keepsTo_persist (h : x.Inside within) {i : Index}
    (valid : Identifier.isValid i.column = true) : (x.persist i).KeepsTo within fun _ => True :=
  .orElse (h.keepsTo_writeIndex valid)
    (.call (c := .remove (x.layout.index i.column)) fun _ => h.layout.index _ valid)

theorem Inside.keepsTo_persistAll (h : x.Inside within) :
    x.persistAll.KeepsTo within fun _ => True :=
  .forM fun i mem => h.keepsTo_persist (h.named i mem)

theorem Inside.keepsTo_writeList (h : x.Inside within) (columns : List String) :
    (x.writeList columns).KeepsTo within fun _ => True :=
  Replacement.keepsTo_replace h.layout.list h.layout.listStaged _ _

theorem keepsTo_readIndex? (x : TableIndexes) (column : String) (position : Nat) :
    (x.readIndex? column position).KeepsTo within fun found =>
      ∀ i, found = some i → i.column = column := by
  refine .bind (.ask (c := .read (x.layout.index column)) fun _ => trivial) fun reply _ => ?_
  split
  · refine .pure fun i found => ?_
    simpa using (Option.filter_eq_some_iff.1 found).2
  · exact .pure nofun

theorem keepsTo_readList (x : TableIndexes) : x.readList.KeepsTo within fun _ => True := by
  refine .bind (.ask (c := .read x.layout.indexList) fun _ => trivial) fun reply _ => ?_
  split
  · exact .bind (.ofReply _) fun _ _ => .pure trivial
  · exact .pure trivial
  · exact .throw _

theorem keepsTo_build (x : TableIndexes) (column : Column) (records : RecordFile) :
    (x.build column records).KeepsTo within fun i => i.column = column.name :=
  .bind records.keepsTo_scan fun _ _ => .ofResult fun _ built => Index.column_of_build built

/-- An index that is listed is of a column that the header declares, or it is not opened. -/
theorem Inside.keepsTo_loadIndex (h : x.Inside within) {d : Definition}
    (declared : ∀ c ∈ d.schema.columns, Identifier.isValid c.name = true) (records : RecordFile)
    (name : String) : (loadIndex d records x name).KeepsTo within (Inside within) := by
  unfold loadIndex
  cases found : d.schema.column? name with
  | none => exact .throw _
  | some column =>
      have same := Schema.name_of_column? found
      have valid := declared column (Schema.mem_of_column? found)
      have added {i : Index} (of : i.column = column.name) :
          Inside within { x with indexes := x.indexes ++ [i] } :=
        ⟨h.layout, h.named.concat (of ▸ valid)⟩
      refine .bind (x.keepsTo_readIndex? name column.position) fun read of => ?_
      cases read with
      | some i => exact .pure (added ((of i rfl).trans same.symm))
      | none =>
          exact .bind (x.keepsTo_build column records) fun i of =>
            .bind (h.keepsTo_writeIndex (of ▸ valid)) fun _ _ => .pure (added of)

theorem keepsTo_load {d : Definition} {layout : Layout} (inside : layout.Inside within)
    (declared : ∀ c ∈ d.schema.columns, Identifier.isValid c.name = true) (records : RecordFile)
    (sync : Bool) : (load d layout records sync).KeepsTo within (Inside within) :=
  .bind (keepsTo_readList _) fun _ _ =>
    .foldlM ⟨inside, nofun⟩ fun _ name h => h.keepsTo_loadIndex declared records name

/-- A column that is given an index is one of the table. -/
theorem column?_of_indexable {d : Definition} {name : String} {column : Column}
    (h : indexable d x name = .ok column) : d.schema.column? name = some column := by
  obtain ⟨found, known, checked⟩ := Result.bind_eq_ok.1 h
  have same : found = column := by
    by_cases old : (x.get? name).isSome = true
    · simp [old] at checked
    · by_cases int : found.type = .int
      · simpa [old, int] using checked
      · simp [old, int] at checked
  exact same ▸ Definition.column_eq_ok.1 known

theorem keepsTo_create {d : Definition}
    (declared : ∀ c ∈ d.schema.columns, Identifier.isValid c.name = true) (name : String)
    (records : RecordFile) :
    (create d name records).KeepsTo within (Inside within) fun _ => True := by
  refine .bind_get fun x h => .bind (.ofAction (.ofResult fun _ made => made)) fun column made => ?_
  have found := column?_of_indexable made
  have valid := declared column (Schema.mem_of_column? found)
  refine .bind (.ofAction (x.keepsTo_build column records)) fun i of => ?_
  refine .bind (.ofAction (h.keepsTo_writeIndex (of ▸ valid))) fun _ _ => ?_
  refine .bind (.ofAction (h.keepsTo_writeList _)) fun _ _ => ?_
  exact .bind_set ⟨h.layout, h.named.concat (of ▸ valid)⟩ (.pure trivial)

theorem keepsTo_onInsert (s : Stored) :
    (onInsert s).KeepsTo within (Inside within) fun _ => True := by
  refine .bind_get fun x h => ?_
  split
  · exact .pure trivial
  · have entered : Inside within { x with indexes := (enter x.table s x.indexes).2 } :=
      ⟨h.layout, h.named.enter x.table s⟩
    exact .bind_set entered (.bind (.ofAction (.check _)) fun _ _ =>
      .ofAction entered.keepsTo_persistAll)

theorem keepsTo_onUpdate (column : String) (changes : List FieldChange) :
    (onUpdate column changes).KeepsTo within (Inside within) fun _ => True := by
  refine .bind_get fun x h => ?_
  split
  · next place index _ found =>
    have mem : index ∈ x.indexes := List.mem_of_find?_eq_some found
    refine .bind (.ofAction (.ofResult fun _ made => made)) fun (next, changed) made => ?_
    have same : next.column = index.column :=
      Result.of_foldlM_eq_ok (P := fun state : Index × Bool => state.1.column = index.column)
        (fun _ _ _ same followed => (column_of_follow followed).trans same) rfl made
    have valid : Identifier.isValid next.column = true := same ▸ h.named index mem
    dsimp only
    split
    · have replaced : Inside within { x with indexes := x.indexes.set place next } := by
        refine ⟨h.layout, fun i mem => ?_⟩
        rcases List.mem_or_eq_of_mem_set mem with mem | rfl
        · exact h.named i mem
        · exact valid
      exact .bind_set replaced (.ofAction (replaced.keepsTo_persist valid))
    · exact .pure trivial
  · exact .pure trivial

theorem keepsTo_onDelete (removed : List Stored) :
    (onDelete removed).KeepsTo within (Inside within) fun _ => True := by
  refine .bind_get fun x h => ?_
  split
  · exact .pure trivial
  · refine .bind (.ofAction (.ofResult fun _ made => made)) fun indexes made => ?_
    have left : Inside within { x with indexes } :=
      ⟨h.layout, Result.of_foldlM_eq_ok (fun _ _ _ named left => named.leave left) h.named made⟩
    exact .bind_set left (.ofAction left.keepsTo_persistAll)

theorem keepsTo_clear : clear.KeepsTo within (Inside within) fun _ => True := by
  refine .bind_get fun x h => ?_
  have cleared : Inside within { x with indexes := x.indexes.map Index.clear } := by
    refine ⟨h.layout, fun i mem => ?_⟩
    obtain ⟨j, was, rfl⟩ := List.mem_map.1 mem
    exact h.named j was
  exact .bind_set cleared (.ofAction cleared.keepsTo_persistAll)

end TableIndexes

/-! ## Tables -/

namespace Table

/-- Whether the header of a table, as it is read from a disk, declares only columns whose names
are identifiers. -/
def Declares (layout : Layout) (name : String) (d : Disk) : Prop :=
  ∀ source x, (d.step (.read layout.header)).1 = .ok source →
    Header.parse name source.lines = .ok x →
      ∀ c ∈ x.schema.columns, Identifier.isValid c.name = true

/-- Whether a table has a name, all its files are among some paths, and so are those of all
indexes that it could have. -/
structure Inside (within : Path → Prop) (name : String) (t : Table) : Prop where
  named : t.name = name
  layout : t.layout.Inside within
  records : t.records.Inside within
  indexes : t.indexes.Inside within
  declared : ∀ c ∈ t.schema.columns, Identifier.isValid c.name = true

variable {name : String} {root : Path} {sync : Bool} {own : List Handle} {disk : Disk}

/-- A header is read under the name of its table. -/
theorem confined_readHeader {layout : Layout} (declares : Declares layout name disk) :
    (readHeader layout name).Confined within (fun x _ _ => ∀ d, x = .ok d →
      d.name = name ∧ ∀ c ∈ d.schema.columns, Identifier.isValid c.name = true) own disk := by
  refine .call_read ?_ fun _ => .throw Result.of_error
  cases replied : (disk.step (.read layout.header)).1 with
  | error fault => exact .throw Result.of_error
  | ok source =>
      exact fun d parsed => ⟨Header.name_of_parse parsed, declares source d replied parsed⟩

/-- Once the header has been read, the rest of the table is opened. -/
theorem keepsTo_open {layout : Layout} (inside : layout.Inside within) {d : Definition}
    (named : d.name = name)
    (declared : ∀ c ∈ d.schema.columns, Identifier.isValid c.name = true) :
    Action.KeepsTo within (do
      let records ← RecordFile.load name layout.data layout.counter d.schema.arity sync
      let indexes ← TableIndexes.load d layout records sync
      return (⟨d, layout, records, indexes⟩ : Table)) (Inside within name) :=
  .bind (RecordFile.keepsTo_load _ _ _ _ _) fun _ ⟨data, counter⟩ =>
    .bind (TableIndexes.keepsTo_load inside declared _ _) fun _ indexes =>
      .pure ⟨named, inside, inside.recordFile data counter, indexes, declared⟩

/-- Opening a table keeps to its directory if its header declares identifiers. -/
theorem confined_load
    (inside : Identifier.isValid name = true → (Layout.ofTable root name).Inside within)
    (declares : Identifier.isValid name = true →
      Declares (Layout.ofTable root name) name disk) :
    (load root name sync).Confined within (fun x _ _ => ∀ t, x = .ok t → t.Inside within name)
      own disk := by
  unfold load
  cases valid : Identifier.isValid name with
  | false =>
      rw [Identifier.check, if_neg (by simp [valid])]
      exact .throw Result.of_error
  | true =>
      rw [Identifier.check_eq_ok.2 valid]
      have opened : (readHeader (Layout.ofTable root name) name >>= fun d => do
          let records ← RecordFile.load name (Layout.ofTable root name).data
            (Layout.ofTable root name).counter d.schema.arity sync
          let indexes ← TableIndexes.load d (Layout.ofTable root name) records sync
          return (⟨d, Layout.ofTable root name, records, indexes⟩ : Table)).Confined within
            (fun x _ _ => ∀ t, x = .ok t → t.Inside within name) own disk :=
        .bind (confined_readHeader (declares valid))
          (fun d own' d' read => keepsTo_open (inside valid) (read d rfl).1 (read d rfl).2 own' d')
          fun _ _ _ _ => Result.of_error
      refine .call_kind ?_ ?_
      · generalize (disk.step (.kind (Layout.ofTable root name).directory)).1 = kind
        dsimp only
        split
        · exact .throw Result.of_error
        · exact opened
      · exact .throw Result.of_error

/-! ### Making and dropping -/

theorem keepsTo_writeHeader {path : Path} (inside : within path) (d : Definition) :
    (writeHeader path d).KeepsTo within fun _ => True :=
  fun _ _ => .bind (.create inside)
    (fun _ _ d' handed => (Action.Confined.fill (handed _ rfl) _ _ d').mono
      fun _ _ _ _ _ _ => trivial) fun _ _ _ _ => nofun

theorem keepsTo_assemble {layout : Layout} (inside : layout.Inside within) (d : Definition)
    (sync : Bool) : (assemble layout d sync).KeepsTo within fun _ => True :=
  .bind (.call (c := .makeDirectories layout.indexes) fun _ => inside.indexes) fun _ _ =>
    .bind (keepsTo_writeHeader inside.header d) fun _ _ =>
      .bind (RecordFile.keepsTo_create inside _ _ _) fun _ _ => .pure trivial

theorem keepsTo_emplace {d : Definition}
    (hidden : Layout.Inside within ⟨Layout.staging root d.name⟩)
    (inside : (Layout.ofTable root d.name).Inside within) (sync : Bool) :
    (emplace root d sync).KeepsTo within fun _ => True :=
  .bind (keepsTo_assemble hidden d sync) fun _ _ =>
    .call (c := .rename (Layout.staging root d.name) (Layout.ofTable root d.name).directory)
      fun _ => ⟨hidden.directory, inside.directory⟩

/-- A table is in its place only if nothing has failed. -/
theorem strict_emplace (root : Path) (d : Definition) (sync : Bool) (F : Tolerance) :
    (emplace root d sync).Strict F := by
  have call {c : Call} (f : c.Reply → Except Fault Unit)
      (fails : ∀ fault, f (c.failed fault) = .error fault) :
      (Action.ask c >>= fun reply => Action.ofReply (f reply)).Strict F :=
    .call fun fault => ⟨fault, fails fault⟩
  have create (path : Path) : (Action.create path).Strict F := .call fun fault => ⟨fault, rfl⟩
  have fill (handle : Handle) (content : Bytes) (sync : Bool) :
      (Action.fill handle content sync).Strict F := call _ fun _ => rfl
  have rename (source target : Path) : (Action.rename source target).Strict F :=
    call _ fun _ => rfl
  have replace (path : Path) (bytes : Bytes) (sync : Bool) :
      (Replacement.replace path bytes sync).Strict F :=
    .bind (.bind (create _) fun _ => .pure _) fun _ =>
      .orElse (.bind (fill _ _ _) fun _ => rename _ _) _
  refine .bind (.bind ?_ fun _ => .bind ?_ fun _ => .bind ?_ fun _ => .pure _) fun _ => rename _ _
  · exact call (c := .makeDirectories _) (fun reply => reply) fun _ => rfl
  · exact .bind (create _) fun _ => fill _ _ _
  · exact .bind (create _) fun _ => .bind (replace _ _ _) fun _ => .pure _

/-- Making a table keeps to its directory and the hidden one, if the header that is then read
is sound. -/
theorem confined_create {d : Definition}
    (hidden : Identifier.isValid d.name = true →
      Layout.Inside within ⟨Layout.staging root d.name⟩)
    (inside : Identifier.isValid d.name = true → (Layout.ofTable root d.name).Inside within)
    (free : Identifier.isValid d.name = true →
      (disk.step (.kind (Layout.staging root d.name))).1 = none)
    (declares : ∀ disk', disk.perform (emplace root d sync) = (.ok (), disk') →
      Declares (Layout.ofTable root d.name) d.name disk') :
    (create root d sync).Confined within
      (fun x _ _ => ∀ t, x = .ok t → t.Inside within d.name) own disk := by
  unfold create
  cases valid : Identifier.isValid d.name with
  | false =>
      rw [Identifier.check, if_neg (by simp [valid])]
      exact .throw Result.of_error
  | true =>
      rw [Identifier.check_eq_ok.2 valid]
      have removed : (Action.removeTree (Layout.staging root d.name)).KeepsTo within
          fun _ => True :=
        .call (c := .removeTree (Layout.staging root d.name)) fun _ => (hidden valid).directory
      have emplaced : ((emplace root d sync).orElse
          (Action.removeTree (Layout.staging root d.name))).Confined within (fun x _ disk' =>
            ∀ v, x = .ok v → disk.perform (emplace root d sync) = (.ok v, disk')) own disk :=
        .orElse (Program.Confined.and (keepsTo_emplace (hidden valid) (inside valid) sync own disk)
          (strict_emplace root d sync _ disk)) (fun _ _ _ done => done.2)
          fun _ own' disk' _ => (removed own' disk').mono fun _ _ _ _ => Result.of_error
      have made : ((emplace root d sync).orElse
          (Action.removeTree (Layout.staging root d.name)) >>= fun _ =>
            load root d.name sync).Confined within
              (fun x _ _ => ∀ t, x = .ok t → t.Inside within d.name) own disk :=
        .bind emplaced (fun _ _ disk' done => confined_load inside fun _ =>
          declares disk' (done () rfl))
          fun _ _ _ _ => Result.of_error
      refine .call_kind ?_ (.throw Result.of_error)
      generalize (disk.step (.kind root)).1 = kind
      dsimp only
      split
      · exact .throw Result.of_error
      have fresh : (Action.kind (Layout.staging root d.name) >>= fun kind => do
          if kind.isSome then Action.removeTree (Layout.staging root d.name)
          (emplace root d sync).orElse (Action.removeTree (Layout.staging root d.name))
          load root d.name sync).Confined within
            (fun x _ _ => ∀ t, x = .ok t → t.Inside within d.name) own disk := by
        refine .call_kind ?_ made
        rw [free valid]
        exact made
      refine .call_kind ?_ fresh
      split
      · exact .throw Result.of_error
      · exact fresh

/-- Dropping a table removes its directory. -/
theorem Inside.keepsTo_drop {t : Table} (h : t.Inside within name) :
    t.drop.KeepsTo within fun _ => True := by
  refine .bind (.call (c := .removeTree t.layout.directory) fun _ => h.layout.directory)
    fun _ _ => .bind (Action.keepsTo_kind _) fun _ _ => ?_
  split
  · exact .throw _
  · exact .pure trivial

/-! ### Reading and writing -/

theorem keepsTo_lookup (t : Table) (column : String) (key : Int32) :
    (t.lookup column key).KeepsTo within fun _ => True := by
  unfold lookup
  split
  · exact .pure trivial
  · split
    · exact .pure trivial
    · exact .bind (t.records.keepsTo_fetch _) fun _ _ => .pure trivial

variable {α : Type}

theorem keepsTo_onRecords {u : Update RecordFile α}
    (h : u.KeepsTo within (RecordFile.Inside within) fun _ => True) :
    (onRecords u).KeepsTo within (Inside within name) fun _ => True :=
  .onPart h (fun _ t => t.records) fun _ _ t records =>
    ⟨t.named, t.layout, records, t.indexes, t.declared⟩

theorem keepsTo_onIndexes {u : Update TableIndexes α}
    (h : u.KeepsTo within (TableIndexes.Inside within) fun _ => True) :
    (onIndexes u).KeepsTo within (Inside within name) fun _ => True :=
  .onPart h (fun _ t => t.indexes) fun _ _ t indexes =>
    ⟨t.named, t.layout, t.records, indexes, t.declared⟩

theorem keepsTo_createIndex (column : String) :
    (createIndex column).KeepsTo within (Inside within name) fun _ => True :=
  .bind_get fun _ t => keepsTo_onIndexes (TableIndexes.keepsTo_create t.declared column _)

theorem keepsTo_insert (record : Record) :
    (insert record).KeepsTo within (Inside within name) fun _ => True :=
  .bind (keepsTo_onRecords (RecordFile.keepsTo_append record)) fun _ _ =>
    .bind (keepsTo_onIndexes (TableIndexes.keepsTo_onInsert _)) fun _ _ => .pure trivial

theorem keepsTo_updateWhere (accepts : Record → Bool) (column value : String) :
    (updateWhere accepts column value).KeepsTo within (Inside within name) fun _ => True :=
  .bind_get fun _ t => .bind (.ofAction (.check _)) fun _ _ =>
    .bind (.ofAction (t.records.keepsTo_updateWhere accepts _ value)) fun _ _ =>
      .bind (keepsTo_onIndexes (TableIndexes.keepsTo_onUpdate column _)) fun _ _ => .pure trivial

theorem keepsTo_deleteWhere (accepts : Record → Bool) :
    (deleteWhere accepts).KeepsTo within (Inside within name) fun _ => True :=
  .bind_get fun _ t => .bind (.ofAction (t.records.keepsTo_deleteWhere accepts)) fun _ _ =>
    .bind (keepsTo_onIndexes (TableIndexes.keepsTo_onDelete _)) fun _ _ => .pure trivial

theorem keepsTo_deleteAll : deleteAll.KeepsTo within (Inside within name) fun _ => True :=
  .bind_get fun _ t => .bind (.ofAction (RecordFile.keepsTo_size _)) fun _ _ =>
    .bind (.ofAction t.records.keepsTo_truncate) fun _ _ =>
      .bind (keepsTo_onIndexes TableIndexes.keepsTo_clear) fun _ _ => .pure trivial

end Table

end FlatDB
