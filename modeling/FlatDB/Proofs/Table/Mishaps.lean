/-
# Indexes under mishaps

What becomes of the files of indexes when calls fail.  Writing indexes one after the
other stops at the first that cannot be written, which loses its file; those before
it have been written and those after it have not.  Opening a table takes each index
from its file, whatever records that was made from, or makes it anew from the records
there are.
-/

import FlatDB.Proofs.Table.Lodging
import Mathlib.Data.List.Forall2

namespace FlatDB

open FileTree

/-- A tolerance under which what is reported not to have been written at the end of a
file has not been, what is reported not to have been emptied has not been, and files
can always be removed. -/
structure Tolerance.Clean (F : Tolerance) : Prop extends F.Contained where
  appendsNothing : ∀ path content sync m, F (.append path content sync) m → m.extent ≠ .everything
  truncatesNothing : ∀ path sync m, F (.truncate path sync) m → m.extent ≠ .everything
  removes : ∀ path m, ¬ F (.remove path) m

namespace FileTree

namespace Lodges

variable {F : Tolerance} {d : Disk} {root : Path} {r : Place} {c : Contents} {column : Column}
  {x : TableIndexes}

/-! ## Writing indexes -/

/-- An index is written, or its file is gone. -/
theorem ensures_persist (clean : F.Clean) (h : d.tree.Lodges root r c) (mem : column ∈ c.indexed)
    (layout : x.layout = Layout.ofTable root c.name) (stored : List Stored) :
    (x.persist (Index.ofStored column stored)).Ensures F
      (fun result d' => Stirs (Place.index (c.name :: r) column.name)
          (Place.besideIndex (c.name :: r) column.name) d.tree d'.tree ∧
        d'.tree.at? (Place.index (c.name :: r) column.name) =
          match result with
          | .ok _ => some (.file (Utf8.encode (Index.ofStored column stored).text))
          | .error _ => none) d := by
  have site := h.sites column mem
  rw [TableIndexes.persist, TableIndexes.writeIndex]
  rw [layout, Index.column_ofStored]
  refine .orElse (site.ensures_replace clean.moves _ x.sync) (fun _ d' written => written)
    fun e d' ⟨stirs, _⟩ => ?_
  refine (site.stirs stirs).ensures_remove.mono fun _ d'' ⟨stirs', removed⟩ =>
    ⟨stirs.trans stirs', ?_⟩
  exact removed.resolve_right fun ⟨⟨m, befalls⟩, _⟩ => clean.removes _ m befalls

/-- Some of the indexes are written, the others are not; the last of the former may be one
that cannot be written, which has lost its file. -/
theorem ensures_persistAll (clean : F.Clean) (h : d.tree.Lodges root r c) {columns : List Column}
    (inside : ∀ column ∈ columns, column ∈ c.indexed)
    (distinct : (columns.map fun column => column.name).Nodup)
    (layout : x.layout = Layout.ofTable root c.name) (stored : List Stored) :
    ((TableIndexes.ofStored columns stored).forM x.persist).Ensures F
      (fun result d' => d'.tree.Lodges root r c ∧ ∃ written left, columns = written ++ left ∧
        (∀ column ∈ written, d'.tree.Tells (c.name :: r) column (· = stored)) ∧
        (∀ name, name ∉ written.map (fun column => column.name) →
          d'.tree.at? (Place.index (c.name :: r) name) =
            d.tree.at? (Place.index (c.name :: r) name)) ∧
        match result with
        | .ok _ => left = []
        | .error _ => ∃ before column, written = before ++ [column] ∧
            d'.tree.at? (Place.index (c.name :: r) column.name) = none) d := by
  induction columns generalizing d with
  | nil => exact .pure ⟨h, [], [], rfl, by simp, fun _ _ => rfl, rfl⟩
  | cons column columns ih =>
      have mem := inside column List.mem_cons_self
      rw [List.map_cons, List.nodup_cons] at distinct
      refine .bind (h.ensures_persist clean mem layout stored) ?_ ?_
      · rintro _ d' ⟨stirs, file⟩
        refine (ih (h.withIndex mem stirs) (fun other ho => inside other (List.mem_cons_of_mem _ ho))
          distinct.2).mono ?_
        rintro result d'' ⟨lodges, written, left, rfl, told, same, outcome⟩
        have fresh : column.name ∉ written.map fun column => column.name := fun again =>
          distinct.1 (by rw [List.map_append]; exact List.mem_append_left _ again)
        refine ⟨lodges, column :: written, left, rfl, ?_, fun name other => ?_, ?_⟩
        · rw [List.forall_mem_cons]
          exact ⟨.of_eq (.inr ⟨stored, rfl, file⟩) (same _ fresh), told⟩
        · rw [List.map_cons, List.mem_cons, not_or] at other
          exact (same name other.2).trans (same_index stirs other.1)
        · cases result with
          | ok _ => exact outcome
          | error e =>
              obtain ⟨before, last, rfl, gone⟩ := outcome
              exact ⟨column :: before, last, rfl, gone⟩
      · rintro e d' ⟨stirs, gone⟩
        refine ⟨h.withIndex mem stirs, [column], columns, rfl, ?_, fun name other => ?_,
          [], column, rfl, gone⟩
        · rw [List.forall_mem_singleton]
          exact .inl gone
        · rw [List.map_singleton, List.mem_singleton] at other
          exact same_index stirs other

/-! ## Opening -/

theorem step_read_header (h : d.tree.Lodges root r c) :
    (d.step (.read (Layout.ofTable root c.name).header)).1 = .ok (.content c.files.header) := by
  have ne := h.leads.ne_nil
  have directory := h.leads.join h.step (h.room.admits h.step ne) h.directory
  have look := directory.look_join fileName_header.step
    (h.room.admits_staged h.step ne fileName_header).of_staged
  rw [h.header] at look
  simp only [Disk.step, show d.tree.look (Layout.ofTable root c.name).header = _ from look]

theorem step_read_list (h : d.tree.Lodges root r c) :
    (d.step (.read (Layout.ofTable root c.name).indexList)).1 =
      match c.files.list with
      | some content => .ok (.content content)
      | none => .error .notFound := by
  have ne := h.leads.ne_nil
  have directory := h.leads.join h.step (h.room.admits h.step ne) h.directory
  have indexes := directory.join isStep_indexes (h.room.admits_indexes h.step ne)
    h.directoryIndexes
  have look := indexes.look_join fileName_list.step (h.room.admits_list h.step ne).of_staged
  rw [h.list] at look
  have found : d.tree.look (Layout.ofTable root c.name).indexList = _ := look
  cases list : c.files.list with
  | none =>
      rw [list] at found
      simp only [Disk.step, found, Option.map_none]
  | some content =>
      rw [list] at found
      simp only [Disk.step, found, Option.map_some]

/-- The file of an index that is missing cannot be read. -/
theorem step_read_index (h : d.tree.Lodges root r c) (mem : column ∈ c.indexed)
    (missing : d.tree.at? (Place.index (c.name :: r) column.name) = none) :
    (d.step (.read ((Layout.ofTable root c.name).index column.name))).1 = .error .notFound := by
  have look := look_of_place (h.sites column mem).place (h.sites column mem).noSlash
  rw [missing] at look
  simp only [Disk.step, look]

/-- The definition is read back, if it is. -/
theorem ensures_readHeader (orderly : c.Orderly) (h : d.tree.Lodges root r c) :
    (Table.readHeader (Layout.ofTable root c.name) c.name).Ensures F
      (fun x d' => d' = d ∧ ∀ definition, x = .ok definition → definition = c.definition) d := by
  rw [Table.readHeader]
  refine .call_read ?_ fun m _ => .throw ⟨rfl, nofun⟩
  rw [h.step_read_header]
  have reread : Header.parse c.name (Source.content c.files.header).lines =
      Header.reread c.definition := rfl
  dsimp only
  rw [reread]
  refine .ofResult ⟨rfl, fun definition read => ?_⟩
  by_cases fits : Header.Fits c.definition
  · rw [Header.reread_of_fits orderly.definition fits] at read
    exact (Except.ok.inj read).symm
  · obtain ⟨damage, unread⟩ := Header.reread_of_not_fits orderly.definition fits
    rw [unread] at read
    cases read

/-- The list of indexes is read back, if it is. -/
theorem ensures_readList (contained : F.Contained) (orderly : c.Orderly)
    (h : d.tree.Lodges root r c) (layout : x.layout = Layout.ofTable root c.name) :
    x.readList.Ensures F
      (fun result d' => d' = d ∧ ∀ names, result = .ok names → names = c.indexedNames) d := by
  have valid : ∀ name ∈ c.indexedNames, Identifier.isValid name = true := by
    intro name mem
    obtain ⟨column, hc, rfl⟩ := List.mem_map.1 mem
    exact orderly.definition.schema.valid column (orderly.indexed column hc)
  unfold TableIndexes.readList
  rw [layout]
  refine .call_read ?_ fun m befalls => ?_
  · rw [h.step_read_list]
    by_cases empty : c.indexed.isEmpty = true
    · have list : c.files.list = none := if_pos empty
      rw [list]
      refine .pure ⟨rfl, fun names same => ?_⟩
      rw [← Except.ok.inj same, Contents.indexedNames, List.isEmpty_iff.1 empty, List.map_nil]
    · have list : c.files.list = some (Utf8.encode (TableIndexes.listText c.indexedNames)) :=
        if_neg empty
      rw [list]
      dsimp only
      rw [Source.text_encode]
      refine Action.Ensures.bind
        (Q := fun result d' => d' = d ∧ result = .ok (TableIndexes.listText c.indexedNames))
        ⟨rfl, rfl⟩ ?_ ?_
      · rintro _ _ ⟨rfl, ⟨⟩⟩
        rw [TableIndexes.listOfText_listText valid]
        exact .pure ⟨rfl, fun names same => (Except.ok.inj same).symm⟩
      · rintro e _ ⟨rfl, impossible⟩
        cases impossible
  · have present := contained.reads _ m befalls
    split
    · next impossible => cases impossible
    · next missing => exact absurd (Except.error.inj missing) present
    · refine .throw ⟨rfl, fun names impossible => ?_⟩
      cases impossible

/-- The index in a file is read back, unless the file cannot be read. -/
theorem ensures_readIndex? (h : d.tree.Lodges root r c) (mem : column ∈ c.indexed)
    (layout : x.layout = Layout.ofTable root c.name) {P : List Stored → Prop}
    (told : d.tree.Tells (c.name :: r) column P) :
    (x.readIndex? column.name column.position).Ensures F
      (fun result d' => d' = d ∧ ∀ index, result = .ok (some index) →
        ∃ stored, P stored ∧ index = Index.ofStored column stored) d := by
  unfold TableIndexes.readIndex?
  rw [layout]
  refine .call_read ?_ fun m _ => .pure ⟨rfl, nofun⟩
  rcases told with missing | ⟨stored, may, file⟩
  · rw [h.step_read_index mem missing]
    exact .pure ⟨rfl, nofun⟩
  · have look := look_of_place (h.sites column mem).place (h.sites column mem).noSlash
    rw [file] at look
    simp only [Disk.step, look, Index.filter_ofBytes?_ofStored]
    exact .pure ⟨rfl, fun index same =>
      ⟨stored, may, (Option.some.inj (Except.ok.inj same)).symm⟩⟩

/-- The index that is made from the records. -/
theorem ensures_build (orderly : c.Orderly) (mem : column ∈ c.indexed) {s : RecordFile}
    {l : Lodging} (holds : s.Holds l c.stored d.tree) :
    (x.build column s).Ensures F
      (fun result d' => d' = d ∧ ∀ index, result = .ok index →
        index = Index.ofStored column c.stored) d := by
  rw [TableIndexes.build]
  refine .bind holds.ensures_scan ?_ ?_
  · rintro entries _ ⟨rfl, read⟩
    rw [read entries rfl, Index.build_eq_ok (orderly.keyed column mem)]
    exact .ofResult ⟨rfl, fun index same => (Except.ok.inj same).symm⟩
  · rintro e _ ⟨rfl, -⟩
    exact ⟨rfl, nofun⟩

/-- An index is taken from its file, or made anew and written. -/
theorem ensures_loadIndex (contained : F.Contained) (orderly : c.Orderly)
    (h : d.tree.Lodges root r c) (mem : column ∈ c.indexed)
    (layout : x.layout = Layout.ofTable root c.name) {s : RecordFile}
    (holds : s.Holds (.ofTable (c.name :: r)) c.stored d.tree) {P : List Stored → Prop}
    (told : d.tree.Tells (c.name :: r) column P) (current : P c.stored) :
    (TableIndexes.loadIndex c.definition s x column.name).Ensures F
      (fun result d' => Stirs (Place.index (c.name :: r) column.name)
          (Place.besideIndex (c.name :: r) column.name) d.tree d'.tree ∧
        d'.tree.Tells (c.name :: r) column P ∧ ∀ x', result = .ok x' →
          ∃ stored, P stored ∧
            x' = { x with indexes := x.indexes ++ [Index.ofStored column stored] }) d := by
  have site := h.sites column mem
  have known : c.definition.schema.column? column.name = some column :=
    orderly.definition.schema.column?_name (orderly.indexed column mem)
  unfold TableIndexes.loadIndex
  rw [known]
  dsimp only
  refine .bind (h.ensures_readIndex? mem layout told) ?_ ?_
  · rintro (- | index) _ ⟨rfl, read⟩
    · dsimp only
      refine .bind (ensures_build orderly mem holds) ?_ ?_
      · rintro index d' ⟨rfl, built⟩
        obtain rfl := built index rfl
        rw [TableIndexes.writeIndex]
        rw [layout, Index.column_ofStored]
        refine .bind (site.ensures_replace contained.moves _ x.sync) ?_ ?_
        · rintro _ d'' ⟨stirs, written⟩
          exact .pure ⟨stirs, .inr ⟨c.stored, current, written⟩, fun x' same =>
            ⟨c.stored, current, (Except.ok.inj same).symm⟩⟩
        · exact fun e d'' ⟨stirs, same⟩ => ⟨stirs, told.of_eq same, nofun⟩
      · rintro e _ ⟨rfl, -⟩
        exact ⟨site.refl, told, nofun⟩
    · obtain ⟨stored, may, rfl⟩ := read index rfl
      exact .pure ⟨site.refl, told, fun x' same => ⟨stored, may, (Except.ok.inj same).symm⟩⟩
  · rintro e _ ⟨rfl, -⟩
    exact ⟨site.refl, told, nofun⟩

/-- The records of the table, whatever the last id. -/
theorem holds (h : d.tree.Lodges root r c) (sync : Bool) (lastId : RecordId) :
    { c.recordFile root sync with lastId }.Holds (.ofTable (c.name :: r)) c.stored d.tree :=
  ⟨(h.records sync).dataSite, (h.records sync).counterSite, (h.records sync).data,
    (h.records sync).arity⟩

/-- The indexes of some columns are opened one after the other. -/
theorem ensures_loadIndexes (contained : F.Contained) (orderly : c.Orderly)
    (h : d.tree.Lodges root r c) (sync : Bool) (lastId : RecordId)
    {P : Column → List Stored → Prop} (current : ∀ column, P column c.stored)
    (told : ∀ column ∈ c.indexed, d.tree.Tells (c.name :: r) column (P column))
    {columns : List Column} (inside : ∀ column ∈ columns, column ∈ c.indexed)
    (layout : x.layout = Layout.ofTable root c.name) :
    ((columns.map fun column => column.name).foldlM
        (TableIndexes.loadIndex c.definition { c.recordFile root sync with lastId }) x).Ensures F
      (fun result d' => d'.tree.Lodges root r c ∧
        (∀ column ∈ c.indexed, d'.tree.Tells (c.name :: r) column (P column)) ∧
        ∀ x', result = .ok x' → ∃ indexes, x' = { x with indexes := x.indexes ++ indexes } ∧
          List.Forall₂ (fun column index => ∃ stored, P column stored ∧
            index = Index.ofStored column stored) columns indexes) d := by
  induction columns generalizing d x with
  | nil =>
      refine .pure ⟨h, told, fun x' same => ⟨[], ?_, .nil⟩⟩
      rw [← Except.ok.inj same, List.append_nil]
  | cons column columns ih =>
      have mem := inside column List.mem_cons_self
      -- What the other indexes tell is not touched by opening this one.
      have later {d' : Disk} (stirs : Stirs (Place.index (c.name :: r) column.name)
          (Place.besideIndex (c.name :: r) column.name) d.tree d'.tree)
          (here : d'.tree.Tells (c.name :: r) column (P column)) :
          ∀ other ∈ c.indexed, d'.tree.Tells (c.name :: r) other (P other) := by
        intro other ho
        by_cases named : other.name = column.name
        · obtain rfl := orderly.definition.schema.eq_of_name_eq (orderly.indexed other ho)
            (orderly.indexed column mem) named
          exact here
        · exact (told other ho).of_eq (same_index stirs named)
      rw [List.map_cons, List.foldlM_cons]
      refine .bind (h.ensures_loadIndex contained orderly mem layout (h.holds sync lastId)
        (told column mem) (current column)) ?_ ?_
      · rintro x' d' ⟨stirs, here, opened⟩
        obtain ⟨stored, may, rfl⟩ := opened x' rfl
        refine (ih (x := { x with indexes := x.indexes ++ [Index.ofStored column stored] })
          (h.withIndex mem stirs) (later stirs here)
          (fun other ho => inside other (List.mem_cons_of_mem _ ho)) layout).mono ?_
        rintro result d'' ⟨lodges, told', rest⟩
        refine ⟨lodges, told', fun x'' same => ?_⟩
        obtain ⟨indexes, rfl, made⟩ := rest x'' same
        exact ⟨Index.ofStored column stored :: indexes, by simp, .cons ⟨stored, may, rfl⟩ made⟩
      · exact fun e d' ⟨stirs, here, _⟩ => ⟨h.withIndex mem stirs, later stirs here, nofun⟩

theorem ensures_load_records (contained : F.Contained) (h : d.tree.Lodges root r c) (sync : Bool) :
    (RecordFile.load c.name (Layout.ofTable root c.name).data (Layout.ofTable root c.name).counter
      c.schema.arity sync).Ensures F
      (fun result d' => d' = d ∧ ∀ s, result = .ok s →
        ∃ lastId, s = { c.recordFile root sync with lastId }) d := by
  have opens := (h.records sync).ensures_load contained h.counter
  refine opens.mono fun result d' ⟨same, opened⟩ => ⟨same, fun s found => ?_⟩
  obtain ⟨lastId, made, -⟩ := opened s found
  exact ⟨lastId, made⟩

/-- The indexes of a table are opened with the records there are. -/
theorem ensures_load_indexes (contained : F.Contained) (orderly : c.Orderly)
    (h : d.tree.Lodges root r c) (sync : Bool) (lastId : RecordId)
    {P : Column → List Stored → Prop} (current : ∀ column, P column c.stored)
    (told : ∀ column ∈ c.indexed, d.tree.Tells (c.name :: r) column (P column)) :
    (TableIndexes.load c.definition (Layout.ofTable root c.name)
        { c.recordFile root sync with lastId } sync).Ensures F
      (fun result d' => d'.tree.Lodges root r c ∧
        (∀ column ∈ c.indexed, d'.tree.Tells (c.name :: r) column (P column)) ∧
        ∀ x, result = .ok x → List.Forall₂ (fun column index => ∃ stored, P column stored ∧
          index = Index.ofStored column stored) c.indexed x.indexes) d := by
  rw [TableIndexes.load]
  refine .bind (h.ensures_readList contained orderly rfl) ?_ ?_
  · rintro names _ ⟨rfl, read⟩
    obtain rfl := read names rfl
    refine (h.ensures_loadIndexes contained orderly sync lastId current told (fun _ mem => mem)
      rfl).mono ?_
    rintro result d' ⟨lodges, told', opened⟩
    refine ⟨lodges, told', fun x found => ?_⟩
    obtain ⟨indexes, rfl, made⟩ := opened x found
    exact made
  · rintro e _ ⟨rfl, -⟩
    exact ⟨h, told, nofun⟩

/-- A table that is opened has the records there are, and each of its indexes was made from
records that its file may tell. -/
theorem ensures_load (contained : F.Contained) (orderly : c.Orderly) (h : d.tree.Lodges root r c)
    (sync : Bool) {P : Column → List Stored → Prop} (current : ∀ column, P column c.stored)
    (told : ∀ column ∈ c.indexed, d.tree.Tells (c.name :: r) column (P column)) :
    (Table.load root c.name sync).Ensures F
      (fun result d' => d'.tree.Lodges root r c ∧
        (∀ column ∈ c.indexed, d'.tree.Tells (c.name :: r) column (P column)) ∧
        ∀ t, result = .ok t → t.records.Holds (.ofTable (c.name :: r)) c.stored d'.tree ∧
          List.Forall₂ (fun column index => ∃ stored, P column stored ∧
            index = Index.ofStored column stored) c.indexed t.indexes.indexes) d := by
  unfold Table.load
  refine .bind (Q := fun _ d' => d' = d) (.ofResult rfl) ?_ ?_
  · rintro _ _ rfl
    refine .bind (Q := fun _ d' => d' = _) (.kind fun _ => rfl) ?_ ?_
    · rintro kind _ rfl
      split
      · exact .throw ⟨h, told, nofun⟩
      refine .bind (h.ensures_readHeader orderly) ?_ ?_
      · rintro definition _ ⟨rfl, read⟩
        obtain rfl := read definition rfl
        refine .bind (h.ensures_load_records contained sync) ?_ ?_
        · rintro records _ ⟨rfl, opened⟩
          obtain ⟨lastId, rfl⟩ := opened records rfl
          refine .bind (h.ensures_load_indexes contained orderly sync lastId current told) ?_ ?_
          · rintro x d' ⟨lodges, told', made⟩
            refine .pure ⟨lodges, told', fun t same => ?_⟩
            obtain rfl := Except.ok.inj same
            exact ⟨lodges.holds sync lastId, made x rfl⟩
          · exact fun e d' ⟨lodges, told', _⟩ => ⟨lodges, told', nofun⟩
        · rintro e _ ⟨rfl, -⟩
          exact ⟨h, told, nofun⟩
      · rintro e _ ⟨rfl, -⟩
        exact ⟨h, told, nofun⟩
    · rintro e _ rfl
      exact ⟨h, told, nofun⟩
  · rintro e _ rfl
    exact ⟨h, told, nofun⟩

end Lodges

end FileTree

end FlatDB
