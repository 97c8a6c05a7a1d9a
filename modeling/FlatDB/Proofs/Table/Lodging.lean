/-
# Where the files of a table are

While a table is changed under mishaps, files may be left beside its own in which
replacements were prepared, and an index may lose its file.  What stays is that its
files are where they belong, with the header and the list of indexes as they were and
the data file with some records.  Each file is in a place of its own, so whatever is
done to one of them leaves the others alone.
-/

import FlatDB.Proofs.Record.Mishaps
import FlatDB.Proofs.Table.Opening

namespace FlatDB

open FileTree

/-! ## Places -/

/-- The places of the records of the table in a directory. -/
def Lodging.ofTable (table : Place) : Lodging where
  data := "registers.sqlito" :: table
  besideData := stagedName "registers.sqlito" :: table
  counter := "reg_count.dat" :: table
  besideCounter := stagedName "reg_count.dat" :: table
  apart := apart_of_length_eq rfl (by simp)
  apart_beside := apart_of_length_eq rfl (by simp [stagedName])
  beside_apart := apart_of_length_eq rfl (by simp [stagedName])
  beside_apart_beside := apart_of_length_eq rfl (by simp [stagedName])

namespace Place

/-- The place of an index of the table in a directory. -/
def index (table : Place) (column : String) : Place :=
  (column ++ ".idx") :: "indexes" :: table

/-- Where the replacement of an index is prepared. -/
def besideIndex (table : Place) (column : String) : Place :=
  stagedName (column ++ ".idx") :: "indexes" :: table

end Place

namespace FileTree

variable {table : Place} {column other : String}

theorem apart_indexes {name : String} (ne : name ≠ "indexes") (file : String) :
    Apart (name :: table) (file :: "indexes" :: table) :=
  ⟨below?_append_cons_of_ne ne.symm [file] table, below?_of_length_lt (by simp)⟩

/-- No index is beside another. -/
theorem stagedName_ne_index (name column : String) : stagedName name ≠ column ++ ".idx" := by
  intro same
  have none := TableFiles.columnOf?_stagedName name
  rw [same, TableFiles.columnOf?_append] at none
  cases none

theorem apart_index (ne : column ≠ other) : Apart (table.index column) (table.index other) :=
  apart_of_length_eq rfl (by simpa [Place.index] using ne)

theorem apart_besideIndex (ne : column ≠ other) :
    Apart (table.besideIndex column) (table.besideIndex other) :=
  apart_of_length_eq rfl (by simpa [Place.besideIndex, stagedName] using ne)

theorem apart_index_besideIndex (column other : String) :
    Apart (table.index column) (table.besideIndex other) :=
  apart_of_length_eq rfl
    (by simpa [Place.index, Place.besideIndex] using (stagedName_ne_index _ column).symm)

/-- The list of indexes is none of them, nor beside one. -/
theorem list_ne_index (table : Place) (column : String) :
    "columns.dat" :: "indexes" :: table ≠ table.index column := by
  intro same
  have none : TableFiles.columnOf? "columns.dat" = none := by decide
  rw [(List.cons.inj same).1, TableFiles.columnOf?_append] at none
  cases none

theorem list_ne_besideIndex (table : Place) (column : String) :
    "columns.dat" :: "indexes" :: table ≠ table.besideIndex column :=
  fun same => TableFiles.stagedName_ne_list _ (List.cons.inj same).1.symm

end FileTree

/-! ## Contents -/

/-- What the contents of a table are like, whatever texts its records have in columns
without an index. -/
structure Contents.Orderly (c : Contents) : Prop where
  definition : c.definition.Proper
  indexed : ∀ column ∈ c.indexed, column ∈ c.schema.columns
  distinct : c.indexedNames.Nodup
  keyed : TableIndexes.Keyed c.indexed c.stored

theorem Contents.Proper.orderly {c : Contents} (h : c.Proper) : c.Orderly :=
  ⟨h.definition, fun column mem => (h.indexed column mem).1, h.distinct, h.keyed⟩

/-! ## Trees -/

namespace FileTree

/-- A tree in which the files of a table are where they belong, apart from its indexes. -/
structure Lodges (t : FileTree) (root : Path) (r : Place) (c : Contents) : Prop where
  leads : t.Leads root r
  step : Path.IsStep c.name
  room : root.RoomFor c.name
  directory : t.at? (c.name :: r) = some .directory
  directoryIndexes : t.at? ("indexes" :: c.name :: r) = some .directory
  header : t.at? ("metadata.dat" :: c.name :: r) = some (.file c.files.header)
  list : t.at? ("columns.dat" :: "indexes" :: c.name :: r) = c.files.list.map .file
  records (sync : Bool) : (c.recordFile root sync).Holds (.ofTable (c.name :: r)) c.stored t
  counter : t.at? (Lodging.ofTable (c.name :: r)).counter = none ∨
    ∃ id, (Lodging.ofTable (c.name :: r)).Counts id t
  sites : ∀ column ∈ c.indexed,
    t.Site ((Layout.ofTable root c.name).index column.name) (Place.index (c.name :: r) column.name)
      (Place.besideIndex (c.name :: r) column.name)

/-- The file of an index is missing, or it was made from records that there may be. -/
def Tells (t : FileTree) (table : Place) (column : Column) (P : List Stored → Prop) : Prop :=
  t.at? (table.index column.name) = none ∨ ∃ stored, P stored ∧
    t.at? (table.index column.name) = some (.file (Utf8.encode (Index.ofStored column stored).text))

variable {t t' : FileTree} {root : Path} {r : Place} {c : Contents} {column : Column}

theorem Tells.mono {P P' : List Stored → Prop} {table : Place} (h : t.Tells table column P)
    (weaker : ∀ stored, P stored → P' stored) : t.Tells table column P' :=
  h.imp_right fun ⟨stored, told, file⟩ => ⟨stored, weaker stored told, file⟩

/-- A file that stays tells what it told. -/
theorem Tells.of_eq {P : List Stored → Prop} {table : Place} (h : t.Tells table column P)
    (same : t'.at? (table.index column.name) = t.at? (table.index column.name)) :
    t'.Tells table column P :=
  h.imp same.trans fun ⟨stored, told, file⟩ => ⟨stored, told, same.trans file⟩

namespace Lodges

/-- A tree that stores a table. -/
theorem of_stores (h : t.Stores root r c) : t.Lodges root r c := by
  have ne := h.houses.leads.ne_nil
  have step := h.houses.step
  have site {name : String} (file : FileName name) (staged : stagedName name ≠ "indexes")
      {content : Bytes} (there : c.files.at? [name] = some (.file content)) :
      t.Site ((root.join c.name).join name) (name :: c.name :: r) (stagedName name :: c.name :: r) :=
    h.houses.leads_directory.site step ne file.step (h.houses.room.admits_staged step ne file)
      (by rw [show t.at? (name :: c.name :: r) = _ from h.houses.holds [name], there]; simp)
      (h.houses.childless file.file) fun _ => h.houses.childless staged
  refine {
    leads := h.houses.leads
    step
    room := h.houses.room
    directory := h.houses.holds []
    directoryIndexes := h.houses.holds ["indexes"]
    header := h.houses.holds ["metadata.dat"]
    list := h.houses.holds ["columns.dat", "indexes"]
    records := fun sync => ⟨site fileName_data (by decide) rfl, site fileName_counter (by decide) rfl,
      h.houses.holds ["registers.sqlito"], h.proper.arity⟩
    counter := .inr ⟨c.lastId, h.houses.holds ["reg_count.dat"]⟩
    sites := fun column mem => ?_ }
  refine h.houses.leads_indexes.site isStep_indexes (Path.toList_join_ne_nil step ne)
    (isStep_index (isStep_of_isValid (h.proper.isValid mem))) (h.rooms column mem) ?_
    (h.houses.childless_indexes _) fun _ => h.houses.childless_indexes _
  rw [show t.at? ((column.name ++ ".idx") :: "indexes" :: c.name :: r) = _ from
    h.houses.holds [column.name ++ ".idx", "indexes"]]
  exact Houses.index_not_directory c.files column.name

/-! ## What stays -/

theorem away_indexes (table : Place) (file : String) :
    (Lodging.ofTable table).Away (file :: "indexes" :: table) :=
  ⟨apart_indexes (by simp) file, apart_indexes (by simp [stagedName]) file,
    apart_indexes (by simp) file, apart_indexes (by simp [stagedName]) file⟩

/-- Changing the records leaves the files of indexes alone. -/
theorem same_index_of_records {table : Place} (stirs : (Lodging.ofTable table).Stirs t t')
    (column : String) : t'.at? (table.index column) = t.at? (table.index column) :=
  stirs.away (away_indexes table _)

/-- After a change of the records the files of the table are where they belong. -/
theorem withRecords (h : t.Lodges root r c) {stored : List Stored}
    (stirs : (Lodging.ofTable (c.name :: r)).Stirs t t')
    (holds : ∀ sync, (c.recordFile root sync).Holds (.ofTable (c.name :: r)) stored t')
    (counter : t'.at? (Lodging.ofTable (c.name :: r)).counter = none ∨
      ∃ id, (Lodging.ofTable (c.name :: r)).Counts id t') :
    t'.Lodges root r { c with stored } where
  leads := h.leads.mono stirs.keeps
  step := h.step
  room := h.room
  directory := stirs.keeps.directories _ h.directory
  directoryIndexes := stirs.keeps.directories _ h.directoryIndexes
  header := (stirs.elsewhere _ (by simp [Lodging.ofTable]) (by simp [Lodging.ofTable, stagedName])
    (by simp [Lodging.ofTable]) (by simp [Lodging.ofTable, stagedName])).trans h.header
  list := (stirs.away (away_indexes _ _)).trans h.list
  records := holds
  counter
  sites := fun column mem =>
    (h.sites column mem).away stirs (away_indexes _ _) (away_indexes _ _)

/-- After a change of one index the files of the table are where they belong. -/
theorem withIndex (h : t.Lodges root r c) (mem : column ∈ c.indexed)
    (stirs : Stirs (Place.index (c.name :: r) column.name)
      (Place.besideIndex (c.name :: r) column.name) t t') : t'.Lodges root r c := by
  have keeps := (h.sites column mem).keeps stirs
  refine {
    leads := h.leads.mono keeps
    step := h.step
    room := h.room
    directory := keeps.directories _ h.directory
    directoryIndexes := keeps.directories _ h.directoryIndexes
    header := (stirs.elsewhere _ (apart_indexes (by decide) _).ne
      (apart_indexes (by decide) _).ne).trans h.header
    list := (stirs.elsewhere _ (list_ne_index _ _) (list_ne_besideIndex _ _)).trans h.list
    records := fun sync => (h.records sync).away stirs keeps (away_indexes _ _) (away_indexes _ _)
    counter := ?_
    sites := fun other ho => ?_ }
  · have same : t'.at? (Lodging.ofTable (c.name :: r)).counter = t.at? _ :=
      stirs.elsewhere _ (apart_indexes (by decide) _).ne (apart_indexes (by decide) _).ne
    exact h.counter.imp same.trans fun ⟨id, counts⟩ => ⟨id, same.trans counts⟩
  · by_cases named : other.name = column.name
    · have site := h.sites other ho
      rw [named] at site ⊢
      exact site.stirs stirs
    · exact (h.sites other ho).apart_stirs stirs keeps (apart_index named)
        (apart_index_besideIndex _ _) (apart_index_besideIndex _ _).symm (apart_besideIndex named)

/-- Changing one index leaves the others alone. -/
theorem same_index {table : Place} {other : String} (stirs : Stirs (table.index column.name)
    (table.besideIndex column.name) t t') (ne : other ≠ column.name) :
    t'.at? (table.index other) = t.at? (table.index other) :=
  stirs.elsewhere _ (apart_index ne).ne (apart_index_besideIndex _ _).ne

end Lodges

end FileTree

end FlatDB
