/-
# Reading a stored table

A tree stores the contents of a table if it houses the table with the files that
these contents make.  Whatever is read from such a tree is then known: the
records, their number, the records with some ids or under some key, and the open
table itself.  Reading changes nothing.
-/

import FlatDB.Proofs.Disk.Interruptions
import FlatDB.Proofs.Index.RoundTrip
import FlatDB.Proofs.Record.Fetching
import FlatDB.Proofs.Table.Contents
import FlatDB.Proofs.Table.Housing
import Mathlib.Data.List.Nodup

namespace FlatDB

namespace FileTree

/-- A tree in which a table with certain contents is kept. -/
structure Stores (t : FileTree) (root : Path) (r : Place) (c : Contents) : Prop where
  /-- The contents are those of a table. -/
  proper : c.Proper
  /-- The table's directory has its files. -/
  houses : t.Houses root r c.name c.files
  /-- There is room for the file of every index. -/
  rooms : ∀ column ∈ c.indexed, root.RoomForIndex c.name column.name

/-- What a change makes of a tree that stores a table: the contents are now these, and
nothing outside the table's directory has changed. -/
structure Turns (t : FileTree) (root : Path) (r : Place) (c : Contents) (t' : FileTree) : Prop where
  stores : t'.Stores root r c
  same : SameOutside (c.name :: r) t t'

theorem Stores.turns {t : FileTree} {root : Path} {r : Place} {c : Contents}
    (h : t.Stores root r c) :
    t.Turns root r c t :=
  ⟨h, .refl _ t⟩

/-- A tree in which all files of a table are kept but perhaps those of its indexes, which
may be anything. -/
structure Retains (t : FileTree) (root : Path) (r : Place) (c : Contents)
    (index : String → Option Bytes) : Prop where
  proper : c.Proper
  houses : t.Houses root r c.name { c.files with index }
  rooms : ∀ column ∈ c.indexed, root.RoomForIndex c.name column.name

namespace Retains

variable {t : FileTree} {root : Path} {r : Place} {c : Contents} {index : String → Option Bytes}

/-- A scan needs no index: it finds the records and no damage. -/
theorem runs_scan (h : t.Retains root r c index) (sync : Bool) :
    (c.recordFile root sync).scan.Runs t (.ok (c.stored.map .ok)) t := by
  refine .bind h.houses.runs_read_data ?_
  have read : Entries.ofSource (c.recordFile root sync).table (c.recordFile root sync).arity
      (.content c.files.data) = c.stored.map .ok :=
    Entries.ofSource_text h.proper.arity
  rw [read]
  exact .pure _ t

/-- The index of an integer column is made from the records. -/
theorem runs_build (h : t.Retains root r c index) (sync : Bool) (x : TableIndexes)
    {column : Column} (mem : column ∈ c.schema.columns) (int : column.type = .int) :
    (x.build column (c.recordFile root sync)).Runs t (.ok (Index.ofStored column c.stored)) t :=
  .bind (h.runs_scan sync) (.ofResult_of_eq (Index.build_eq_ok fun s hs =>
    (h.proper.typed s hs).isSome_key? h.proper.definition.schema mem int) t)

end Retains

namespace Stores

variable {t : FileTree} {root : Path} {r : Place} {c : Contents}

theorem retains (h : t.Stores root r c) : t.Retains root r c c.files.index :=
  ⟨h.proper, h.houses, h.rooms⟩

/-! ## Records -/

theorem runs_scan (h : t.Stores root r c) (sync : Bool) :
    (c.recordFile root sync).scan.Runs t (.ok (c.stored.map .ok)) t :=
  h.retains.runs_scan sync

theorem runs_records (h : t.Stores root r c) (sync : Bool) :
    (c.recordFile root sync).records.Runs t (.ok c.stored) t := by
  refine .bind (h.runs_scan sync) ?_
  rw [Entries.all_map_ok]
  exact .ofResult _ t

theorem runs_size (h : t.Stores root r c) (sync : Bool) :
    (c.recordFile root sync).size.Runs t (.ok c.stored.length) t := by
  refine .bind h.houses.runs_read_data ?_
  have read : Entries.count (Source.content c.files.data).lines = .ok c.stored.length :=
    Entries.count_text c.stored
  rw [read]
  exact .ofResult _ t

/-- Fetching finds the records with the given ids. -/
theorem runs_fetch (h : t.Stores root r c) (sync : Bool) (ids : IdSet) :
    ((c.recordFile root sync).fetch ids).Runs t (.ok (c.stored.filter fun s => s.1 ∈ ids)) t := by
  intro waiting
  obtain ⟨_, read⟩ : ∃ waiting', (Disk.mk t waiting).perform
      (Action.read (c.recordFile root sync).data) = (.ok (.content c.files.data), ⟨t, waiting'⟩) :=
    h.houses.runs_read_data waiting
  obtain ⟨⟩ := (Action.OnlyReads.read _).eq_of_perform read
  have scanned : Entries.ofSource (c.recordFile root sync).table (c.recordFile root sync).arity
      (.content c.files.data) = c.stored.map .ok := Entries.ofSource_text h.proper.arity
  exact ⟨waiting, RecordFile.perform_fetch read scanned h.proper.nodup ids⟩

end Stores

end FileTree

namespace Contents

variable {c : Contents}

/-- The index of a column by the column's name. -/
theorem get?_tableIndexes (c : Contents) (root : Path) (sync : Bool) (name : String) :
    (c.tableIndexes root sync).get? name =
      (c.indexed.find? fun column => column.name == name).map fun column =>
        Index.ofStored column c.stored := by
  show (c.indexed.map fun column => Index.ofStored column c.stored).find?
    (fun i => i.column == name)
    = _
  rw [List.find?_map]
  congr 2
  funext column
  simp

/-- The index of an indexed column. -/
theorem get?_tableIndexes_of_mem (distinct : c.indexedNames.Nodup) {column : Column}
    (mem : column ∈ c.indexed) (root : Path) (sync : Bool) :
    (c.tableIndexes root sync).get? column.name = some (Index.ofStored column c.stored) := by
  rw [get?_tableIndexes, Schema.find?_name distinct mem]
  rfl

/-- There is no index of a column that is not indexed. -/
theorem get?_tableIndexes_eq_none {name : String} (plain : ∀ column ∈ c.indexed, column.name ≠ name)
    (root : Path) (sync : Bool) : (c.tableIndexes root sync).get? name = none := by
  rw [get?_tableIndexes, Option.map_eq_none_iff, List.find?_eq_none]
  exact fun column mem named => plain column mem (by simpa using named)

/-- An indexed column is found by its name. -/
theorem Proper.find?_indexed (h : c.Proper) {column : Column} (mem : column ∈ c.indexed) :
    (c.indexed.find? fun other => other.name == column.name) = some column :=
  Schema.find?_name h.distinct mem

/-- The file of an indexed column. -/
theorem Proper.index_files (h : c.Proper) {column : Column} (mem : column ∈ c.indexed) :
    c.files.index column.name = some (Utf8.encode (Index.ofStored column c.stored).text) := by
  show ((c.indexed.find? fun other => other.name == column.name).map _) = _
  rw [h.find?_indexed mem]
  rfl

/-- The name of a column of the table is an identifier. -/
theorem Proper.isValid (h : c.Proper) {column : Column} (mem : column ∈ c.indexed) :
    Identifier.isValid column.name = true :=
  h.definition.schema.valid column (h.indexed column mem).1

end Contents

/-! ## Looking up by an index -/

namespace FileTree

namespace Stores

variable {t : FileTree} {root : Path} {r : Place} {c : Contents}

/-- The index of a column finds the records that have the key in it. -/
theorem runs_lookup (h : t.Stores root r c) (sync : Bool) (name : String) (key : Int32) :
    ((c.handle root sync).lookup name key).Runs t
      (.ok ((c.indexed.find? fun column => column.name == name).map fun column =>
        c.stored.filter fun s => s.2.key? column.position = some key)) t := by
  rw [Table.lookup]
  rw [show (c.handle root sync).index? name = _ from c.get?_tableIndexes root sync name]
  cases c.indexed.find? (fun column => column.name == name) with
  | none => exact .pure _ t
  | some column =>
      have under := Index.lookup?_ofStored column c.stored key
      simp only [Option.map_some]
      cases found : (Index.ofStored column c.stored).lookup? key with
      | none =>
          rw [found] at under
          have none : c.stored.filter (fun s => s.2.key? column.position = some key) = [] := by
            rw [List.filter_eq_nil_iff]
            intro s mem
            simpa using under s mem
          rw [none]
          exact .pure _ t
      | some ids =>
          rw [found] at under
          have same : c.stored.filter (fun s => s.1 ∈ ids) =
              c.stored.filter (fun s => s.2.key? column.position = some key) := by
            apply List.filter_congr
            intro s mem
            rw [decide_eq_decide, under.2]
            constructor
            · rintro ⟨s', mem', id, has⟩
              rwa [List.inj_on_of_nodup_map h.proper.nodup mem' mem id] at has
            · exact fun has => ⟨s, mem, rfl, has⟩
          rw [← same]
          exact .bind (h.runs_fetch sync ids) (.pure _ t)

end Stores

end FileTree

end FlatDB
