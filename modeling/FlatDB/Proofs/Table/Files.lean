/-
# The files of a table

The directory of a table holds three files, a directory for the indexes, and in
that one a list and one file for each index.  A tree holds a table's files if it
has exactly these at the places in question and nothing else below the table's
directory, so that the places beside them at which replacements are prepared are
free.  Writing one of the files changes what the table's directory holds in one
respect, and nothing outside of it.
-/

import FlatDB.Proofs.Disk.Replacement
import FlatDB.Table.Layout

namespace FlatDB

/-- The contents of the files of a table. -/
structure TableFiles where
  /-- The header. -/
  header : Bytes
  /-- The data file. -/
  data : Bytes
  /-- The counter. -/
  counter : Bytes
  /-- The list of indexes, which a table without any need not have. -/
  list : Option Bytes
  /-- The file of the index of each column that has one. -/
  index : String → Option Bytes

namespace TableFiles

/-- The column whose index is kept in a file, going by the file's name. -/
def columnOf? (file : String) : Option String :=
  if ".idx".toList.isSuffixOf file.toList then
    some (String.ofList (file.toList.take (file.toList.length - 4)))
  else none

theorem columnOf?_eq_some_iff {file column : String} :
    columnOf? file = some column ↔ file = column ++ ".idx" := by
  rw [columnOf?]
  constructor
  · intro h
    split at h
    · next hs =>
      obtain ⟨front, split⟩ := List.isSuffixOf_iff_suffix.1 hs
      have cut : file.toList.take (file.toList.length - 4) = front := by
        rw [← split]
        simp
      rw [cut] at h
      cases h
      apply String.toList_injective
      simpa using split.symm
    · cases h
  · rintro rfl
    simp

@[simp]
theorem columnOf?_append (column : String) : columnOf? (column ++ ".idx") = some column :=
  columnOf?_eq_some_iff.2 rfl

/-- What is prepared beside an index is not taken for one. -/
@[simp]
theorem columnOf?_stagedName (name : String) : columnOf? (stagedName name) = none := by
  rw [Option.eq_none_iff_forall_ne_some]
  intro column h
  have last := congrArg (fun s : String => s.toList.getLast?) (columnOf?_eq_some_iff.1 h)
  simp [stagedName] at last

/-- What there is at a place, as seen from the directory of the table. -/
def at? (f : TableFiles) : Place → Option Entry
  | [] => some .directory
  | ["metadata.dat"] => some (.file f.header)
  | ["registers.sqlito"] => some (.file f.data)
  | ["reg_count.dat"] => some (.file f.counter)
  | ["indexes"] => some .directory
  | ["columns.dat", "indexes"] => f.list.map .file
  | [file, "indexes"] => ((columnOf? file).bind f.index).map .file
  | _ => none

/-- The files with another index of a column. -/
def withIndex (f : TableFiles) (column : String) (content : Bytes) : TableFiles :=
  { f with index := fun c => if c = column then some content else f.index c }

variable {f : TableFiles}

theorem at?_indexes {file : String} (other : file ≠ "columns.dat") :
    f.at? [file, "indexes"] = ((columnOf? file).bind f.index).map .file :=
  at?.eq_7 f file other

theorem at?_index (column : String) :
    f.at? [column ++ ".idx", "indexes"] = (f.index column).map .file := by
  have other : column ++ ".idx" ≠ "columns.dat" := by
    intro e
    have found := columnOf?_append column
    have none : columnOf? "columns.dat" = none := by decide
    rw [e, none] at found
    cases found
  rw [at?_indexes other, columnOf?_append, Option.bind_some]

theorem stagedName_ne_list (name : String) : stagedName name ≠ "columns.dat" := by
  intro e
  have last := congrArg (fun s : String => s.toList.getLast?) e
  simp [stagedName] at last

/-- The place beside a file of indexes is free. -/
theorem at?_staged_indexes (name : String) : f.at? [stagedName name, "indexes"] = none := by
  rw [at?_indexes (stagedName_ne_list name), columnOf?_stagedName]
  rfl

/-- There is nothing in what is no directory. -/
theorem at?_append_singleton {name : String} (h : name ≠ "indexes") {inner : Place}
    (ne : inner ≠ []) : f.at? (inner ++ [name]) = none := by
  cases inner with
  | nil => exact absurd rfl ne
  | cons a rest =>
      cases rest with
      | nil => simp [at?, h]
      | cons b rest =>
          cases rest with
          | nil => simp [at?]
          | cons c rest => simp [at?]

theorem at?_append_pair {name : String} {inner : Place} (ne : inner ≠ []) :
    f.at? (inner ++ [name, "indexes"]) = none := by
  cases inner with
  | nil => exact absurd rfl ne
  | cons a rest =>
      cases rest with
      | nil => simp [at?]
      | cons b rest => simp [at?]

end TableFiles

/-! ## Room for the files -/

/-- The name of the hidden directory in which a table is assembled. -/
def stagingName (table : String) : String :=
  "." ++ table ++ ".creating"

/-- Whether the paths that occur while a table is made are short enough.  Then all
others of the table are, but for those of its indexes. -/
def Path.RoomFor (root : Path) (table : String) : Prop :=
  (stagingName table).utf8ByteSize ≤ 255 ∧
    (root.join (stagingName table)).Admits (stagedName "reg_count.dat")

instance (root : Path) (table : String) : Decidable (root.RoomFor table) :=
  inferInstanceAs (Decidable (_ ∧ _))

/-- Whether the path under which the index of a column is prepared is short enough. -/
def Path.RoomForIndex (root : Path) (table column : String) : Prop :=
  ((root.join table).join "indexes").Admits (stagedName (column ++ ".idx"))

instance (root : Path) (table column : String) : Decidable (root.RoomForIndex table column) :=
  inferInstanceAs (Decidable (Path.Admits _ _))

theorem utf8ByteSize_stagedName (name : String) :
    (stagedName name).utf8ByteSize = name.utf8ByteSize + 4 := by
  rw [stagedName, String.utf8ByteSize_append]
  rfl

theorem utf8ByteSize_stagingName (table : String) :
    (stagingName table).utf8ByteSize = table.utf8ByteSize + 10 := by
  have dot : (".").utf8ByteSize = 1 := by decide
  have ending : (".creating").utf8ByteSize = 9 := by decide
  rw [stagingName, String.utf8ByteSize_append, String.utf8ByteSize_append, dot, ending]
  omega

theorem isStep_stagingName {table : String} (step : Path.IsStep table) :
    Path.IsStep (stagingName table) := by
  refine Path.isStep_of_length ?_ ?_ ?_
  · simp [stagingName]
  · simp [stagingName, step.noSlash]
  · simp [stagingName, step.noNull]

theorem isStep_index {column : String} (step : Path.IsStep column) :
    Path.IsStep (column ++ ".idx") := by
  refine Path.isStep_of_length ?_ ?_ ?_
  · simp
  · simp [step.noSlash]
  · simp [step.noNull]

/-- A file's name that fits into a table's directory. -/
structure FileName (name : String) : Prop where
  step : Path.IsStep name
  size : name.utf8ByteSize ≤ 16
  file : name ≠ "indexes"

theorem fileName_header : FileName "metadata.dat" :=
  ⟨Path.isStep_of_length (by decide) (by decide) (by decide), by decide, by decide⟩

theorem fileName_data : FileName "registers.sqlito" :=
  ⟨Path.isStep_of_length (by decide) (by decide) (by decide), by decide, by decide⟩

theorem fileName_counter : FileName "reg_count.dat" :=
  ⟨Path.isStep_of_length (by decide) (by decide) (by decide), by decide, by decide⟩

theorem fileName_list : FileName "columns.dat" :=
  ⟨Path.isStep_of_length (by decide) (by decide) (by decide), by decide, by decide⟩

theorem isStep_indexes : Path.IsStep "indexes" :=
  Path.isStep_of_length (by decide) (by decide) (by decide)

namespace Path

variable {root : Path} {table : String}

/-- What room for a table comes to in numbers. -/
theorem RoomFor.bounds (room : root.RoomFor table) (step : IsStep table)
    (ne : root.text.toList ≠ []) :
    table.utf8ByteSize ≤ 245 ∧ root.stem + table.utf8ByteSize + 28 < 4096 := by
  obtain ⟨short, admits⟩ := room
  have counter : ("reg_count.dat").utf8ByteSize = 13 := by decide
  rw [Admits] at admits
  rw [stem_join (isStep_stagingName step) ne, utf8ByteSize_stagingName, utf8ByteSize_stagedName,
    counter] at admits
  rw [utf8ByteSize_stagingName] at short
  omega

theorem RoomFor.admits (room : root.RoomFor table) (step : IsStep table)
    (ne : root.text.toList ≠ []) : root.Admits table := by
  have bounds := room.bounds step ne
  rw [Admits]
  omega

/-- There is room for every file in the directory of the table. -/
theorem RoomFor.admits_staged (room : root.RoomFor table) (step : IsStep table)
    (ne : root.text.toList ≠ []) {name : String} (file : FileName name) :
    (root.join table).Admits (stagedName name) := by
  have bounds := room.bounds step ne
  have size := file.size
  rw [Admits]
  rw [stem_join step ne, utf8ByteSize_stagedName]
  omega

theorem RoomFor.admits_indexes (room : root.RoomFor table) (step : IsStep table)
    (ne : root.text.toList ≠ []) : (root.join table).Admits "indexes" := by
  have bounds := room.bounds step ne
  have size : ("indexes").utf8ByteSize = 7 := by decide
  rw [Admits]
  rw [stem_join step ne, size]
  omega

/-- There is room for the list of indexes. -/
theorem RoomFor.admits_list (room : root.RoomFor table) (step : IsStep table)
    (ne : root.text.toList ≠ []) :
    ((root.join table).join "indexes").Admits (stagedName "columns.dat") := by
  have bounds := room.bounds step ne
  have size : ("indexes").utf8ByteSize = 7 := by decide
  have list : ("columns.dat").utf8ByteSize = 11 := by decide
  rw [Admits]
  rw [stem_join isStep_indexes (toList_join_ne_nil step ne), stem_join step ne,
    utf8ByteSize_stagedName, size, list]
  omega

end Path

end FlatDB
