/-
# The paths of tables are different

All paths of a table are made of the storage root and of names that depend on the table and on what
the path is for.  No two of them lead the same way, and none leads the way of another table, to it
or past it.  This rests on the names alone: identifiers hold no dot, so the hidden directory of a
table is named like no table, and the names of its files end in other characters than those of the
replacements that are prepared beside them.

Paths are compared by their steps, so that they are told apart even if slashes and single dots do
not count.  The storage root may be any path whatsoever.
-/

import FlatDB.Proofs.Disk.Staging
import FlatDB.Proofs.Table.Making
import FlatDB.Proofs.Table.Opening

namespace FlatDB

/-! ## Steps of joined paths -/

namespace Path

variable {name : String}

/-- A joined path has one step more, whatever it is joined to. -/
theorem steps_join_of_isStep (p : Path) (step : IsStep name) :
    (p.join name).steps = p.steps ++ [name] := by
  by_cases empty : p.text.toList = []
  · have none : p.steps = [] := by
      rw [steps, names, empty]
      rfl
    rw [join_of_empty step empty, none, steps, names_mk step]
    simp [step.notDot]
  · exact steps_join step empty

/-- Its replacement is prepared in the directory that the name was joined to. -/
theorem steps_staged_join (p : Path) (step : IsStep name) :
    (p.join name).staged.steps = p.steps ++ [stagedName name] := by
  obtain ⟨front, pieces⟩ : ∃ front,
      Split.pieces '/' (p.join name).text.toList = front ++ [name.toList] := by
    by_cases empty : p.text.toList = []
    · rw [join_of_empty step empty]
      exact ⟨[], step.pieces⟩
    · exact exists_pieces_join step empty
  obtain ⟨parent, split, -, before, -⟩ := exists_split?_eq step pieces (List.forall_mem_nil _)
  have same : parent.steps = p.steps := by
    have whole := steps_join_of_isStep p step
    rw [steps, names_eq, pieces, namesOf_append, List.filter_append, ← before] at whole
    refine List.append_inj_left' whole ?_
    simp [namesOf, step.nonempty, step.notDot]
  have staged : (p.join name).staged = parent.join (stagedName name) := by
    rw [staged, lastName, withName, split]
    rfl
  rw [staged, steps_join_of_isStep parent (isStep_stagedName step), same]

end Path

namespace Layout

/-- Names are different if they end in different characters. -/
theorem ne_of_getLast?_ne {name other : String}
    (h : name.toList.getLast? ≠ other.toList.getLast?) : name ≠ other := by
  rintro rfl
  exact h rfl

/-! ## Files -/

/-- What a file of a table is for. -/
inductive File where
  | header
  | data
  | counter
  | list
  | index (column : String) (valid : Identifier.isValid column = true)
  deriving DecidableEq

namespace File

/-- The path of a file. -/
def path (l : Layout) : File → Path
  | header => l.header
  | data => l.data
  | counter => l.counter
  | list => l.indexList
  | index column _ => l.index column

/-- The path of the directory that a file is in. -/
def home (l : Layout) : File → Path
  | list | index _ _ => l.indexes
  | _ => l.directory

/-- The steps from the directory of the table to the one that a file is in. -/
def folder : File → List String
  | list | index _ _ => ["indexes"]
  | _ => []

/-- The name of a file. -/
def name : File → String
  | header => "metadata.dat"
  | data => "registers.sqlito"
  | counter => "reg_count.dat"
  | list => "columns.dat"
  | index column _ => column ++ ".idx"

theorem path_eq (l : Layout) (f : File) : f.path l = (f.home l).join f.name := by
  cases f <;> rfl

theorem isStep_name (f : File) : Path.IsStep f.name := by
  cases f with
  | header => exact fileName_header.step
  | data => exact fileName_data.step
  | counter => exact fileName_counter.step
  | list => exact fileName_list.step
  | index column valid => exact isStep_index (isStep_of_isValid valid)

theorem steps_home (l : Layout) (f : File) : (f.home l).steps = l.directory.steps ++ f.folder := by
  cases f with
  | list | index column valid => exact Path.steps_join_of_isStep _ isStep_indexes
  | header | data | counter => exact (List.append_nil _).symm

/-- The column whose index is in a file. -/
def column? : File → Option String
  | index column _ => some column
  | _ => none

theorem columnOf?_name (f : File) : TableFiles.columnOf? f.name = f.column? := by
  cases f with
  | index column valid => exact TableFiles.columnOf?_append column
  | header | data | counter | list => decide

/-- Different files have different names, even those that are in different directories. -/
theorem name_injective : Function.Injective name := by
  intro f g same
  have column : f.column? = g.column? := by rw [← columnOf?_name, same, columnOf?_name]
  cases f <;> cases g <;> simp_all [name, column?]

theorem name_ne_indexes (f : File) : f.name ≠ "indexes" := by
  apply ne_of_getLast?_ne
  cases f <;> simp [name]

theorem stagedName_ne_name (f g : File) : stagedName f.name ≠ g.name := by
  apply ne_of_getLast?_ne
  cases g <;> simp [stagedName, name]

theorem stagedName_ne_indexes (f : File) : stagedName f.name ≠ "indexes" := by
  apply ne_of_getLast?_ne
  simp [stagedName]

end File

/-! ## Roles -/

/-- What a path of a table is for. -/
inductive Role where
  /-- The directory of the table. -/
  | directory
  /-- The directory of its indexes. -/
  | indexes
  /-- A file. -/
  | file (f : File)
  /-- What is prepared to replace a file. -/
  | staged (f : File)
  /-- The hidden directory in which the table is assembled. -/
  | hidden
  deriving DecidableEq

namespace Role

/-- The path for a role, under a storage root. -/
def path (root : Path) (table : String) : Role → Path
  | directory => (ofTable root table).directory
  | indexes => (ofTable root table).indexes
  | file f => f.path (ofTable root table)
  | staged f => (f.path (ofTable root table)).staged
  | hidden => Layout.staging root table

/-- Whether what is at the path is there for the time of a change only. -/
def IsTemporary : Role → Prop
  | staged _ | hidden => True
  | _ => False

/-- The first step from the storage root. -/
def top (table : String) : Role → String
  | hidden => stagingName table
  | _ => table

/-- The steps after the first. -/
def below : Role → List String
  | directory | hidden => []
  | indexes => ["indexes"]
  | file f => f.folder ++ [f.name]
  | staged f => f.folder ++ [stagedName f.name]

/-- A path of a table has the steps of the storage root and those that its role demands. -/
theorem steps_path (root : Path) {table : String} (valid : Identifier.isValid table = true)
    (r : Role) : (r.path root table).steps = root.steps ++ r.top table :: r.below := by
  have step := isStep_of_isValid valid
  have home : (ofTable root table).directory.steps = root.steps ++ [table] :=
    Path.steps_join_of_isStep root step
  cases r with
  | directory => exact home
  | indexes =>
    rw [path, Layout.indexes, Path.steps_join_of_isStep _ isStep_indexes, home, List.append_assoc]
    rfl
  | file f =>
    rw [path, f.path_eq, Path.steps_join_of_isStep _ f.isStep_name, f.steps_home, home,
      List.append_assoc, List.append_assoc]
    rfl
  | staged f =>
    rw [path, f.path_eq, Path.steps_staged_join _ f.isStep_name, f.steps_home, home,
      List.append_assoc, List.append_assoc]
    rfl
  | hidden => exact Path.steps_join_of_isStep root (isStep_stagingName step)

/-- The first step tells the table, and whether it is the one to its hidden directory. -/
theorem top_eq {t u : String} (ht : Identifier.isValid t = true) (hu : Identifier.isValid u = true)
    {r r' : Role} (same : r.top t = r'.top u) :
    t = u ∧ (r = hidden ↔ r' = hidden) := by
  have plain {r : Role} (ne : r ≠ hidden) (table : String) : r.top table = table := by
    cases r <;> first | rfl | exact absurd rfl ne
  by_cases first : r = hidden
  · by_cases second : r' = hidden
    · subst first second
      have same : stagingName t = stagingName u := same
      simp only [stagingName, String.append_left_inj, String.append_right_inj] at same
      exact ⟨same, Iff.rfl⟩
    · rw [first, plain second] at same
      exact absurd same (FileTree.stagingName_ne hu t)
  · rw [plain first] at same
    by_cases second : r' = hidden
    · rw [second] at same
      exact absurd same.symm (FileTree.stagingName_ne ht u)
    · rw [plain second] at same
      exact ⟨same, iff_of_false first second⟩

/-- The last of the steps after the first. -/
def last? : Role → Option String
  | directory | hidden => none
  | indexes => some "indexes"
  | file f => some f.name
  | staged f => some (stagedName f.name)

theorem getLast?_below (r : Role) : r.below.getLast? = r.last? := by
  cases r with
  | directory | indexes | hidden => rfl
  | file f | staged f => exact List.getLast?_concat

/-- The last step tells all other roles apart. -/
theorem eq_of_last?_eq {r r' : Role} (same : r.last? = r'.last?)
    (both : r = hidden ↔ r' = hidden) : r = r' := by
  have files {f g : File} (same : f.name = g.name) : f = g := File.name_injective same
  have replacements {f g : File} (same : stagedName f.name = stagedName g.name) : f = g :=
    files ((String.append_left_inj ".swp").1 same)
  cases r <;> cases r' <;>
    grind [last?, File.name_ne_indexes, File.stagedName_ne_name, File.stagedName_ne_indexes]

/-- A path of a table tells the table and what it is for. -/
theorem eq_of_steps_eq (root : Path) {t u : String} (ht : Identifier.isValid t = true)
    (hu : Identifier.isValid u = true) {r r' : Role}
    (same : (r.path root t).steps = (r'.path root u).steps) : t = u ∧ r = r' := by
  rw [steps_path root ht, steps_path root hu] at same
  obtain ⟨first, later⟩ := List.cons.inj (List.append_cancel_left same)
  obtain ⟨table, both⟩ := top_eq ht hu first
  have last : r.last? = r'.last? := by rw [← getLast?_below, later, getLast?_below]
  exact ⟨table, eq_of_last?_eq last both⟩

/-- The way to a path of one table does not lead by a path of another. -/
theorem not_prefix_steps (root : Path) {t u : String} (ht : Identifier.isValid t = true)
    (hu : Identifier.isValid u = true) (ne : t ≠ u) (r r' : Role) :
    ¬ (r'.path root u).steps <+: (r.path root t).steps := by
  rw [steps_path root ht, steps_path root hu, List.prefix_append_right_inj, List.cons_prefix_cons]
  rintro ⟨first, -⟩
  exact ne (top_eq ht hu first.symm).1

end Role

/-- The paths of tables, whatever the storage root.  Those of one table are different as long as
they are for different things, and the index of another column is a different thing.  A path of one
table is not that of another and does not lead below it.  What is there for the time of a change
only is never where anything else is, of the same table or another. -/
theorem roles_apart (root : Path) {t u : String} (ht : Identifier.isValid t = true)
    (hu : Identifier.isValid u = true) :
    (∀ r r' : Role, r ≠ r' → (r.path root t).steps ≠ (r'.path root t).steps) ∧
      (∀ c d : String, Identifier.isValid c = true → Identifier.isValid d = true → c ≠ d →
        ((ofTable root t).index c).steps ≠ ((ofTable root t).index d).steps ∧
          ((ofTable root t).index c).staged.steps ≠ ((ofTable root t).index d).staged.steps) ∧
      (t ≠ u → ∀ r r' : Role, ¬ (r'.path root u).steps <+: (r.path root t).steps) ∧
      ∀ r r' : Role, r.IsTemporary → ¬ r'.IsTemporary →
        (r.path root t).steps ≠ (r'.path root u).steps := by
  have distinct (r r' : Role) (ne : r ≠ r') : (r.path root t).steps ≠ (r'.path root t).steps :=
    fun same => ne (Role.eq_of_steps_eq root ht ht same).2
  refine ⟨distinct, ?_, fun ne => Role.not_prefix_steps root ht hu ne, ?_⟩
  · intro c d hc hd ne
    refine ⟨distinct (.file (.index c hc)) (.file (.index d hd)) ?_,
      distinct (.staged (.index c hc)) (.staged (.index d hd)) ?_⟩
    · simpa using ne
    · simpa using ne
  · intro r r' temporary lasting same
    obtain ⟨-, rfl⟩ := Role.eq_of_steps_eq root ht hu same
    exact lasting temporary

/-- Tables and columns may be named like the directory or the list of the indexes. -/
theorem roles_apart_namesakes :
    let root : Path := ⟨"./db//"⟩
    let l := ofTable root "columns"
    let other := ofTable root "indexes"
    Identifier.isValid "columns" = true ∧ Identifier.isValid "indexes" = true ∧
      l.indexList.steps ≠ (l.index "columns").steps ∧
      (l.index "columns").staged.steps ≠ (l.index "indexes").staged.steps ∧
      ¬ other.directory.steps <+: l.indexes.steps ∧
      (Layout.staging root "columns").steps ≠ other.directory.steps := by
  intro root l other
  have columns : Identifier.isValid "columns" = true := by decide
  have indexes : Identifier.isValid "indexes" = true := by decide
  obtain ⟨distinct, index, apart, reserved⟩ := roles_apart root columns indexes
  refine ⟨columns, indexes, ?_, ?_, ?_, ?_⟩
  · exact distinct (.file .list) (.file (.index "columns" columns)) (by simp)
  · exact (index "columns" "indexes" columns indexes (by decide)).2
  · exact apart (by decide) .indexes .directory
  · exact reserved .hidden .directory trivial not_false

end Layout

end FlatDB
