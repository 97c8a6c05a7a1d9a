/-
# Trees that house a table

A tree houses a table if the table's directory holds its files and there is room
for replacing them.  Each file can then be read, and each write that operations
on tables make leads to a tree that houses the table with that one file changed.
-/

import FlatDB.Proofs.Table.Files

namespace FlatDB

namespace FileTree

/-- Whether the files of a table are in a directory, and nothing else. -/
def Holds (t : FileTree) (directory : Place) (f : TableFiles) : Prop :=
  ∀ inner, t.at? (inner ++ directory) = f.at? inner

/-- Whether two trees differ at most at and below a place. -/
structure SameOutside (directory : Place) (t t' : FileTree) : Prop where
  here : t'.here = t.here
  outside : ∀ p, below? directory p = none → t'.at? p = t.at? p

theorem SameOutside.refl (directory : Place) (t : FileTree) : SameOutside directory t t :=
  ⟨rfl, fun _ _ => rfl⟩

theorem SameOutside.trans {directory : Place} {t t' t'' : FileTree} (h : SameOutside directory t t')
    (h' : SameOutside directory t' t'') : SameOutside directory t t'' :=
  ⟨h'.here.trans h.here, fun p away => (h'.outside p away).trans (h.outside p away)⟩

theorem sameOutside_put (t : FileTree) {directory : Place} (ne : directory ≠ []) (inner : Place)
    (entry : Entry) : SameOutside directory t (t.put (inner ++ directory) entry) := by
  refine ⟨rfl, fun p away => ?_⟩
  rw [at?_put t (by simp [ne]), if_neg]
  rintro rfl
  rw [below?_append] at away
  cases away

/-- Writing one file changes what a directory holds by that file. -/
theorem Holds.put {t : FileTree} {directory : Place} {f f' : TableFiles} (h : t.Holds directory f)
    (ne : directory ≠ []) {inner : Place} {entry : Entry} (new : f'.at? inner = some entry)
    (old : ∀ p, p ≠ inner → f'.at? p = f.at? p) :
    (t.put (inner ++ directory) entry).Holds directory f' := by
  intro p
  rw [at?_put t (by simp [ne])]
  by_cases here : p = inner
  · rw [if_pos (by rw [here]), here, new]
  · rw [if_neg (fun e => here (List.append_cancel_right e)), h p, old p here]

/-- A tree in which a table with certain files is kept. -/
structure Houses (t : FileTree) (root : Path) (r : Place) (table : String) (f : TableFiles) : Prop
  where
  /-- The storage root is there. -/
  leads : t.Leads root r
  /-- The table has the name of a directory. -/
  step : Path.IsStep table
  /-- The paths of the table are short enough. -/
  room : root.RoomFor table
  /-- The table's directory has its files. -/
  holds : t.Holds (table :: r) f

/-- What a write makes of a tree that houses a table: the table's files are now these,
and nothing outside its directory has changed. -/
structure Becomes (t : FileTree) (root : Path) (r : Place) (table : String) (f : TableFiles)
    (t' : FileTree) : Prop where
  houses : t'.Houses root r table f
  same : SameOutside (table :: r) t t'

namespace Houses

variable {t t' : FileTree} {root : Path} {r : Place} {table : String} {f f' : TableFiles}

theorem becomes (h : t.Houses root r table f) : t.Becomes root r table f t :=
  ⟨h, .refl _ t⟩

/-- The directory of the table. -/
theorem leads_directory (h : t.Houses root r table f) : t.Leads (root.join table) (table :: r) :=
  h.leads.join h.step (h.room.admits h.step h.leads.ne_nil) (h.holds [])

/-- The directory of its indexes. -/
theorem leads_indexes (h : t.Houses root r table f) :
    t.Leads ((root.join table).join "indexes") ("indexes" :: table :: r) :=
  h.leads_directory.join isStep_indexes (h.room.admits_indexes h.step h.leads.ne_nil)
    (h.holds ["indexes"])

/-- Nothing is in what is not the directory of indexes. -/
theorem childless (h : t.Houses root r table f) {name : String} (other : name ≠ "indexes") :
    t.Childless (name :: table :: r) := by
  intro inner ne
  have found := h.holds (inner ++ [name])
  rwa [TableFiles.at?_append_singleton other ne, List.append_assoc] at found

theorem childless_indexes (h : t.Houses root r table f) (name : String) :
    t.Childless (name :: "indexes" :: table :: r) := by
  intro inner ne
  have found := h.holds (inner ++ [name, "indexes"])
  rwa [TableFiles.at?_append_pair ne, List.append_assoc] at found

/-- Writing a file where there is no directory leads to a tree that houses the table with
that file. -/
theorem put (h : t.Houses root r table f) (inner : Place)
    (notDirectory : f.at? inner ≠ some .directory) {content : Bytes}
    (new : f'.at? inner = some (.file content))
    (old : ∀ p, p ≠ inner → f'.at? p = f.at? p) :
    t.Becomes root r table f' (t.put (inner ++ table :: r) (.file content)) := by
  refine ⟨⟨h.leads.mono (keeps_put (by simp) ?_ _), h.step, h.room, h.holds.put (by simp) new old⟩,
    sameOutside_put t (by simp) inner _⟩
  rw [h.holds inner]
  exact notDirectory

end Houses

theorem Becomes.trans {t t' t'' : FileTree} {root : Path} {r : Place} {table : String}
    {f f' : TableFiles} (h : t.Becomes root r table f t') (h' : t'.Becomes root r table f' t'') :
    t.Becomes root r table f' t'' :=
  ⟨h'.houses, h.same.trans h'.same⟩

namespace Houses

variable {t : FileTree} {root : Path} {r : Place} {table : String} {f : TableFiles}

/-! ## Files of the table -/

/-- Replacing a file in the table's directory. -/
theorem runs_replace (h : t.Houses root r table f) {name : String} (file : FileName name)
    (free : f.at? [stagedName name] = none) {old : Bytes} (there : f.at? [name] = some (.file old))
    (content : Bytes) (sync : Bool) :
    (Replacement.replace ((root.join table).join name) content sync).Runs t (.ok ())
      (t.put ([name] ++ table :: r) (.file content)) := by
  have staged : stagedName name ≠ "indexes" := by
    intro e
    have last := congrArg (fun s : String => s.toList.getLast?) e
    simp [stagedName] at last
  refine h.leads_directory.runs_replace h.step h.leads.ne_nil file.step
    (h.room.admits_staged h.step h.leads.ne_nil file) ?_ (h.childless staged) ?_
    (h.childless file.file) content sync
  · exact (h.holds [stagedName name]).trans free
  · rw [show t.at? (name :: table :: r) = _ from h.holds [name], there]
    simp

/-- The counter can be replaced. -/
theorem runs_replace_counter (h : t.Houses root r table f) (content : Bytes) (sync : Bool) :
    ∃ t', (Replacement.replace (Layout.ofTable root table).counter content sync).Runs t (.ok ())
      t' ∧
      t.Becomes root r table { f with counter := content } t' := by
  refine ⟨_, h.runs_replace fileName_counter rfl rfl content sync,
    h.put ["reg_count.dat"] ?_ rfl ?_⟩
  · simp [TableFiles.at?]
  · intro p other
    unfold TableFiles.at?
    split <;> simp_all

/-- The data file can be replaced. -/
theorem runs_replace_data (h : t.Houses root r table f) (content : Bytes) (sync : Bool) :
    ∃ t', (Replacement.replace (Layout.ofTable root table).data content sync).Runs t (.ok ()) t' ∧
      t.Becomes root r table { f with data := content } t' := by
  refine ⟨_, h.runs_replace fileName_data rfl rfl content sync,
    h.put ["registers.sqlito"] ?_ rfl ?_⟩
  · simp [TableFiles.at?]
  · intro p other
    unfold TableFiles.at?
    split <;> simp_all

/-- More can be written to the data file. -/
theorem runs_append_data (h : t.Houses root r table f) (more : Bytes) (sync : Bool) :
    ∃ t', (Action.append (Layout.ofTable root table).data more sync).Runs t (.ok ()) t' ∧
      t.Becomes root r table { f with data := f.data ++ more } t' := by
  refine ⟨_, h.leads_directory.runs_append fileName_data.step
    (h.room.admits_staged h.step h.leads.ne_nil fileName_data).of_staged
    (h.holds ["registers.sqlito"]) more sync, ?_⟩
  refine h.put ["registers.sqlito"] ?_ rfl ?_
  · simp [TableFiles.at?]
  · intro p other
    unfold TableFiles.at?
    split <;> simp_all

/-- The data file can be emptied. -/
theorem runs_truncate_data (h : t.Houses root r table f) (sync : Bool) :
    ∃ t', (Action.truncate (Layout.ofTable root table).data sync).Runs t (.ok ()) t' ∧
      t.Becomes root r table { f with data := [] } t' := by
  refine ⟨_, h.leads_directory.runs_truncate fileName_data.step
    (h.room.admits_staged h.step h.leads.ne_nil fileName_data).of_staged
    (h.holds ["registers.sqlito"]) sync, ?_⟩
  refine h.put ["registers.sqlito"] ?_ rfl ?_
  · simp [TableFiles.at?]
  · intro p other
    unfold TableFiles.at?
    split <;> simp_all

/-! ## Files of indexes -/

/-- Replacing or making a file among those of indexes. -/
theorem runs_replace_indexes (h : t.Houses root r table f) {name : String} (step : Path.IsStep name)
    (admits : ((root.join table).join "indexes").Admits (stagedName name))
    (notDirectory : f.at? [name, "indexes"] ≠ some .directory) (content : Bytes) (sync : Bool) :
    (Replacement.replace (((root.join table).join "indexes").join name) content sync).Runs t
      (.ok ())
      (t.put ([name, "indexes"] ++ table :: r) (.file content)) := by
  refine h.leads_indexes.runs_replace isStep_indexes
    (Path.toList_join_ne_nil h.step h.leads.ne_nil) step admits ?_
    (h.childless_indexes (stagedName name)) ?_ (h.childless_indexes name) content sync
  · exact (h.holds [stagedName name, "indexes"]).trans (TableFiles.at?_staged_indexes name)
  · rwa [show t.at? (name :: "indexes" :: table :: r) = _ from h.holds [name, "indexes"]]

/-- The list of indexes can be replaced or made. -/
theorem runs_replace_list (h : t.Houses root r table f) (content : Bytes) (sync : Bool) :
    ∃ t', (Replacement.replace (Layout.ofTable root table).indexList content sync).Runs t (.ok ())
      t' ∧
      t.Becomes root r table { f with list := some content } t' := by
  have notDirectory : f.at? ["columns.dat", "indexes"] ≠ some .directory := by
    rw [TableFiles.at?]
    cases f.list <;> simp
  refine ⟨_, h.runs_replace_indexes fileName_list.step
    (h.room.admits_list h.step h.leads.ne_nil) notDirectory content sync,
    h.put ["columns.dat", "indexes"] notDirectory rfl ?_⟩
  intro p other
  unfold TableFiles.at?
  split <;> simp_all

theorem index_not_directory (f : TableFiles) (column : String) :
    f.at? [column ++ ".idx", "indexes"] ≠ some .directory := by
  rw [TableFiles.at?_index]
  cases f.index column <;> simp

/-- The file of an index can be replaced or made, if there is room for it. -/
theorem runs_replace_index (h : t.Houses root r table f) {column : String}
    (step : Path.IsStep column) (room : root.RoomForIndex table column) (content : Bytes)
    (sync : Bool) :
    ∃ t', (Replacement.replace ((Layout.ofTable root table).index column) content sync).Runs t
        (.ok ()) t' ∧
      t.Becomes root r table (f.withIndex column content) t' := by
  refine ⟨_, h.runs_replace_indexes (isStep_index step) room (index_not_directory f column) content
    sync, h.put [column ++ ".idx", "indexes"] (index_not_directory f column) ?_ ?_⟩
  · simp [TableFiles.at?_index, TableFiles.withIndex]
  · intro p other
    unfold TableFiles.at? TableFiles.withIndex
    split
    case h_7 file notList =>
      cases found : TableFiles.columnOf? file with
      | none => rfl
      | some c =>
          have different : c ≠ column := by
            rintro rfl
            exact other (by rw [TableFiles.columnOf?_eq_some_iff.1 found])
          simp [different]
    all_goals rfl

/-- Without room for the file of an index nothing is written. -/
theorem runs_replace_index_of_no_room (h : t.Houses root r table f) {column : String}
    (step : Path.IsStep column) (full : ¬ root.RoomForIndex table column) (content : Bytes)
    (sync : Bool) :
    (Replacement.replace ((Layout.ofTable root table).index column) content sync).Runs t
      (.error (.storage .nameTooLong)) t :=
  h.leads_indexes.runs_replace_of_not_admits isStep_indexes
    (Path.toList_join_ne_nil h.step h.leads.ne_nil) (isStep_index step) full content sync

/-! ## Reading -/

/-- The table's directory is there. -/
theorem runs_kind_directory (h : t.Houses root r table f) :
    (Action.kind (Layout.ofTable root table).directory).Runs t (.ok (some .directory)) t :=
  h.leads_directory.runs_kind

/-- A file in the table's directory can be read. -/
theorem runs_ask_read (h : t.Houses root r table f) {name : String} (file : FileName name)
    {content : Bytes} (there : f.at? [name] = some (.file content)) :
    (Action.ask (.read ((root.join table).join name))).Runs t (.ok (.ok (.content content))) t :=
  h.leads_directory.runs_ask_read file.step
    (h.room.admits_staged h.step h.leads.ne_nil file).of_staged ((h.holds [name]).trans there)

theorem runs_read_header (h : t.Houses root r table f) :
    (Action.ask (.read (Layout.ofTable root table).header)).Runs t
      (.ok (.ok (.content f.header))) t :=
  h.runs_ask_read fileName_header rfl

theorem runs_read_counter (h : t.Houses root r table f) :
    (Action.ask (.read (Layout.ofTable root table).counter)).Runs t
      (.ok (.ok (.content f.counter))) t :=
  h.runs_ask_read fileName_counter rfl

theorem runs_read_data (h : t.Houses root r table f) :
    (Action.read (Layout.ofTable root table).data).Runs t (.ok (.content f.data)) t :=
  .bind (h.runs_ask_read fileName_data rfl) (.ofReply_ok _ t)

/-- The header and the data file are files. -/
theorem runs_kind_file (h : t.Houses root r table f) {name : String} (file : FileName name)
    {content : Bytes} (there : f.at? [name] = some (.file content)) :
    (Action.kind ((root.join table).join name)).Runs t (.ok (some .file)) t := by
  have found := h.leads_directory.runs_kind_join file.step
  rwa [if_pos (h.room.admits_staged h.step h.leads.ne_nil file).of_staged,
    show t.at? (name :: table :: r) = _ from (h.holds [name]).trans there] at found

/-- The list of indexes is read, or found missing. -/
theorem runs_read_list (h : t.Houses root r table f) :
    (Action.ask (.read (Layout.ofTable root table).indexList)).Runs t
      (.ok (match f.list with
        | some content => .ok (.content content)
        | none => .error .notFound)) t := by
  have admits := (h.room.admits_list h.step h.leads.ne_nil).of_staged
  have there : t.at? ("columns.dat" :: "indexes" :: table :: r) = f.list.map .file :=
    h.holds ["columns.dat", "indexes"]
  cases found : f.list with
  | some content =>
      rw [found] at there
      exact h.leads_indexes.runs_ask_read fileName_list.step admits there
  | none =>
      rw [found] at there
      exact h.leads_indexes.runs_ask_read_of_absent fileName_list.step admits there

/-- The file of an index is read. -/
theorem runs_read_index (h : t.Houses root r table f) {column : String}
    (step : Path.IsStep column) (room : root.RoomForIndex table column) {content : Bytes}
    (there : f.index column = some content) :
    (Action.ask (.read ((Layout.ofTable root table).index column))).Runs t
      (.ok (.ok (.content content))) t := by
  apply h.leads_indexes.runs_ask_read (isStep_index step) room.of_staged
  rw [show t.at? ((column ++ ".idx") :: "indexes" :: table :: r) = _ from
    h.holds [column ++ ".idx", "indexes"], TableFiles.at?_index, there]
  rfl

/-- The file of an index is found missing. -/
theorem runs_read_index_of_absent (h : t.Houses root r table f) {column : String}
    (step : Path.IsStep column) (room : root.RoomForIndex table column)
    (absent : f.index column = none) :
    (Action.ask (.read ((Layout.ofTable root table).index column))).Runs t
      (.ok (.error .notFound)) t := by
  apply h.leads_indexes.runs_ask_read_of_absent (isStep_index step) room.of_staged
  rw [show t.at? ((column ++ ".idx") :: "indexes" :: table :: r) = _ from
    h.holds [column ++ ".idx", "indexes"], TableFiles.at?_index, absent]
  rfl

end Houses

end FileTree

end FlatDB
