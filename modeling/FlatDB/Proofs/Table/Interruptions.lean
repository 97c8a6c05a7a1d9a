/-
# Making a table that is interrupted

A table that is stopped to be made is complete or not there.  All its files are written
in the hidden directory, by calls that put nothing in the table's own place, and then
the directory is moved there in a single step.  What an earlier interruption has left
in the hidden directory is removed first.
-/

import FlatDB.Proofs.Disk.Absence
import FlatDB.Proofs.Record.Interruptions
import FlatDB.Proofs.Table.Making

namespace FlatDB

open FileTree

namespace FileTree

variable {t : FileTree} {root : Path} {r : Place} {d : Definition} {sync : Bool} {disk disk' : Disk}

/-! ## Before the move -/

theorem Leads.goal_join_join (h : t.Leads root r) {outer inner : String} (ho : Path.IsStep outer)
    (hi : Path.IsStep inner) : t.goal ((root.join outer).join inner) = inner :: outer :: r := by
  rw [goal_join hi (Path.toList_join_ne_nil ho h.ne_nil), goal_join ho h.ne_nil,
    goal_of_place h.place]

/-- A free name is not on the way to the directory for indexes in another. -/
theorem Leads.follow_steps_ne (h : t.Leads root r) (sound : t.IsSound) {table staging : String}
    (step : Path.IsStep staging) (ne : staging ≠ table) (free : t.at? (table :: r) = none)
    {front : List String} (onTheWay : front <+: ((root.join staging).join "indexes").steps) :
    follow (t.start ((root.join staging).join "indexes")) front ≠ table :: r := by
  have nonempty := Path.toList_join_ne_nil step h.ne_nil
  have start : t.start ((root.join staging).join "indexes") = t.start root := by
    rw [FileTree.start, Path.isAbsolute_join isStep_indexes nonempty,
      Path.isAbsolute_join step h.ne_nil, ← FileTree.start]
  have walked : t.walk (t.start root) root.steps = .ok r := walk_steps h.directory h.walk
  rw [Path.steps_join isStep_indexes nonempty, Path.steps_join step h.ne_nil] at onTheWay
  rw [start]
  rcases List.prefix_concat_iff.1 onTheWay with rfl | onTheWay
  · rw [follow_concat isStep_indexes, follow_concat step, follow_of_walk walked]
    exact ne_of_apply_ne List.length (by simp)
  rcases List.prefix_concat_iff.1 onTheWay with rfl | onTheWay
  · rw [follow_concat step, follow_of_walk walked]
    simp [ne]
  · -- What is on the way to the root is a directory already.
    intro there
    have directory := sound.follow (sound.start root) walked h.directory onTheWay
    rw [there, free] at directory
    cases directory

/-- Nothing is put anywhere by removing a directory. -/
theorem maintains_removeTree (here place : Place) (path : Path) :
    (Action.removeTree path).Maintains (Disk.Lacks here place) :=
  .call (Call.maintains_removeTree here place path)

/-- While a table is assembled nothing is put in its place. -/
theorem Leads.maintains_assemble (h : t.Leads root r) (sound : t.IsSound)
    (valid : Identifier.isValid d.name = true) (free : t.at? (d.name :: r) = none) :
    (Table.assemble ⟨root.join (stagingName d.name)⟩ d sync).Maintains
      (Disk.Lacks t.here (d.name :: r)) := by
  have step := isStep_stagingName (isStep_of_isValid valid)
  -- All files are deeper than the table's own place.
  have away {name : String} (inner : Path.IsStep name) :
      t.goal ((root.join (stagingName d.name)).join name) ≠ d.name :: r := by
    rw [h.goal_join_join step inner]
    exact ne_of_apply_ne List.length (by simp)
  have staged : t.goal (((root.join (stagingName d.name)).join "reg_count.dat").staged) ≠
      d.name :: r := by
    rw [Path.staged_join_join step fileName_counter.step h.ne_nil]
    exact away (isStep_stagedName fileName_counter.step)
  have beside : below? (t.goal ((root.join (stagingName d.name)).join "reg_count.dat"))
      (d.name :: r) = none := by
    rw [h.goal_join_join step fileName_counter.step]
    exact below?_of_length_lt (by simp)
  refine .bind (.call (Call.maintains_makeDirectories (away isStep_indexes) fun front =>
    h.follow_steps_ne sound step (stagingName_ne valid _) free)) fun _ => ?_
  refine .bind ?_ fun _ => .bind ?_ fun _ => .pure _
  · exact .bind (.call (Call.maintains_create (away fileName_header.step))) fun handle =>
      .call (Call.maintains_fill _ _ _ _ _)
  · exact .bind (.call (Call.maintains_create (away fileName_data.step))) fun _ =>
      .bind (Replacement.maintains_replace staged beside _ _) fun _ => .pure _

end FileTree

namespace Table

/-- Assemble a table in the hidden directory and move it to its place. -/
def emplace (root : Path) (d : Definition) (sync : Bool) : Action Unit := do
  assemble ⟨Layout.staging root d.name⟩ d sync
  Action.rename (Layout.staging root d.name) (Layout.ofTable root d.name).directory

/-- The disks on which a table is made, once the name of the hidden directory has been
freed: where it is assembled, where it is moved, and what the move leaves. -/
structure Emplaces (root : Path) (d : Definition) (sync : Bool) (d₁ d₂ d₃ : Disk) : Prop where
  assembled : d₁.perform (assemble ⟨Layout.staging root d.name⟩ d sync) = (.ok (), d₂)
  moved : d₂.perform
    (Action.rename (Layout.staging root d.name) (Layout.ofTable root d.name).directory) =
      (.ok (), d₃)

variable {root : Path} {d : Definition} {sync : Bool} {d₁ d₂ d₃ : Disk}

theorem Emplaces.perform (h : Emplaces root d sync d₁ d₂ d₃) :
    d₁.perform (emplace root d sync) = (.ok (), d₃) := by
  rw [emplace, Disk.perform_bind, h.assembled]
  exact h.moved

theorem Emplaces.of_perform (performed : d₁.perform (emplace root d sync) = (.ok (), d₃)) :
    ∃ d₂, Emplaces root d sync d₁ d₂ d₃ := by
  rw [emplace, Disk.perform_bind] at performed
  cases assembled : d₁.perform (assemble ⟨Layout.staging root d.name⟩ d sync) with
  | mk x d₂ =>
      rw [assembled] at performed
      cases x with
      | error e => cases performed
      | ok _ => exact ⟨d₂, assembled, performed⟩

end Table

namespace FileTree

variable {t : FileTree} {root : Path} {r : Place} {d : Definition} {sync : Bool}
  {disk disk' d₁ : Disk}

/-- Until the hidden directory has been moved there is nothing in the table's place. -/
theorem Leads.of_interrupted_emplace (h : t.Leads root r) (sound : t.IsSound)
    (valid : Identifier.isValid d.name = true) (free : t.at? (d.name :: r) = none)
    (lacks : d₁.Lacks t.here (d.name :: r))
    (stopped : (Table.emplace root d sync).Interrupted d₁ disk') :
    disk'.Lacks t.here (d.name :: r) ∨ ∃ d₂, Table.Emplaces root d sync d₁ d₂ disk' := by
  have maintains : (Table.assemble ⟨Layout.staging root d.name⟩ d sync).Maintains
      (Disk.Lacks t.here (d.name :: r)) := h.maintains_assemble sound valid free
  rcases stopped.of_bind with stopped | ⟨_, d₂, assembled, stopped⟩
  · exact .inl (maintains.interrupted lacks stopped)
  have left := maintains.of_perform lacks assembled
  rcases stopped.of_call with rfl | impossible | rfl
  · exact .inl left
  · exact impossible.elim
  · rw [Disk.step_rename]
    rcases d₂.rename_cases (Layout.staging root d.name) (Layout.ofTable root d.name).directory with
      ⟨_, refused⟩ | ⟨_, _, -, -, moved⟩
    · rw [refused]
      exact .inl left
    · refine .inr ⟨d₂, assembled, ?_⟩
      rw [Action.rename, Disk.perform_bind, Disk.perform_ask, Disk.step_rename, moved]
      rfl

theorem Leads.of_interrupted_emplace_load (h : t.Leads root r) (sound : t.IsSound)
    (valid : Identifier.isValid d.name = true) (free : t.at? (d.name :: r) = none)
    (lacks : d₁.Lacks t.here (d.name :: r))
    (stopped : Action.Interrupted (do
      (Table.emplace root d sync).orElse (Action.removeTree (Layout.staging root d.name))
      Table.load root d.name sync) d₁ disk') :
    disk'.Lacks t.here (d.name :: r) ∨
      ∃ d₂ d₃, Table.Emplaces root d sync d₁ d₂ d₃ ∧
        (Table.load root d.name sync).Interrupted d₃ disk' := by
  have removes := maintains_removeTree t.here (d.name :: r) (Layout.staging root d.name)
  rcases stopped.of_bind with stopped | ⟨_, d₃, emplaced, stopped⟩
  · rcases stopped.of_orElse with stopped | ⟨e, d₂, failed, stopped⟩
    · exact (h.of_interrupted_emplace sound valid free lacks stopped).imp_right
        fun ⟨d₂, emplaces⟩ => ⟨d₂, disk', emplaces, Action.interrupted_start _ _⟩
    · left
      rcases h.of_interrupted_emplace sound valid free lacks (Action.interrupted_of_perform failed)
        with left | ⟨_, emplaces⟩
      · exact removes.interrupted left stopped
      · cases emplaces.perform.symm.trans failed
  · rw [Disk.perform_orElse] at emplaced
    cases performed : d₁.perform (Table.emplace root d sync) with
    | mk x d₂ =>
        rw [performed] at emplaced
        cases x with
        | error e => cases emplaced
        | ok _ =>
            cases emplaced
            obtain ⟨d₂, emplaces⟩ := Table.Emplaces.of_perform performed
            exact .inr ⟨d₂, _, emplaces, stopped⟩

/-- A table that is stopped to be made is not in its place, or else it is assembled and
moved there, and what is stopped is opening it. -/
theorem Leads.of_interrupted_create (h : disk.tree.Leads root r) (sound : disk.tree.IsSound)
    (valid : Identifier.isValid d.name = true) (free : disk.tree.at? (d.name :: r) = none)
    (stopped : (Table.create root d sync).Interrupted disk disk') :
    disk'.Lacks disk.tree.here (d.name :: r) ∨
      ∃ d₁ d₂ d₃,
        ((disk.step (.kind (Layout.staging root d.name))).1 = none ∧ d₁ = disk ∨
          disk.perform (Action.removeTree (Layout.staging root d.name)) = (.ok (), d₁)) ∧
        Table.Emplaces root d sync d₁ d₂ d₃ ∧
        (Table.load root d.name sync).Interrupted d₃ disk' := by
  have lacks : disk.Lacks disk.tree.here (d.name :: r) := ⟨rfl, free⟩
  rw [Table.create] at stopped
  rcases stopped.of_bind_ofResult with rfl | ⟨_, -, stopped⟩
  · exact .inl lacks
  rcases stopped.of_bind_kind with rfl | stopped
  · exact .inl lacks
  split at stopped
  · exact .inl (stopped.of_throw ▸ lacks)
  rcases stopped.of_bind_kind with rfl | stopped
  · exact .inl lacks
  split at stopped
  · exact .inl (stopped.of_throw ▸ lacks)
  rcases stopped.of_bind_kind with rfl | stopped
  · exact .inl lacks
  split at stopped
  · have removes := maintains_removeTree disk.tree.here (d.name :: r) (Layout.staging root d.name)
    rcases stopped.of_bind with stopped | ⟨_, d₁, removed, stopped⟩
    · exact .inl (removes.interrupted lacks stopped)
    · refine (h.of_interrupted_emplace_load sound valid free (removes.of_perform lacks removed)
        stopped).imp_right ?_
      rintro ⟨d₂, d₃, later⟩
      exact ⟨d₁, d₂, d₃, .inr removed, later⟩
  · next absent =>
    refine (h.of_interrupted_emplace_load sound valid free lacks stopped).imp_right ?_
    rintro ⟨d₂, d₃, later⟩
    exact ⟨disk, d₂, d₃, .inl ⟨by simpa using absent, rfl⟩, later⟩

/-! ## After the move -/

/-- Where the hidden directory and the table's place are free, what is made is complete. -/
theorem Leads.becomes_of_emplaces (h : d₁.tree.Leads root r)
    (valid : Identifier.isValid d.name = true) (hidden : d₁.tree.Vacant (stagingName d.name :: r))
    (free : d₁.tree.Vacant (d.name :: r)) {d₂ d₃ : Disk}
    (emplaces : Table.Emplaces root d sync d₁ d₂ d₃) :
    d₁.tree.Becomes root r d.name (Contents.new d).files d₃.tree := by
  by_cases room : root.RoomFor d.name
  · obtain ⟨t₂, t₃, assembled, moved, becomes⟩ := h.runs_assemble_move valid room hidden free sync
    obtain ⟨-, rfl⟩ := assembled.of_perform emplaces.assembled
    obtain ⟨-, rfl⟩ := moved.of_perform emplaces.moved
    exact becomes
  · obtain ⟨t₂, failed, -⟩ :=
      h.runs_assemble_of_no_room (isStep_of_isValid valid) room hidden d sync
    cases (failed.of_perform emplaces.assembled).1

end FileTree

/-! ## Opening -/

theorem Table.onlyReads_readHeader (layout : Layout) (name : String) :
    (readHeader layout name).OnlyReads := by
  refine .bind (.ask_read layout.header) fun reply => ?_
  cases reply with
  | ok source => exact .ofResult _
  | error fault => exact .throw _

theorem TableIndexes.onlyReads_readList (x : TableIndexes) : x.readList.OnlyReads := by
  refine .bind (.ask_read x.layout.indexList) fun reply => ?_
  split
  · exact .bind (.ofReply _) fun _ => .pure _
  · exact .pure _
  · exact .throw _

namespace FileTree

variable {t : FileTree} {root : Path} {r : Place} {d : Definition} {sync : Bool}
  {disk disk' d₁ d₂ d₃ : Disk}

/-- Opening a table without indexes only reads. -/
theorem Houses.of_interrupted_load {table : String} {f : TableFiles}
    (h : disk.tree.Houses root r table f) (plain : f.list = none)
    (stopped : (Table.load root table sync).Interrupted disk disk') : disk' = disk := by
  have opens {definition : Definition} {records : RecordFile}
      (stopped : (TableIndexes.load definition (Layout.ofTable root table) records
        sync).Interrupted disk disk') : disk' = disk := by
    rw [TableIndexes.load] at stopped
    have reads := TableIndexes.onlyReads_readList
      (TableIndexes.empty definition.name (Layout.ofTable root table) sync)
    rcases stopped.of_bind with stopped | ⟨list, d₁, read, stopped⟩
    · exact reads.eq_of_interrupted stopped
    · obtain ⟨same, -⟩ := (h.runs_readList_of_none plain _ rfl).of_perform read
      cases same
      exact stopped.of_pure.trans (reads.eq_of_perform read)
  rw [Table.load] at stopped
  rcases stopped.of_bind_ofResult with rfl | ⟨_, -, stopped⟩
  · rfl
  rcases stopped.of_bind_kind with rfl | stopped
  · rfl
  split at stopped
  · exact stopped.of_throw
  rcases stopped.of_bind with stopped | ⟨definition, d₁, read, stopped⟩
  · exact (Table.onlyReads_readHeader _ _).eq_of_interrupted stopped
  cases (Table.onlyReads_readHeader _ _).eq_of_perform read
  rcases stopped.of_bind with stopped | ⟨records, d₂, loaded, stopped⟩
  · exact (RecordFile.onlyReads_load _ _ _ _ _).eq_of_interrupted stopped
  cases (RecordFile.onlyReads_load _ _ _ _ _).eq_of_perform loaded
  exact opens stopped.of_bind_pure

/-- Where the way to the root leads through the hidden directory, there is no way to the
table once that has been moved. -/
theorem Leads.kind_eq_none_of_detour (h : t.Leads root r) {staging name : String}
    (step : Path.IsStep name) (detour : ¬ (t.prune (staging :: r)).Leads root r)
    (here : disk.tree.here = t.here) (gone : disk.tree.Vacant (staging :: r)) :
    (disk.step (.kind (root.join name))).1 = none := by
  refine Disk.kind_eq_none fun p found => ?_
  have walked := walk_of_place found
  rw [Path.names_join step h.ne_nil, FileTree.start, Path.isAbsolute_join step h.ne_nil,
    ← FileTree.start, start_of_here here] at walked
  have prune {q : Place} (outermost : q ≠ []) := at?_prune t (staging :: r) outermost
  -- A directory that is left in the second tree was not in the hidden one.
  have both (q : Place) (directory : t.at? q = some .directory)
      (left : disk.tree.at? q = some .directory) :
      (t.prune (staging :: r)).at? q = some .directory := by
    by_cases outermost : q = []
    · rw [outermost]
      rfl
    · cases below : below? (staging :: r) q with
      | none => rw [prune outermost, below, directory]; rfl
      | some inner =>
          rw [below?_eq_some_iff.1 below, gone inner] at left
          cases left
  refine absurd ⟨?_, ?_⟩ detour
  · rw [FileTree.place, h.refusal?_eq_none]
    exact walk_of_both h.directory h.walk walked both
  · by_cases outermost : r = []
    · rw [outermost]
      rfl
    · rw [prune outermost, below?_of_length_lt (by simp), h.directory]
      rfl

/-- What is moved away is gone. -/
theorem Leads.vacant_of_rename (h : t.Leads root r) {outer inner : String}
    (ho : Path.IsStep outer) (hi : Path.IsStep inner) (ne : outer ≠ inner)
    (here : d₂.tree.here = t.here)
    (moved : d₂.perform (Action.rename (root.join outer) (root.join inner)) = (.ok (), d₃)) :
    d₃.tree.here = t.here ∧ d₃.tree.Vacant (outer :: r) := by
  obtain ⟨renamed, rfl⟩ := Disk.step_of_perform
    (c := .rename (root.join outer) (root.join inner)) (f := fun reply => reply) moved
  rw [Disk.step_rename] at renamed ⊢
  rcases d₂.rename_cases (root.join outer) (root.join inner) with
    ⟨_, refused⟩ | ⟨p, q, source, target, gone⟩
  · rw [refused] at renamed
    cases renamed
  rw [← goal_of_place source, ← goal_of_place target, goal_of_here here, goal_of_here here,
    goal_join ho h.ne_nil, goal_join hi h.ne_nil, goal_of_place h.place,
    if_neg (by simpa using ne)] at gone
  rw [gone]
  refine ⟨here, fun inside => ?_⟩
  show (d₂.tree.move (outer :: r) (inner :: r)).at? (inside ++ outer :: r) = none
  rw [at?_move _ (by simp) (by simp), below?_append_cons_of_ne ne, below?_append]
  rfl

theorem Leads.step_kind_join (h : disk.tree.Leads root r) {name : String}
    (step : Path.IsStep name) : (disk.step (.kind (root.join name))).1 =
      if root.Admits name then (disk.tree.at? (name :: r)).map Entry.kind else none :=
  Except.ok.inj ((h.runs_kind_join step).of_perform (disk.perform_ask _)).1

/-- What can be removed is a directory, and it is gone with all that was in it. -/
theorem Leads.directory_of_removeTree (h : disk.tree.Leads root r) {name : String}
    (step : Path.IsStep name)
    (removed : disk.perform (Action.removeTree (root.join name)) = (.ok (), d₁)) :
    disk.tree.at? (name :: r) = some .directory ∧ d₁.tree = disk.tree.prune (name :: r) := by
  obtain ⟨replied, rfl⟩ := Disk.step_of_perform (c := .removeTree (root.join name))
    (f := fun reply => reply) removed
  rw [Disk.step] at replied ⊢
  split at replied
  · next p look =>
    obtain ⟨found, there⟩ := place_of_look look
    have place := goal_of_place found
    rw [goal_join step h.ne_nil, goal_of_place h.place] at place
    rw [place]
    exact ⟨there.symm, rfl⟩
  all_goals cases replied

theorem vacant_prune (t : FileTree) {place : Place} (ne : place ≠ []) :
    (t.prune place).Vacant place := by
  intro inner
  rw [at?_prune t place (by simp [ne]), below?_append]
  rfl

/-- A table that has been moved to its place is complete, or else the way to the root leads
through the hidden directory, and there is no way to it any more. -/
theorem Leads.gains_of_emplaces (h : disk.tree.Leads root r) (sound : disk.tree.IsSound)
    (valid : Identifier.isValid d.name = true) (free : disk.tree.at? (d.name :: r) = none)
    (freed : (disk.step (.kind (Layout.staging root d.name))).1 = none ∧ d₁ = disk ∨
      disk.perform (Action.removeTree (Layout.staging root d.name)) = (.ok (), d₁))
    (emplaces : Table.Emplaces root d sync d₁ d₂ d₃) :
    disk.tree.Gains root r d d₃.tree ∨
      ¬ (disk.tree.prune (stagingName d.name :: r)).Leads root r ∧
        (d₃.step (.kind (Layout.ofTable root d.name).directory)).1 = none := by
  have step := isStep_of_isValid valid
  have hs := isStep_stagingName step
  rcases freed with ⟨absent, rfl⟩ | removed
  · left
    by_cases admits : root.Admits (stagingName d.name)
    · have found := h.step_kind_join hs
      rw [if_pos admits] at found
      have hidden := sound.vacant (Option.map_eq_none_iff.1 (found.symm.trans absent))
      exact (h.becomes_of_emplaces valid hidden (sound.vacant free) emplaces).gains valid hidden
    · have refused := h.runs_makeDirectories_of_not_admits hs isStep_indexes (by decide)
        fun fits => admits (fits.2.outer hs h.ne_nil fits.1)
      have failed : (Table.assemble ⟨Layout.staging root d.name⟩ d sync).Runs d₁.tree _ _ :=
        .bind_error refused
      cases (failed.of_perform emplaces.assembled).1
  · obtain ⟨-, pruned⟩ := h.directory_of_removeTree hs removed
    by_cases stays : (disk.tree.prune (stagingName d.name :: r)).Leads root r
    · left
      have hidden : d₁.tree.Vacant (stagingName d.name :: r) := by
        rw [pruned]
        exact vacant_prune _ (by simp)
      have vacant : d₁.tree.Vacant (d.name :: r) := by
        rw [pruned]
        exact fun inner => at?_prune_of_free (sound.vacant free inner) _
      rw [← pruned] at stays
      have becomes := stays.becomes_of_emplaces valid hidden vacant emplaces
      have gains := becomes.gains valid hidden
      rw [pruned] at gains
      exact gains.of_prune
    · refine .inr ⟨stays, ?_⟩
      have lacks : d₁.Lacks disk.tree.here (d.name :: r) := by
        rw [Disk.Lacks, pruned]
        exact ⟨rfl, at?_prune_of_free free _⟩
      have maintains : (Table.assemble ⟨Layout.staging root d.name⟩ d sync).Maintains
          (Disk.Lacks disk.tree.here (d.name :: r)) := h.maintains_assemble sound valid free
      obtain ⟨here, gone⟩ := h.vacant_of_rename hs step (stagingName_ne valid d.name)
        (maintains.of_perform lacks emplaces.assembled).1 emplaces.moved
      exact h.kind_eq_none_of_detour step stays here gone

end FileTree

namespace Table

variable {root : Path} {d : Definition} {sync : Bool} {disk disk' : Disk}

/-- Whether a new table is found complete in its place: the whole header, a data file
without any record and a counter that says zero.  If its definition can be read back at
all, as it can if its schema is proper and its numbers fit, opening the table yields it. -/
structure OpensNew (root : Path) (d : Definition) (sync : Bool) (t : FileTree) : Prop where
  header : (Action.read (Layout.ofTable root d.name).header).Runs t
    (.ok (.content (Utf8.encode (Header.ofDef d)))) t
  data : (Action.read (Layout.ofTable root d.name).data).Runs t (.ok (.content [])) t
  counter : (Action.read (Layout.ofTable root d.name).counter).Runs t
    (.ok (.content (Utf8.encode "0"))) t
  opens : Header.reread d = .ok d → ∃ table, (load root d.name sync).Runs t (.ok table) t ∧
    table.definition = d ∧ table.scan.Runs t (.ok []) t ∧ table.records.lastId = 0

end Table

namespace FileTree

variable {t : FileTree} {root : Path} {r : Place} {d : Definition} {sync : Bool}
  {disk disk' : Disk}

/-- A table with the files of a new one is opened as one, if its definition can be read back. -/
theorem Houses.runs_load_new (h : t.Houses root r d.name (Contents.new d).files)
    (valid : Identifier.isValid d.name = true) (read : Header.reread d = .ok d) (sync : Bool) :
    (Table.load root d.name sync).Runs t (.ok ((Contents.new d).handle root sync)) t := by
  have reread : (Table.readHeader (Layout.ofTable root d.name) d.name).Runs t (.ok d) t := by
    rw [← read]
    exact .bind h.runs_read_header (.ofResult _ t)
  rw [Table.load]
  rw [Identifier.check_eq_ok.2 valid]
  refine .bind (.ofResult _ t) (.bind h.runs_kind_directory ?_)
  rw [if_neg (by simp)]
  refine .bind reread (.bind (h.runs_load_records rfl d.schema.arity sync) ?_)
  exact .bind (.bind (h.runs_readList_of_none rfl _ rfl) (.pure _ t)) (.pure _ t)

theorem Houses.opensNew (h : t.Houses root r d.name (Contents.new d).files)
    (valid : Identifier.isValid d.name = true) (sync : Bool) : Table.OpensNew root d sync t := by
  have zero : (Contents.new d).files.counter = Utf8.encode "0" :=
    congrArg Utf8.encode (by decide : Numeral.ofUInt64 0 = "0")
  refine ⟨.bind h.runs_read_header (.ofReply_ok _ t), h.runs_read_data, ?_, fun read => ?_⟩
  · rw [← zero]
    exact .bind h.runs_read_counter (.ofReply_ok _ t)
  · exact ⟨(Contents.new d).handle root sync, h.runs_load_new valid read sync, rfl,
      .bind h.runs_read_data (.pure _ t), rfl⟩

end FileTree

namespace Table

variable {root : Path} {d : Definition} {sync : Bool} {disk disk' : Disk}

/-- Wherever making a table is stopped, the table is not there or complete. -/
theorem absent_or_opensNew_of_interrupted (sound : disk.tree.IsSound)
    (absent : (disk.step (.kind (Layout.ofTable root d.name).directory)).1 = none)
    (stopped : (create root d sync).Interrupted disk disk') :
    (disk'.step (.kind (Layout.ofTable root d.name).directory)).1 = none ∨
      OpensNew root d sync disk'.tree := by
  have whole := stopped
  rw [create] at stopped
  rcases stopped.of_bind_ofResult with rfl | ⟨_, checked, stopped⟩
  · exact .inl absent
  have valid := Identifier.check_eq_ok.1 checked
  rcases stopped.of_bind_kind with rfl | stopped
  · exact .inl absent
  split at stopped
  · exact .inl (stopped.of_throw ▸ absent)
  next directory =>
  obtain ⟨r, leads⟩ := Disk.exists_leads_of_kind (not_not.1 directory)
  have step := isStep_of_isValid valid
  by_cases admits : root.Admits d.name
  · have found := leads.step_kind_join step
    rw [if_pos admits] at found
    have free := Option.map_eq_none_iff.1 (found.symm.trans absent)
    rcases leads.of_interrupted_create sound valid free whole with
      lacks | ⟨d₁, d₂, d₃, freed, emplaces, stopped⟩
    · refine .inl (lacks.kind_eq_none ?_)
      show disk.tree.goal (root.join d.name) = _
      rw [FileTree.goal_join step leads.ne_nil, FileTree.goal_of_place leads.place]
    rcases leads.gains_of_emplaces sound valid free freed emplaces with gains | ⟨-, gone⟩
    · rw [(gains.houses valid).of_interrupted_load rfl stopped]
      exact .inr ((gains.houses valid).opensNew valid sync)
    · rw [load] at stopped
      rcases stopped.of_bind_ofResult with rfl | ⟨_, -, stopped⟩
      · exact .inl gone
      rcases stopped.of_bind_kind with rfl | stopped
      · exact .inl gone
      rw [if_pos (by rw [gone]; simp)] at stopped
      exact .inl (stopped.of_throw ▸ gone)
  · exact .inl (Disk.kind_eq_none fun p place =>
      absurd (FileTree.admits_of_place step leads.ne_nil place) admits)

end Table

/-! ## Old or new -/

/-- No interruption is noticed but by what has not been done.  A table that was stopped to be
made is not there, or it is complete.  A store whose records were being changed is opened with
all the entries that it had, or with all that the change leaves when it is done; and in either
case it counts on from an id that is none before those of its records. -/
theorem interruption_leaves_old_or_new :
    (∀ {root : Path} {d : Definition} {sync : Bool} {disk disk' : Disk}, disk.tree.IsSound →
      (disk.step (.kind (Layout.ofTable root d.name).directory)).1 = none →
      (Table.create root d sync).Interrupted disk disk' →
        (disk'.step (.kind (Layout.ofTable root d.name).directory)).1 = none ∨
          Table.OpensNew root d sync disk'.tree) ∧
    ∀ {s : RecordFile} {l : Lodging} {stored : List Stored} {change : RecordFile.Change}
      {disk disk' : Disk}, s.Sound l stored disk.tree → change.update.Interrupted s disk disk' →
        ∃ entries, s.Reopens entries disk'.tree ∧ (entries = stored.map .ok ∨
          ((disk.update s change.update).2.2.perform (disk.update s change.update).2.1.scan).1 =
              .ok entries ∧
            (change.Fits s → entries = (change.records s stored).map .ok)) :=
  ⟨Table.absent_or_opensNew_of_interrupted, fun sound => sound.reopens_of_interrupted⟩

/-- A table with a column of numbers. -/
def Definition.notes : Definition :=
  .ofSchema "notes" ⟨[⟨⟨"n", .int, false⟩, 0⟩]⟩

/-- All of its files are written, but it has not been moved to its place. -/
theorem interrupted_create_notes :
    (Table.create ⟨"/"⟩ .notes true).Interrupted Disk.empty
      (Disk.empty.perform (Table.assemble ⟨Layout.staging ⟨"/"⟩ "notes"⟩ .notes true)).2 := by
  rw [Table.create]
  refine Action.interrupted_bind.2 (.inr ⟨(), Disk.empty, by decide +kernel, ?_⟩)
  refine Action.interrupted_bind.2 (.inr ⟨some .directory, Disk.empty, by decide +kernel, ?_⟩)
  rw [if_neg (by decide)]
  refine Action.interrupted_bind.2 (.inr ⟨none, Disk.empty, by decide +kernel, ?_⟩)
  rw [if_neg (by decide)]
  refine Action.interrupted_bind.2 (.inr ⟨none, Disk.empty, by decide +kernel, ?_⟩)
  rw [if_neg (by decide)]
  refine Action.interrupted_bind.2 (.inl ?_)
  rw [Action.orElse]
  exact Action.interrupted_bind.2 (.inl (Action.interrupted_outcome.2
    (Action.interrupted_bind.2 (.inl (Action.interrupted_end _ _)))))

/-- A store with one record. -/
def RecordFile.letters : RecordFile :=
  ⟨"letters", ⟨"data"⟩, ⟨"counter"⟩, 1, 1, true⟩

/-- A disk with the files of that store. -/
def Disk.lettered : Disk :=
  ⟨(FileTree.empty.put ["data"] (.file (Utf8.encode "1\ta\n"))).put ["counter"]
    (.file (Utf8.encode "1")), []⟩

theorem RecordFile.sound_letters :
    letters.Sound Custody.outermost [(1, ⟨["a"]⟩)] Disk.lettered.tree := by
  obtain ⟨dataSite, counterSite⟩ := Custody.sites_put (Utf8.encode "1\ta\n") (Utf8.encode "1")
  have counts : Disk.lettered.tree.at? ["counter"] =
      some (.file (Utf8.encode (Numeral.ofUInt64 1))) := by
    decide +kernel
  exact ⟨⟨dataSite, counterSite, by decide +kernel, by decide⟩, by decide, .inr counts⟩

/-- A second record has been counted, but it has not been written. -/
theorem RecordFile.interrupted_append_letters :
    (Change.append ⟨["b"]⟩).update.Interrupted letters Disk.lettered
      (Disk.lettered.perform (Replacement.replace ⟨"counter"⟩ (Utf8.encode "2") true)).2 := by
  refine Update.interrupted_bind.2 (.inl ?_)
  rw [append]
  refine Update.interrupted_bind.2 (.inr ⟨letters, letters, Disk.lettered, rfl, ?_⟩)
  rw [if_neg (by decide)]
  exact Update.interrupted_bind.2 (.inl (Update.interrupted_liftM.2 (Action.interrupted_end _ _)))

theorem interruption_leaves_old_or_new_sample :
    let staged :=
      (Disk.empty.perform (Table.assemble ⟨Layout.staging ⟨"/"⟩ "notes"⟩ .notes true)).2
    let counted :=
      (Disk.lettered.perform (Replacement.replace ⟨"counter"⟩ (Utf8.encode "2") true)).2
    ((staged.step (.kind (Layout.ofTable ⟨"/"⟩ Definition.notes.name).directory)).1 = none ∨
        Table.OpensNew ⟨"/"⟩ .notes true staged.tree) ∧
      ∃ entries, RecordFile.letters.Reopens entries counted.tree ∧
        (entries = [.ok (1, ⟨["a"]⟩)] ∨ entries = [.ok (1, ⟨["a"]⟩), .ok (2, ⟨["b"]⟩)]) := by
  intro staged counted
  have absent : (Disk.empty.step
      (.kind (Layout.ofTable ⟨"/"⟩ Definition.notes.name).directory)).1 = none := by
    decide +kernel
  obtain ⟨entries, reopens, which⟩ :=
    interruption_leaves_old_or_new.2 RecordFile.sound_letters RecordFile.interrupted_append_letters
  exact ⟨interruption_leaves_old_or_new.1 FileTree.isSound_empty absent interrupted_create_notes,
    entries, reopens, which.imp_right fun ⟨_, fits⟩ => fits rfl⟩

end FlatDB
