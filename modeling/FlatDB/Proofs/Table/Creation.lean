/-
# A table or nothing

A table is made by calls most of which write, and any of these may fail.  Until the hidden
directory is moved all of them keep to it, so whatever fails by then has changed nothing
else.  The move is made or it is not.  What follows only reads, and it finds what was
written, so nothing fails any more once the table is in its place.

Three things are asked for.  What is reported not to have been moved has not been moved.
What is there can be found and read.  And the way to the storage root does not lead through
the hidden directory of the table, down into it and up again: making the table removes that
directory, and the root would be lost with it.
-/

import FlatDB.Proofs.Table.Confinement

namespace FlatDB

open FileTree

/-- A tolerance of a file system in which all that is there is found and can be read. -/
structure Tolerance.Legible (F : Tolerance) : Prop where
  kinds : ∀ path m, ¬ F (.kind path) m
  reads : ∀ path m, ¬ F (.read path) m

variable {F : Tolerance} {disk disk' d₁ : Disk} {root : Path} {r : Place} {d : Definition}
  {sync : Bool}

/-! ## Opening without mishaps -/

theorem Tolerance.Legible.steady_kind (h : F.Legible) (path : Path) (disk : Disk) :
    (Action.kind path).Steady F disk :=
  .ask (h.kinds path) disk

theorem Tolerance.Legible.steady_ask_read (h : F.Legible) (path : Path) (disk : Disk) :
    (Action.ask (.read path)).Steady F disk :=
  .ask (h.reads path) disk

theorem RecordFile.steady_load (legible : F.Legible) (table : String) (data counter : Path)
    (arity : Nat) (sync : Bool) (disk : Disk) :
    (load table data counter arity sync).Steady F disk := by
  have records (s : RecordFile) (disk : Disk) : s.records.Steady F disk :=
    .bind (.bind (.bind (legible.steady_ask_read _ _) fun _ _ _ => .ofReply _ _)
      fun _ _ _ => .pure _ _) fun _ _ _ => .ofResult _ _
  have loadCounter (s : RecordFile) (disk : Disk) : s.loadCounter.Steady F disk := by
    apply Action.Steady.bind (legible.steady_ask_read _ _)
    intro reply disk' _
    split
    · exact .bind (.ofReply _ _) fun _ _ _ => .ofResult _ _
    · exact .bind (records s _) fun _ _ _ => .pure _ _
    · exact .throw _ _
  apply Action.Steady.bind (legible.steady_kind data disk)
  intro kind disk' _
  split
  · exact .throw _ _
  · exact .bind (loadCounter _ _) fun _ _ _ => .pure _ _

theorem Table.steady_readHeader (legible : F.Legible) (layout : Layout) (name : String)
    (disk : Disk) : (readHeader layout name).Steady F disk := by
  apply Action.Steady.bind (legible.steady_ask_read _ _)
  intro reply disk' _
  cases reply with
  | ok source => exact .ofResult _ _
  | error fault => exact .throw _ _

theorem TableIndexes.steady_readList (legible : F.Legible) (x : TableIndexes) (disk : Disk) :
    x.readList.Steady F disk := by
  apply Action.Steady.bind (legible.steady_ask_read _ _)
  intro reply disk' _
  split
  · exact .bind (.ofReply _ _) fun _ _ _ => .pure _ _
  · exact .pure _ _
  · exact .throw _ _

/-- A table without indexes is opened by reading alone, and this does not fail. -/
theorem FileTree.Houses.steady_load {table : String} {f : TableFiles}
    (h : disk.tree.Houses root r table f) (plain : f.list = none) (legible : F.Legible) :
    (Table.load root table sync).Steady F disk := by
  have opens (definition : Definition) (records : RecordFile) :
      (TableIndexes.load definition (Layout.ofTable root table) records sync).Steady F disk := by
    apply Action.Steady.bind (TableIndexes.steady_readList legible _ _)
    intro list disk' read
    obtain ⟨same, -⟩ := (h.runs_readList_of_none plain _ rfl).of_perform read
    cases same
    exact .pure _ _
  apply Action.Steady.bind (.ofResult _ _)
  intro _ disk' checked
  cases (Action.OnlyReads.ofResult _).eq_of_perform checked
  apply Action.Steady.bind (legible.steady_kind _ _)
  intro kind disk' asked
  cases (Action.OnlyReads.kind _).eq_of_perform asked
  split
  · exact .throw _ _
  apply Action.Steady.bind (Table.steady_readHeader legible _ _ _)
  intro definition disk' read
  cases (Table.onlyReads_readHeader _ _).eq_of_perform read
  apply Action.Steady.bind (RecordFile.steady_load legible _ _ _ _ _ _)
  intro records disk' loaded
  cases (RecordFile.onlyReads_load _ _ _ _ _).eq_of_perform loaded
  exact .bind (opens _ _) fun _ _ _ => .pure _ _

/-! ## What making a table comes to -/

/-- Whether an open table is one without records and indexes. -/
structure Table.IsNew (d : Definition) (disk : Disk) (t : Table) : Prop where
  definition : t.definition = d
  lastId : t.records.lastId = 0
  size : disk.perform t.size = (.ok 0, disk)
  scan : disk.perform t.scan = (.ok [], disk)
  indexes : t.indexes.indexes = []

/-- Whether a table can be made in the directory that a path leads to: nothing has its name,
and what has the name of the hidden directory is one, which is not on the way. -/
structure FileTree.Accepts (t : FileTree) (root : Path) (r : Place) (d : Definition) : Prop where
  valid : Identifier.isValid d.name = true
  leads : t.Leads root r
  room : root.RoomFor d.name
  free : t.at? (d.name :: r) = none
  leftover : t.at? (stagingName d.name :: r) = none ∨
    t.at? (stagingName d.name :: r) = some .directory ∧
      (t.prune (stagingName d.name :: r)).Leads root r

/-- What making a table comes to: a table or nothing. -/
structure Table.Creates (root : Path) (d : Definition) (disk : Disk) (x : Except Error Table)
    (disk' : Disk) : Prop where
  /-- Without a storage root nothing is done. -/
  missing : (∀ r, ¬ disk.tree.Leads root r) → (∃ e, x = .error e) ∧ disk' = disk
  /-- If it fails, everything but the hidden directory is what it was, as long as that is not
  on the way to the root. -/
  failed : ∀ e, x = .error e → ∀ r, disk.tree.Leads root r →
    (disk.tree.prune (stagingName d.name :: r)).Leads root r →
      SameOutside (stagingName d.name :: r) disk.tree disk'.tree
  /-- If it does not, the table could be made, and it is there and is opened. -/
  made : ∀ t, x = .ok t → ∃ r, disk.tree.Accepts root r d ∧ disk.tree.Gains root r d disk'.tree ∧
    t.IsNew d disk'

namespace Table

theorem Creates.refused (root : Path) (d : Definition) (disk : Disk) (e : Error) :
    Creates root d disk (.error e) disk where
  missing := fun _ => ⟨⟨e, rfl⟩, rfl⟩
  failed := fun _ _ _ _ _ => .refl _ _
  made := nofun

theorem Creates.error (leads : disk.tree.Leads root r) {e : Error}
    (same : (disk.tree.prune (stagingName d.name :: r)).Leads root r →
      SameOutside (stagingName d.name :: r) disk.tree disk'.tree) :
    Creates root d disk (.error e) disk' where
  missing := fun lost => absurd leads (lost r)
  failed := fun _ _ r' leads' around => by
    obtain rfl : r = r' := Except.ok.inj (leads.place.symm.trans leads'.place)
    exact same around
  made := nofun

/-- A new table is opened as one. -/
theorem Creates.ok (accepts : disk.tree.Accepts root r d)
    (gains : disk.tree.Gains root r d disk'.tree) :
    Creates root d disk (.ok ((Contents.new d).handle root sync)) disk' where
  missing := fun lost => absurd accepts.leads (lost r)
  failed := nofun
  made := fun t same => by
    obtain rfl := Except.ok.inj same
    have read := (gains.houses accepts.valid).runs_read_data
    refine ⟨r, accepts, gains, rfl, rfl, ?_, ?_, rfl⟩
    · apply Action.OnlyReads.perform_of_runs (.bind (.read _) fun _ => .ofResult _)
      exact .bind read (.ofResult _ _)
    · apply Action.OnlyReads.perform_of_runs (RecordFile.onlyReads_scan _)
      exact .bind read (.pure _ _)

end Table

/-! ## The hidden directory -/

namespace FileTree

variable {t u : FileTree} {name : String} {own : List Handle}

/-- Names that never go up lead from a place to itself or to places below. -/
theorem suffix_of_walk {here q : Place} {names : List String} (down : ".." ∉ names)
    (h : t.walk here names = .ok q) : here <:+ q := by
  induction names generalizing here with
  | nil =>
      cases h
      exact List.suffix_rfl
  | cons first rest ih =>
      have rest' : ".." ∉ rest := fun mem => down (List.mem_cons_of_mem first mem)
      rcases walk_cons_ok h with ⟨-, h⟩ | ⟨rfl, -⟩ | ⟨-, -, -, ⟨-, rfl⟩ | ⟨-, h⟩⟩
      · exact ih rest' h
      · exact absurd List.mem_cons_self down
      · exact List.suffix_cons first here
      · exact (List.suffix_cons first here).trans (ih rest' h)

/-- The way to a directory that never goes up leads through nothing that is in it. -/
theorem Leads.prune (h : t.Leads root r) (down : ".." ∉ root.names) (name : String) :
    (t.prune (name :: r)).Leads root r := by
  have stays {q : Place} (onTheWay : q <:+ r) (there : t.at? q = some .directory) :
      (t.prune (name :: r)).at? q = some .directory := by
    by_cases outermost : q = []
    · rw [outermost]
      rfl
    · have short := onTheWay.length_le
      rw [at?_prune t _ outermost, below?_of_length_lt (by simp; omega), there]
      rfl
  have walked {here : Place} {names : List String} (down : ".." ∉ names)
      (walked : t.walk here names = .ok r) : (t.prune (name :: r)).walk here names = .ok r := by
    induction names generalizing here with
    | nil => exact walked
    | cons first rest ih =>
        have rest' : ".." ∉ rest := fun mem => down (List.mem_cons_of_mem first mem)
        rcases walk_cons_cases h.directory walked with
          ⟨rfl, walked⟩ | ⟨rfl, -⟩ | ⟨notDot, notDots, short, there, walked⟩
        · rw [walk_dot, ih rest' walked]
        · exact absurd List.mem_cons_self down
        · rw [walk_down notDot notDots short (stays (suffix_of_walk rest' walked) there),
            ih rest' walked]
  refine ⟨?_, stays (List.suffix_refl r) h.directory⟩
  rw [FileTree.place, h.refusal?_eq_none]
  exact walked down h.walk

theorem not_under_of_below? {p : Place} (away : below? (name :: r) p = none) :
    ¬ Under r (· = name) p := by
  rintro ⟨_, rfl, inner, rfl⟩
  rw [below?_append] at away
  cases away

theorem SameBut.sameOutside (h : SameBut (Under r (· = name)) t u) :
    SameOutside (name :: r) t u :=
  ⟨h.here, fun p away => h.outside p (not_under_of_below? away)⟩

/-- What is done in a directory that is not on the way to the one it is in stays there. -/
theorem Leads.fence_around (h : t.Leads root r) (step : Path.IsStep name)
    (around : (t.prune (name :: r)).Leads root r) :
    t.Fence (fun path => ∃ other, other = name ∧ path.IsIn (root.join other))
      (Under r (· = name)) := by
  apply h.fence
  · rintro _ rfl
    exact step
  · intro u same
    apply around.mono
    refine ⟨same.here, fun p directory => ?_⟩
    by_cases outermost : p = []
    · rw [outermost]
      rfl
    · rw [at?_prune t _ outermost] at directory
      cases below : below? (name :: r) p with
      | none =>
          rw [below] at directory
          exact (same.outside p (not_under_of_below? below)).trans directory
      | some inner =>
          rw [below] at directory
          cases directory

/-- A table that is found was not moved away from under the way to the root. -/
theorem Gains.around (h : t.Gains root r d disk'.tree) (leads : t.Leads root r)
    (valid : Identifier.isValid d.name = true) :
    (t.prune (stagingName d.name :: r)).Leads root r := by
  by_contra detour
  have gone := leads.kind_eq_none_of_detour (isStep_of_isValid valid) detour h.here h.hidden
  have houses := h.houses valid
  have found := houses.leads.step_kind_join houses.step
  have directory : disk'.tree.at? (d.name :: r) = some .directory := h.holds []
  rw [if_pos (houses.room.admits houses.step houses.leads.ne_nil), directory] at found
  cases found.symm.trans gone

/-- Whether what has become of a tree has been done in a directory only, as far as that is not
on the way to the one it is in. -/
def KeptIn (t : FileTree) (root : Path) (r : Place) (name : String) (d : Disk) : Prop :=
  (t.prune (name :: r)).Leads root r → ∃ own, t.Fenced (Under r (· = name)) own d

theorem keptIn_self (root : Path) (r : Place) (name : String) (d : Disk) :
    d.tree.KeptIn root r name d :=
  fun _ => ⟨[], fenced_self _ d⟩

/-- An action that keeps to the paths of a directory keeps to the directory. -/
theorem Leads.ensures_keptIn {α : Type} {a : Action α} {P : α → Prop} (h : t.Leads root r)
    (step : Path.IsStep name) (kept : t.KeptIn root r name d₁)
    (keeps : a.KeepsTo (fun path => ∃ other, other = name ∧ path.IsIn (root.join other)) P) :
    a.Ensures F (fun _ d' => t.KeptIn root r name d') d₁ := by
  by_cases around : (t.prune (name :: r)).Leads root r
  · obtain ⟨own, fenced⟩ := kept around
    apply ((h.fence_around step around).ensures fenced (keeps own d₁)).mono
    rintro _ _ ⟨own', fenced', -⟩ -
    exact ⟨own', fenced'⟩
  · apply (Program.ensures_true (ExceptT.run a) d₁).mono
    exact fun _ _ _ around' => absurd around' around

theorem Leads.ensures_removeTree (h : t.Leads root r) (step : Path.IsStep name)
    (kept : t.KeptIn root r name d₁) :
    (Action.removeTree (root.join name)).Ensures F (fun _ d' => t.KeptIn root r name d') d₁ :=
  h.ensures_keptIn step kept
    (.call (c := .removeTree (root.join name)) fun _ => ⟨name, rfl, Path.isIn_self _⟩)

/-- Until a table is moved to its place all that is done is done in the hidden directory. -/
theorem Leads.ensures_emplace (h : t.Leads root r) (whole : NoLateMoves F)
    (valid : Identifier.isValid d.name = true) (kept : t.KeptIn root r (stagingName d.name) d₁) :
    (Table.emplace root d sync).Ensures F
      (fun x d' => ∀ e, x = .error e → t.KeptIn root r (stagingName d.name) d') d₁ := by
  have step := isStep_stagingName (isStep_of_isValid valid)
  have hidden := Layout.inside_of_isIn step h.ne_nil fun path isIn =>
    (⟨_, rfl, isIn⟩ : ∃ other, other = stagingName d.name ∧ path.IsIn (root.join other))
  apply Action.Ensures.bind (h.ensures_keptIn step kept (Table.keepsTo_assemble hidden d sync))
  · intro _ d₂ kept'
    apply (Action.ensures_rename whole _ _ d₂).mono
    intro x d₃ same e failed
    rw [same e failed]
    exact kept'
  · exact fun _ _ kept' _ _ => kept'

end FileTree

namespace Table

/-- A disk on which the name of the hidden directory has been freed. -/
structure Freed (root : Path) (r : Place) (d : Definition) (disk d₁ : Disk) : Prop where
  freed : (disk.step (.kind (Layout.staging root d.name))).1 = none ∧ d₁ = disk ∨
    disk.perform (Action.removeTree (Layout.staging root d.name)) = (.ok (), d₁)
  kept : disk.tree.KeptIn root r (stagingName d.name) d₁

/-- If a table was made, it could be made. -/
theorem Freed.accepts (h : Freed root r d disk d₁) (leads : disk.tree.Leads root r)
    (valid : Identifier.isValid d.name = true) (free : disk.tree.at? (d.name :: r) = none)
    (gains : disk.tree.Gains root r d disk'.tree) : disk.tree.Accepts root r d := by
  have hs := isStep_stagingName (isStep_of_isValid valid)
  refine ⟨valid, leads, gains.room, free, ?_⟩
  rcases h.freed with ⟨absent, -⟩ | removed
  · have admits : root.Admits (stagingName d.name) :=
      (gains.room.2.mono (by decide) : (root.join (stagingName d.name)).Admits "indexes").outer hs
        leads.ne_nil gains.room.1
    have found := leads.step_kind_join hs
    rw [if_pos admits] at found
    exact .inl (Option.map_eq_none_iff.1 (found.symm.trans absent))
  · exact .inr ⟨(leads.directory_of_removeTree hs removed).1, gains.around leads valid⟩

/-- If something fails that keeps to the hidden directory, nothing is made. -/
theorem Creates.error_of_keptIn (leads : disk.tree.Leads root r)
    (kept : disk.tree.KeptIn root r (stagingName d.name) disk') (e : Error) :
    Creates root d disk (.error e) disk' :=
  .error leads fun around => (kept around).elim fun _ fenced => fenced.sameOutside

/-- What is moved to a path is where there is room for it. -/
theorem Emplaces.admits {d₂ d₃ : Disk} (h : Emplaces root d sync d₁ d₂ d₃)
    (valid : Identifier.isValid d.name = true) (ne : root.text.toList ≠ []) :
    root.Admits d.name := by
  obtain ⟨moved, -⟩ := Disk.step_of_perform
    (c := .rename (Layout.staging root d.name) (Layout.ofTable root d.name).directory)
    (f := fun reply => reply) h.moved
  rw [Disk.step_rename] at moved
  rcases d₂.rename_cases (Layout.staging root d.name) (Layout.ofTable root d.name).directory with
    ⟨_, refused⟩ | ⟨_, _, -, target, -⟩
  · rw [refused] at moved
    cases moved
  · exact admits_of_place (isStep_of_isValid valid) ne target

/-- A table that was moved to its place is opened, or nothing is found there. -/
theorem Freed.ensures_load (h : Freed root r d disk d₁) (legible : F.Legible)
    (leads : disk.tree.Leads root r) (sound : disk.tree.IsSound)
    (valid : Identifier.isValid d.name = true) (read : Header.reread d = .ok d)
    (absent : (disk.step (.kind (Layout.ofTable root d.name).directory)).1 = none) {d₃ : Disk}
    (done : d₁.perform (emplace root d sync) = (.ok (), d₃)) :
    (load root d.name sync).Ensures F (Creates root d disk) d₃ := by
  obtain ⟨d₂, emplaces⟩ := Emplaces.of_perform done
  have found := leads.step_kind_join (isStep_of_isValid valid)
  rw [if_pos (emplaces.admits valid leads.ne_nil)] at found
  have free := Option.map_eq_none_iff.1 (found.symm.trans absent)
  rcases leads.gains_of_emplaces sound valid free h.freed emplaces with gains | ⟨detour, gone⟩
  · have houses := gains.houses valid
    apply (houses.steady_load rfl legible).mono
    intro x d' loaded
    obtain ⟨rfl, same⟩ := (houses.runs_load_new valid read sync).of_perform loaded
    rw [← same] at gains
    exact .ok (h.accepts leads valid free gains) gains
  · have lost : Creates root d disk (.error (.tableNotFound d.name)) d₃ :=
      .error leads fun around => absurd around detour
    unfold load
    rw [Identifier.check_eq_ok.2 valid]
    apply Action.Ensures.call_kind
    · rw [gone]
      exact .throw lost
    · exact fun _ _ => .throw lost

/-- Once the name of the hidden directory has been freed, what is made is a table or nothing. -/
theorem Freed.ensures_emplace_load (h : Freed root r d disk d₁) (legible : F.Legible)
    (whole : NoLateMoves F) (leads : disk.tree.Leads root r) (sound : disk.tree.IsSound)
    (valid : Identifier.isValid d.name = true) (read : Header.reread d = .ok d)
    (absent : (disk.step (.kind (Layout.ofTable root d.name).directory)).1 = none) :
    ((emplace root d sync).orElse (Action.removeTree (Layout.staging root d.name)) >>= fun _ =>
      load root d.name sync).Ensures F (Creates root d disk) d₁ := by
  have emplaced : ((emplace root d sync).orElse
      (Action.removeTree (Layout.staging root d.name))).Ensures F (fun x d' =>
        (∀ v, x = .ok v → d₁.perform (emplace root d sync) = (.ok v, d')) ∧
          ∀ e, x = .error e → Creates root d disk (.error e) d') d₁ := by
    apply ((strict_emplace root d sync F d₁).and (leads.ensures_emplace whole valid h.kept)).orElse
    · exact fun v d' done => ⟨done.1, nofun⟩
    · rintro e d' ⟨-, failed⟩
      have step := isStep_stagingName (isStep_of_isValid valid)
      apply (leads.ensures_removeTree step (failed e rfl)).mono
      exact fun _ d'' kept => ⟨nofun, fun _ _ => .error_of_keptIn leads kept _⟩
  apply Action.Ensures.bind emplaced
  · rintro _ d₃ ⟨done, -⟩
    exact h.ensures_load legible leads sound valid read absent (done () rfl)
  · rintro e d' ⟨-, failed⟩
    exact failed e rfl

/-- What making a table comes to, whatever tolerated mishaps befall it. -/
theorem ensures_create (legible : F.Legible) (whole : NoLateMoves F) (sound : disk.tree.IsSound)
    (read : Identifier.isValid d.name = true → Header.reread d = .ok d) (root : Path)
    (sync : Bool) : (create root d sync).Ensures F (Creates root d disk) disk := by
  unfold create
  cases valid : Identifier.isValid d.name with
  | false =>
      rw [Identifier.check, if_neg (by simp [valid])]
      exact .throw (.refused root d disk _)
  | true =>
      replace read := read valid
      rw [Identifier.check_eq_ok.2 valid]
      have refused (e : Error) : (throw e : Action Table).Ensures F (Creates root d disk) disk :=
        .throw (.refused root d disk e)
      apply Action.Ensures.call_kind _ fun m befalls => absurd befalls (legible.kinds _ m)
      dsimp only
      split
      · exact refused _
      next directory =>
      obtain ⟨r, leads⟩ := Disk.exists_leads_of_kind (not_not.1 directory)
      apply Action.Ensures.call_kind _ fun m befalls => absurd befalls (legible.kinds _ m)
      split
      · exact refused _
      next absent =>
      have absent := Option.not_isSome_iff_eq_none.1 absent
      apply Action.Ensures.call_kind _ fun m befalls => absurd befalls (legible.kinds _ m)
      have kept := keptIn_self root r (stagingName d.name) disk
      split
      · have removes : (Action.removeTree (Layout.staging root d.name)).Strict F :=
          .call (c := .removeTree (Layout.staging root d.name)) (f := fun reply => reply)
            fun fault => ⟨fault, rfl⟩
        have step := isStep_stagingName (isStep_of_isValid valid)
        apply Action.Ensures.bind ((removes disk).and (leads.ensures_removeTree step kept))
        · rintro _ d₁ ⟨removed, kept'⟩
          have freed : Freed root r d disk d₁ := ⟨.inr (removed _ rfl), kept'⟩
          exact freed.ensures_emplace_load legible whole leads sound valid read absent
        · rintro e _ ⟨-, kept'⟩
          exact .error_of_keptIn leads kept' e
      · next vacant =>
        have freed : Freed root r d disk disk :=
          ⟨.inl ⟨Option.not_isSome_iff_eq_none.1 vacant, rfl⟩, kept⟩
        exact freed.ensures_emplace_load legible whole leads sound valid read absent

/-- Where a table can be made it is made if everything goes well. -/
theorem runs_create_of_accepts (h : disk.tree.Accepts root r d) (sound : disk.tree.IsSound)
    (read : Header.reread d = .ok d) (sync : Bool) :
    ∃ t t', (create root d sync).Runs disk.tree (.ok t) t' := by
  have hs := isStep_stagingName (isStep_of_isValid h.valid)
  have admits : root.Admits (stagingName d.name) :=
    (h.room.2.mono (by decide) : (root.join (stagingName d.name)).Admits "indexes").outer hs
      h.leads.ne_nil h.room.1
  have vacant := sound.vacant h.free
  have emplaced {t : FileTree} (leads : t.Leads root r) (hidden : t.Vacant (stagingName d.name :: r))
      (free : t.Vacant (d.name :: r)) : ∃ t', (do
        Action.orElse (do
          assemble ⟨root.join (stagingName d.name)⟩ d sync
          Action.rename (root.join (stagingName d.name)) (root.join d.name))
          (Action.removeTree (root.join (stagingName d.name)))
        load root d.name sync).Runs t (.ok ((Contents.new d).handle root sync)) t' := by
    obtain ⟨_, t', assembled, moved, becomes⟩ :=
      leads.runs_assemble_move h.valid h.room hidden free sync
    exact ⟨t', .bind (.orElse _ (.bind assembled moved))
      (becomes.houses.runs_load_new h.valid read sync)⟩
  rcases h.leftover with free | ⟨directory, around⟩
  · obtain ⟨t', done⟩ := emplaced h.leads (sound.vacant free) vacant
    exact ⟨_, t', h.leads.runs_create_of_free h.valid free h.free done⟩
  · obtain ⟨t', done⟩ := emplaced around (vacant_prune _ (List.cons_ne_nil _ _)) fun inner =>
      at?_prune_of_free (vacant inner) _
    exact ⟨_, t', h.leads.runs_create_of_leftover h.valid admits directory h.free done⟩

/-- Whatever is in and beside the storage root, and whichever calls fail that write: making a
declared table fails and leaves everything as it was but for the hidden directory, or the
table is there, complete, empty and open, and nothing else has changed.  If no call fails,
the table is made whenever nothing is in its way.  Oversized declarations are none that can be
made: the number of columns and the length of a text are machine words. -/
theorem create_all_or_nothing {table : String} {columns : List Declaration} {schema : Schema}
    {outlooks : List Outlook} (legible : F.Legible) (whole : NoLateMoves F)
    (within : ∀ o ∈ outlooks, o.Within F) (sound : disk.tree.IsSound)
    (declared : Schema.ofDeclarations? table columns = .ok schema)
    (small : ¬ Declaration.Oversized columns) (name : String) (root : Path) (sync : Bool) :
    let d := Definition.ofSchema name schema
    let done := disk.performUnder outlooks (create root d sync)
    Creates root d disk done.1 done.2 ∧
      ((∃ t, (disk.perform (create root d sync)).1 = .ok t) ↔ ∃ r, disk.tree.Accepts root r d) := by
  intro d done
  -- The name plays no part in whether the numbers of a definition fit.
  have fits : Header.Fits (.ofSchema table schema) := (Header.fits_iff_not_oversized declared).2 small
  have read (valid : Identifier.isValid d.name = true) : Header.reread d = .ok d :=
    Header.reread_of_fits ⟨valid, .of_ofDeclarations? declared⟩ fits
  have ensured := ensures_create legible whole sound read root sync
  refine ⟨ensured.performUnder within, ?_, ?_⟩
  · rintro ⟨t, made⟩
    have allWell : ∀ o ∈ ([] : List Outlook), o.Within F := nofun
    have well := ensured.performUnder allWell
    rw [Disk.performUnder_nil] at well
    obtain ⟨r, accepts, -⟩ := well.made t made
    exact ⟨r, accepts⟩
  · rintro ⟨r, accepts⟩
    obtain ⟨t, t', runs⟩ := runs_create_of_accepts accepts sound (read accepts.valid) sync
    exact ⟨t, (runs.of_perform rfl).1⟩

/-- A disk on which an earlier attempt to make a table has left something. -/
def attempted : Disk :=
  ⟨(FileTree.empty.put [".notes.creating"] .directory).put ["counter", ".notes.creating"]
    (.file (Utf8.encode "0")), []⟩

/-- Nothing can be moved. -/
def immovable : Outlook
  | .rename _ _ => some ⟨.other "Input/output error", .nothing⟩
  | _ => none

/-- The table is made nevertheless, unless it cannot be moved to its place. -/
theorem create_all_or_nothing_attempted :
    (∃ left, attempted.performUnder (List.replicate 20 immovable) (create ⟨"/"⟩ .notes true) =
        (.error (.storage (.other "Input/output error")), left) ∧
      SameOutside [stagingName "notes"] attempted.tree left.tree) ∧
    ∃ t left, attempted.perform (create ⟨"/"⟩ .notes true) = (.ok t, left) ∧
      t.IsNew .notes left ∧ attempted.tree.Gains ⟨"/"⟩ [] .notes left.tree := by
  have legible : Tolerance.Legible fun c m => immovable c = some m := by
    constructor <;>
    · intro path m befalls
      cases befalls
  have whole : NoLateMoves fun c m => immovable c = some m := by
    rintro source target m ⟨⟩ late
    cases late
  have within : ∀ o ∈ List.replicate 20 immovable, o.Within fun c m => immovable c = some m := by
    intro o mem c m befalls
    rwa [List.eq_of_mem_replicate mem] at befalls
  have sound : attempted.tree.IsSound :=
    (FileTree.isSound_empty.put rfl (by decide +kernel) _).put (by decide +kernel)
      (by decide +kernel) _
  have declared : Schema.ofDeclarations? "notes" [⟨"n", .int, false⟩] =
      .ok Definition.notes.schema := by
    decide +kernel
  have small : ¬ Declaration.Oversized [⟨"n", .int, false⟩] := by
    simp [Declaration.Oversized, ColumnType.length, UInt64.size]
  have leads : attempted.tree.Leads ⟨"/"⟩ [] := ⟨by decide +kernel, rfl⟩
  have around : (attempted.tree.prune [stagingName "notes"]).Leads ⟨"/"⟩ [] :=
    leads.prune (by decide +kernel) _
  have accepts : attempted.tree.Accepts ⟨"/"⟩ [] .notes :=
    ⟨by decide +kernel, leads, by decide +kernel, by decide +kernel,
      .inr ⟨by decide +kernel, around⟩⟩
  have notes : Definition.ofSchema "notes" Definition.notes.schema = .notes := rfl
  obtain ⟨refuses, possible⟩ :=
    create_all_or_nothing legible whole within sound declared small "notes" ⟨"/"⟩ true
  have allWell : ∀ o ∈ ([] : List Outlook), o.Within fun c m => immovable c = some m := by
    intro o mem
    cases mem
  obtain ⟨makes, -⟩ :=
    create_all_or_nothing legible whole allWell sound declared small "notes" ⟨"/"⟩ true
  rw [notes] at refuses makes possible
  rw [Disk.performUnder_nil] at makes
  constructor
  · have failed : (attempted.performUnder (List.replicate 20 immovable)
        (create ⟨"/"⟩ .notes true)).1 = .error (.storage (.other "Input/output error")) := by
      decide +kernel
    generalize attempted.performUnder _ _ = done at failed refuses ⊢
    obtain ⟨x, left⟩ := done
    obtain rfl := failed
    exact ⟨left, rfl, refuses.failed _ rfl [] leads around⟩
  · obtain ⟨t, made⟩ := possible.2 ⟨[], accepts⟩
    generalize attempted.perform _ = done at made makes ⊢
    obtain ⟨x, left⟩ := done
    obtain rfl := made
    obtain ⟨r, accepts', gains, new⟩ := makes.made t rfl
    obtain rfl : [] = r := Except.ok.inj (leads.place.symm.trans accepts'.leads.place)
    exact ⟨t, left, rfl, new, gains⟩

end Table

end FlatDB
