/-
# Making and dropping tables

A table is assembled in a hidden directory, file by file, and moved to its place
when it is complete.  Where there is room for all of its paths this succeeds, and
the tree then stores a new table; otherwise some file cannot be made, and what
was assembled until then is removed again.  Dropping a table leaves nothing of it.
-/

import FlatDB.Proofs.Disk.Directories
import FlatDB.Proofs.Table.Opening

namespace FlatDB

namespace FileTree

/-- Whether two trees have the same at every place. -/
structure Same (t t' : FileTree) : Prop where
  here : t'.here = t.here
  places : ∀ place, t'.at? place = t.at? place

theorem Same.refl (t : FileTree) : t.Same t :=
  ⟨rfl, fun _ => rfl⟩

/-- What there can be in a directory in which a table is being assembled: itself, and
nothing in what is not the directory of indexes. -/
structure Partial (entries : Place → Option Entry) : Prop where
  directory : entries [] = some .directory
  shallow : ∀ name, name ≠ "indexes" → ∀ inner, inner ≠ [] → entries (inner ++ [name]) = none

/-- A tree in which a table is being assembled in a directory, with these entries so far. -/
structure Assembling (t : FileTree) (root : Path) (r : Place) (staging : String)
    (entries : Place → Option Entry) (t' : FileTree) : Prop where
  leads : t'.Leads root r
  same : SameOutside (staging :: r) t t'
  holds : ∀ inner, t'.at? (inner ++ staging :: r) = entries inner
  shape : Partial entries

/-- The entries of a table's directory before there are any files. -/
def noFiles : Place → Option Entry
  | [] => some .directory
  | ["indexes"] => some .directory
  | _ => none

theorem partial_noFiles : Partial noFiles := by
  refine ⟨rfl, fun name other inner ne => ?_⟩
  cases inner with
  | nil => exact absurd rfl ne
  | cons a rest =>
      cases rest with
      | nil => simp [noFiles]
      | cons b rest => simp [noFiles]

/-- The same entries and one more file. -/
def withFile (entries : Place → Option Entry) (name : String) (content : Bytes) :
    Place → Option Entry :=
  fun p => if p = [name] then some (.file content) else entries p

theorem Partial.withFile {entries : Place → Option Entry} (h : Partial entries) (name : String)
    (content : Bytes) : Partial (withFile entries name content) := by
  refine ⟨?_, fun other notIndexes inner ne => ?_⟩
  · exact h.directory
  · have deeper : inner ++ [other] ≠ [name] := by
      intro e
      have length := congrArg List.length e
      rw [List.length_append, List.length_singleton, List.length_singleton] at length
      exact ne (List.eq_nil_of_length_eq_zero (by omega))
    rw [FileTree.withFile, if_neg deeper]
    exact h.shallow other notIndexes inner ne

namespace Assembling

variable {t t' : FileTree} {root : Path} {r : Place} {staging : String}
  {entries : Place → Option Entry}

/-- One more file. -/
theorem put (h : t.Assembling root r staging entries t') (name : String)
    (free : entries [name] = none) (content : Bytes) :
    t.Assembling root r staging (withFile entries name content)
      (t'.put (name :: staging :: r) (.file content)) := by
  have vacant : t'.at? (name :: staging :: r) ≠ some .directory := by
    rw [show t'.at? (name :: staging :: r) = _ from h.holds [name], free]
    simp
  refine ⟨h.leads.mono (keeps_put (by simp) vacant _),
    h.same.trans (sameOutside_put t' (by simp) [name] _), fun inner => ?_, h.shape.withFile _ _⟩
  rw [at?_put t' (by simp), withFile]
  by_cases here : inner = [name]
  · rw [if_pos here, if_pos (by rw [here]; rfl)]
  · have elsewhere : inner ++ staging :: r ≠ name :: staging :: r := fun e =>
      here (List.append_cancel_right (show inner ++ staging :: r = [name] ++ staging :: r from e))
    rw [if_neg here, if_neg elsewhere, h.holds inner]

/-- The directory is there. -/
theorem leads_staging (h : t.Assembling root r staging entries t') (step : Path.IsStep staging)
    (admits : root.Admits staging) : t'.Leads (root.join staging) (staging :: r) :=
  h.leads.join step admits ((h.holds []).trans h.shape.directory)

theorem childless (h : t.Assembling root r staging entries t') {name : String}
    (other : name ≠ "indexes") : t'.Childless (name :: staging :: r) := by
  intro inner ne
  have found := h.holds (inner ++ [name])
  rwa [h.shape.shallow name other inner ne, List.append_assoc] at found

/-- What was assembled is removed again, and then the tree is as it was. -/
theorem runs_removeTree (h : t.Assembling root r staging entries t') (step : Path.IsStep staging)
    (admits : root.Admits staging) (free : ∀ inner, t.at? (inner ++ staging :: r) = none) :
    ∃ t'', (Action.removeTree (root.join staging)).Runs t' (.ok ()) t'' ∧ t.Same t'' := by
  refine ⟨_, h.leads.runs_removeTree step admits ((h.holds []).trans h.shape.directory),
    h.same.here, fun p => ?_⟩
  by_cases outermost : p = []
  · rw [outermost]
    rfl
  · rw [at?_prune t' _ outermost]
    cases below : below? (staging :: r) p with
    | none => exact h.same.outside p below
    | some rest =>
        rw [below?_eq_some_iff.1 below, free rest]
        rfl

end Assembling

/-- A new directory with one for indexes in it. -/
theorem Leads.assembling {t : FileTree} {root : Path} {r : Place} (h : t.Leads root r)
    {staging : String} (free : ∀ inner, t.at? (inner ++ staging :: r) = none) :
    t.Assembling root r staging noFiles
      ((t.put (staging :: r) .directory).put ("indexes" :: staging :: r) .directory) := by
  refine ⟨(h.mono (keeps_put_directory (by simp))).mono (keeps_put_directory (by simp)),
    (sameOutside_put t (by simp) [] _).trans (sameOutside_put _ (by simp) ["indexes"] _),
    fun inner => ?_, partial_noFiles⟩
  rw [at?_put _ (by simp), at?_put t (by simp)]
  by_cases outer : inner = []
  · rw [outer]
    simp [noFiles]
  · by_cases within : inner = ["indexes"]
    · rw [within]
      simp [noFiles]
    · have notWithin : inner ++ staging :: r ≠ "indexes" :: staging :: r := fun e => within
        (List.append_cancel_right (show inner ++ staging :: r = ["indexes"] ++ staging :: r from e))
      have notOuter : inner ++ staging :: r ≠ staging :: r := fun e => outer
        (List.append_cancel_right (show inner ++ staging :: r = [] ++ staging :: r from e))
      rw [if_neg notWithin, if_neg notOuter, free inner]
      unfold noFiles
      split <;> simp_all

/-! ## Assembling a table -/

/-- The entries of a new table's directory, in the order they are made. -/
def newEntries (d : Definition) : Place → Option Entry :=
  withFile (withFile (withFile noFiles "metadata.dat" (Utf8.encode (Header.ofDef d)))
    "registers.sqlito" []) "reg_count.dat" (Utf8.encode "0")

/-- They are the files of a table without records and indexes. -/
theorem newEntries_eq (d : Definition) : newEntries d = (Contents.new d).files.at? := by
  funext p
  have counter : Numeral.ofUInt64 0 = "0" := by decide
  have header : (Contents.new d).files.header = Utf8.encode (Header.ofDef d) := rfl
  have data : (Contents.new d).files.data = [] := rfl
  have count : (Contents.new d).files.counter = Utf8.encode "0" := congrArg Utf8.encode counter
  have list : (Contents.new d).files.list = none := rfl
  have absent (file : String) :
      ((TableFiles.columnOf? file).bind (Contents.new d).files.index).map Entry.file = none := by
    cases TableFiles.columnOf? file <;> rfl
  unfold newEntries withFile
  by_cases atCounter : p = ["reg_count.dat"]
  · simp [atCounter, TableFiles.at?, count]
  by_cases atData : p = ["registers.sqlito"]
  · simp [atData, TableFiles.at?, data]
  by_cases atHeader : p = ["metadata.dat"]
  · simp [atHeader, TableFiles.at?, header]
  rw [if_neg atCounter, if_neg atData, if_neg atHeader]
  unfold TableFiles.at? noFiles
  rw [list]
  split
  · rfl
  · rfl
  · split
    case h_7 => exact (absent _).symm
    all_goals simp_all

variable {t t' : FileTree} {root : Path} {r : Place}

/-- The header is written if there is room for it. -/
theorem Assembling.runs_writeHeader {staging : String} {entries : Place → Option Entry}
    (h : t.Assembling root r staging entries t') (step : Path.IsStep staging)
    (admits : root.Admits staging) (room : (root.join staging).Admits "metadata.dat")
    (free : entries ["metadata.dat"] = none) (d : Definition) :
    (Table.writeHeader ((root.join staging).join "metadata.dat") d).Runs t' (.ok ())
      (t'.put ("metadata.dat" :: staging :: r) (.file (Utf8.encode (Header.ofDef d)))) := by
  refine (h.leads_staging step admits).runs_create_fill fileName_header.step room ?_ _ false
  rw [show t'.at? ("metadata.dat" :: staging :: r) = _ from h.holds ["metadata.dat"], free]
  simp

/-- The data file and the counter are made if there is room for preparing the counter. -/
theorem Assembling.runs_create_records {staging : String} {entries : Place → Option Entry}
    (h : t.Assembling root r staging entries t') (step : Path.IsStep staging)
    (admits : root.Admits staging) (room : (root.join staging).Admits (stagedName "reg_count.dat"))
    (freeData : entries ["registers.sqlito"] = none)
    (freeCounter : entries ["reg_count.dat"] = none)
    (freeStaged : entries [stagedName "reg_count.dat"] = none) (d : Definition) (sync : Bool) :
    ∃ file t'', (RecordFile.create d.name ((root.join staging).join "registers.sqlito")
        ((root.join staging).join "reg_count.dat") d.schema.arity sync).Runs t' (.ok file) t'' ∧
      t.Assembling root r staging (withFile (withFile entries "registers.sqlito" [])
        "reg_count.dat" (Utf8.encode "0")) t'' := by
  have roomData : (root.join staging).Admits "registers.sqlito" := room.mono (by decide)
  have vacant : t'.at? ("registers.sqlito" :: staging :: r) ≠ some .directory := by
    rw [show t'.at? ("registers.sqlito" :: staging :: r) = _ from h.holds ["registers.sqlito"],
      freeData]
    simp
  have withData := h.put "registers.sqlito" freeData []
  have counterFree : withFile entries "registers.sqlito" [] ["reg_count.dat"] = none := by
    rw [withFile, if_neg (by decide), freeCounter]
  have stagedFree : withFile entries "registers.sqlito" [] [stagedName "reg_count.dat"] = none := by
    rw [withFile, if_neg (by decide), freeStaged]
  have leads := withData.leads_staging step admits
  refine ⟨⟨d.name, (root.join staging).join "registers.sqlito",
    (root.join staging).join "reg_count.dat", d.schema.arity, 0, sync⟩, _, ?_,
    withData.put "reg_count.dat" counterFree (Utf8.encode "0")⟩
  rw [RecordFile.create]
  refine (h.leads_staging step admits).runs_create_bind fileName_data.step roomData vacant
    fun handle => ?_
  refine .bind (leads.runs_replace step h.leads.ne_nil fileName_counter.step room
    ((withData.holds [stagedName "reg_count.dat"]).trans stagedFree)
    (withData.childless (by decide)) ?_ (withData.childless (by decide)) _ sync) (.pure _ _)
  rw [show FileTree.at? _ ("reg_count.dat" :: staging :: r) = _ from
    withData.holds ["reg_count.dat"], counterFree]
  simp

/-- Without that room one of the two is refused. -/
theorem Assembling.runs_create_records_of_no_room {staging : String}
    {entries : Place → Option Entry}
    (h : t.Assembling root r staging entries t') (step : Path.IsStep staging)
    (admits : root.Admits staging)
    (full : ¬ (root.join staging).Admits (stagedName "reg_count.dat"))
    (freeData : entries ["registers.sqlito"] = none) (d : Definition) (sync : Bool) :
    ∃ t'' entries', (RecordFile.create d.name ((root.join staging).join "registers.sqlito")
        ((root.join staging).join "reg_count.dat") d.schema.arity sync).Runs t'
          (.error (.storage .nameTooLong)) t'' ∧
      t.Assembling root r staging entries' t'' := by
  rw [RecordFile.create]
  by_cases roomData : (root.join staging).Admits "registers.sqlito"
  · have vacant : t'.at? ("registers.sqlito" :: staging :: r) ≠ some .directory := by
      rw [show t'.at? ("registers.sqlito" :: staging :: r) = _ from h.holds ["registers.sqlito"],
        freeData]
      simp
    have withData := h.put "registers.sqlito" freeData []
    refine ⟨_, _, ?_, withData⟩
    refine (h.leads_staging step admits).runs_create_bind fileName_data.step roomData vacant
      fun handle => ?_
    exact .bind_error ((withData.leads_staging step admits).runs_replace_of_not_admits step
      h.leads.ne_nil fileName_counter.step full _ sync)
  · exact ⟨t', entries, .bind_error ((h.leads_staging step admits).runs_create_of_not_admits
      fileName_data.step roomData), h⟩

/-- Where there is room a new table is assembled completely. -/
theorem Leads.runs_assemble (h : t.Leads root r) {table : String} (step : Path.IsStep table)
    (room : root.RoomFor table)
    (free : ∀ inner, t.at? (inner ++ stagingName table :: r) = none) (d : Definition) (sync : Bool)
      :
    ∃ t', (Table.assemble ⟨root.join (stagingName table)⟩ d sync).Runs t (.ok ()) t' ∧
      t.Assembling root r (stagingName table) (newEntries d) t' := by
  have hs := isStep_stagingName step
  obtain ⟨short, roomCounter⟩ := room
  have roomIndexes : (root.join (stagingName table)).Admits "indexes" :=
    roomCounter.mono (by decide)
  have roomHeader : (root.join (stagingName table)).Admits "metadata.dat" :=
    roomCounter.mono (by decide)
  have admits : root.Admits (stagingName table) := roomIndexes.outer hs h.ne_nil short
  have made := h.runs_makeDirectories hs isStep_indexes short roomIndexes (free []) fun inner _ =>
    free inner
  have started := h.assembling free
  have withHeader := started.put "metadata.dat" rfl (Utf8.encode (Header.ofDef d))
  obtain ⟨file, t', created, done⟩ :=
    withHeader.runs_create_records hs admits roomCounter rfl rfl rfl
    d sync
  refine ⟨t', .bind made (.bind (started.runs_writeHeader hs admits roomHeader rfl d) ?_), done⟩
  exact .bind created (.pure _ _)

/-- Otherwise assembling stops somewhere, with nothing done outside the hidden directory. -/
theorem Leads.runs_assemble_of_no_room (h : t.Leads root r) {table : String}
    (step : Path.IsStep table) (full : ¬ root.RoomFor table)
    (free : ∀ inner, t.at? (inner ++ stagingName table :: r) = none) (d : Definition) (sync : Bool)
      :
    ∃ t', (Table.assemble ⟨root.join (stagingName table)⟩ d sync).Runs t
        (.error (.storage .nameTooLong)) t' ∧
      (t' = t ∨ root.Admits (stagingName table) ∧
        ∃ entries, t.Assembling root r (stagingName table) entries t') := by
  have hs := isStep_stagingName step
  rw [Table.assemble]
  by_cases fits : (stagingName table).utf8ByteSize ≤ 255 ∧
      (root.join (stagingName table)).Admits "indexes"
  · have admits : root.Admits (stagingName table) := fits.2.outer hs h.ne_nil fits.1
    have made := h.runs_makeDirectories hs isStep_indexes fits.1 fits.2 (free []) fun inner _ =>
      free inner
    have started := h.assembling free
    by_cases roomHeader : (root.join (stagingName table)).Admits "metadata.dat"
    · have withHeader := started.put "metadata.dat" rfl (Utf8.encode (Header.ofDef d))
      obtain ⟨t', entries, refused, stopped⟩ := withHeader.runs_create_records_of_no_room hs admits
        (fun roomCounter => full ⟨fits.1, roomCounter⟩) rfl d sync
      exact ⟨t', .bind made (.bind (started.runs_writeHeader hs admits roomHeader rfl d)
        (.bind_error refused)), .inr ⟨admits, entries, stopped⟩⟩
    · have refused : (Table.writeHeader ((root.join (stagingName table)).join "metadata.dat")
        d).Runs
          _ (.error (.storage .nameTooLong)) _ :=
        .bind_error ((started.leads_staging hs admits).runs_create_of_not_admits
          fileName_header.step roomHeader)
      exact ⟨_, .bind made (.bind_error refused), .inr ⟨admits, noFiles, started⟩⟩
  · exact ⟨t, .bind_error (h.runs_makeDirectories_of_not_admits hs isStep_indexes (by decide) fits),
      .inl rfl⟩

/-! ## Putting a table in its place -/

theorem stagingName_ne {table : String} (valid : Identifier.isValid table = true) (other : String) :
    stagingName other ≠ table := by
  rintro rfl
  have dot : '.' ∈ (stagingName other).toList := by simp [stagingName]
  exact Identifier.not_mem_of_isValid valid (by decide) dot

/-- Whether there is nothing at or below a place. -/
def Vacant (t : FileTree) (place : Place) : Prop :=
  ∀ inner, t.at? (inner ++ place) = none

/-- An assembled table that is moved to its place is kept there. -/
theorem Assembling.becomes_move (h : t.Leads root r) {d : Definition}
    (valid : Identifier.isValid d.name = true) (room : root.RoomFor d.name)
    (hidden : t.Vacant (stagingName d.name :: r)) (free : t.Vacant (d.name :: r))
    (assembled : t.Assembling root r (stagingName d.name) (newEntries d) t') :
    t.Becomes root r d.name (Contents.new d).files
      (t'.move (stagingName d.name :: r) (d.name :: r)) := by
  have moved := at?_move t' (List.cons_ne_nil (stagingName d.name) r) (List.cons_ne_nil d.name r)
  have outside (p : Place) (away : below? (d.name :: r) p = none) :
      (t'.move (stagingName d.name :: r) (d.name :: r)).at? p = t.at? p := by
    rw [moved p, away]
    cases beside : below? (stagingName d.name :: r) p with
    | none => exact assembled.same.outside p beside
    | some rest =>
        rw [below?_eq_some_iff.1 beside, hidden rest]
        rfl
  have keeps : t.Keeps (t'.move (stagingName d.name :: r) (d.name :: r)) := by
    refine ⟨assembled.same.here, fun p directory => ?_⟩
    cases below : below? (d.name :: r) p with
    | none => rw [outside p below, directory]
    | some rest =>
        rw [below?_eq_some_iff.1 below, free rest] at directory
        cases directory
  refine ⟨⟨h.mono keeps, isStep_of_isValid valid, room, fun inner => ?_⟩,
    ⟨assembled.same.here, outside⟩⟩
  rw [moved, below?_append]
  show t'.at? (inner ++ stagingName d.name :: r) = _
  rw [assembled.holds inner, newEntries_eq]

/-- What making a table makes of a tree: a directory with the entries of a new table and no
others, nothing where it was assembled, and everywhere else what was there. -/
structure Gains (t : FileTree) (root : Path) (r : Place) (d : Definition) (t' : FileTree) : Prop
  where
  leads : t'.Leads root r
  room : root.RoomFor d.name
  holds : ∀ inner, t'.at? (inner ++ d.name :: r) = newEntries d inner
  hidden : t'.Vacant (stagingName d.name :: r)
  here : t'.here = t.here
  outside : ∀ p, below? (stagingName d.name :: r) p = none → below? (d.name :: r) p = none →
    t'.at? p = t.at? p

theorem Becomes.gains {d : Definition} (valid : Identifier.isValid d.name = true)
    (hidden : t.Vacant (stagingName d.name :: r))
    (becomes : t.Becomes root r d.name (Contents.new d).files t') : t.Gains root r d t' := by
  refine ⟨becomes.houses.leads, becomes.houses.room, fun inner => ?_, fun inner => ?_,
    becomes.same.here, fun p _ => becomes.same.outside p⟩
  · rw [newEntries_eq]
    exact becomes.houses.holds inner
  · rw [becomes.same.outside _ (below?_append_cons_of_ne (stagingName_ne valid d.name) inner r)]
    exact hidden inner

/-- What was in the hidden directory makes no difference. -/
theorem Gains.of_prune {d : Definition}
    (h : (t.prune (stagingName d.name :: r)).Gains root r d t') : t.Gains root r d t' := by
  refine ⟨h.leads, h.room, h.holds, h.hidden, h.here, fun p hidden away => ?_⟩
  rw [h.outside p hidden away]
  by_cases outermost : p = []
  · rw [outermost]
    rfl
  · rw [at?_prune t _ outermost, hidden]
    rfl

theorem Gains.houses {d : Definition} (h : t.Gains root r d t')
    (valid : Identifier.isValid d.name = true) :
    t'.Houses root r d.name (Contents.new d).files :=
  ⟨h.leads, isStep_of_isValid valid, h.room, fun inner => by rw [h.holds, newEntries_eq]⟩

/-- A table with the files of a new one is a new one. -/
theorem Becomes.turns_new {d : Definition} (proper : d.Proper)
    (becomes : t.Becomes root r d.name (Contents.new d).files t') :
    t.Turns root r (Contents.new d) t' :=
  ⟨⟨.new proper, becomes.houses, fun _ mem => nomatch mem⟩, becomes.same⟩

/-- Where the name of a table is free, it comes to the hidden directory. -/
theorem Leads.runs_create_of_absent (h : t.Leads root r) {d : Definition}
    (valid : Identifier.isValid d.name = true) (free : t.at? (d.name :: r) = none) {sync : Bool}
    {result : Except Error Table}
    (next : (do
      if (← Action.kind (root.join (stagingName d.name))).isSome then
        Action.removeTree (root.join (stagingName d.name))
      Action.orElse (do
        Table.assemble ⟨root.join (stagingName d.name)⟩ d sync
        Action.rename (root.join (stagingName d.name)) (root.join d.name))
        (Action.removeTree (root.join (stagingName d.name)))
      Table.load root d.name sync).Runs t result t') :
    (Table.create root d sync).Runs t result t' := by
  have nothing : (if root.Admits d.name then (t.at? (d.name :: r)).map Entry.kind else none) =
      none := by
    rw [free]
    split <;> rfl
  rw [Table.create]
  rw [Identifier.check_eq_ok.2 valid]
  apply Action.Runs.bind (.ofResult _ t)
  apply Action.Runs.bind h.runs_kind
  rw [if_neg (by simp)]
  apply Action.Runs.bind (h.runs_kind_join (isStep_of_isValid valid))
  rw [nothing, if_neg (by simp)]
  exact next

/-- Nothing is in the way of a new table where its name and that of the hidden directory
are free. -/
theorem Leads.runs_create_of_free (h : t.Leads root r) {d : Definition}
    (valid : Identifier.isValid d.name = true) (hidden : t.at? (stagingName d.name :: r) = none)
    (free : t.at? (d.name :: r) = none) {sync : Bool} {result : Except Error Table}
    (next : (do
      Action.orElse (do
        Table.assemble ⟨root.join (stagingName d.name)⟩ d sync
        Action.rename (root.join (stagingName d.name)) (root.join d.name))
        (Action.removeTree (root.join (stagingName d.name)))
      Table.load root d.name sync).Runs t result t') :
    (Table.create root d sync).Runs t result t' := by
  apply h.runs_create_of_absent valid free
  have absent := h.runs_kind_join (isStep_stagingName (isStep_of_isValid valid))
  have nothing : (if root.Admits (stagingName d.name) then
      (t.at? (stagingName d.name :: r)).map Entry.kind else none) = none := by
    rw [hidden]
    split <;> rfl
  rw [nothing] at absent
  apply Action.Runs.bind absent
  rw [if_neg (by simp)]
  exact next

/-- What is left of an earlier attempt is removed first. -/
theorem Leads.runs_create_of_leftover (h : t.Leads root r) {d : Definition}
    (valid : Identifier.isValid d.name = true) (admits : root.Admits (stagingName d.name))
    (leftover : t.at? (stagingName d.name :: r) = some .directory)
    (free : t.at? (d.name :: r) = none) {sync : Bool} {result : Except Error Table}
    (next : (do
      Action.orElse (do
        Table.assemble ⟨root.join (stagingName d.name)⟩ d sync
        Action.rename (root.join (stagingName d.name)) (root.join d.name))
        (Action.removeTree (root.join (stagingName d.name)))
      Table.load root d.name sync).Runs (t.prune (stagingName d.name :: r)) result t') :
    (Table.create root d sync).Runs t result t' := by
  apply h.runs_create_of_absent valid free
  have hs := isStep_stagingName (isStep_of_isValid valid)
  have present := h.runs_kind_join hs
  rw [if_pos admits, leftover] at present
  apply Action.Runs.bind present
  rw [if_pos (by rfl)]
  exact .bind (h.runs_removeTree hs admits leftover) next

/-- A table that is there already stays as it is. -/
theorem Leads.runs_create_of_present (h : t.Leads root r) {d : Definition}
    (valid : Identifier.isValid d.name = true) (admits : root.Admits d.name) {entry : Entry}
    (present : t.at? (d.name :: r) = some entry) (sync : Bool) :
    (Table.create root d sync).Runs t (.error (.tableExists d.name)) t := by
  rw [Table.create]
  rw [Identifier.check_eq_ok.2 valid]
  refine .bind (.ofResult _ t) (.bind h.runs_kind ?_)
  rw [if_neg (by simp)]
  refine .bind (h.runs_kind_join (isStep_of_isValid valid)) ?_
  rw [if_pos admits, present, if_pos (by simp)]
  exact .bind_error (.throw _ t)

/-- What was assembled until something failed is taken away. -/
theorem Leads.runs_create_of_no_room (h : t.Leads root r) {d : Definition}
    (valid : Identifier.isValid d.name = true) (full : ¬ root.RoomFor d.name)
    (hidden : t.Vacant (stagingName d.name :: r)) (free : t.Vacant (d.name :: r)) (sync : Bool) :
    ∃ t', (Table.create root d sync).Runs t (.error (.storage .nameTooLong)) t' ∧ t.Same t' := by
  have step := isStep_of_isValid valid
  have hs := isStep_stagingName step
  obtain ⟨t₁, failed, partly⟩ := h.runs_assemble_of_no_room step full hidden d sync
  have cleaned : ∃ result t', (Action.removeTree (root.join (stagingName d.name))).Runs t₁ result
    t' ∧
      t.Same t' := by
    rcases partly with rfl | ⟨admits, entries, assembling⟩
    · obtain ⟨fault, refused⟩ := h.runs_removeTree_of_absent hs (hidden [])
      exact ⟨_, t₁, refused, .refl t₁⟩
    · obtain ⟨t', removed, same⟩ := assembling.runs_removeTree hs admits hidden
      exact ⟨_, t', removed, same⟩
  obtain ⟨result, t', removed, same⟩ := cleaned
  refine ⟨t', h.runs_create_of_free valid (hidden []) (free []) ?_, same⟩
  exact .bind_error (.orElse_error (.bind_error failed) removed)

/-- Where there is room a new table is assembled and then moved to its place. -/
theorem Leads.runs_assemble_move (h : t.Leads root r) {d : Definition}
    (valid : Identifier.isValid d.name = true) (room : root.RoomFor d.name)
    (hidden : t.Vacant (stagingName d.name :: r)) (free : t.Vacant (d.name :: r)) (sync : Bool) :
    ∃ t₁ t₂, (Table.assemble ⟨root.join (stagingName d.name)⟩ d sync).Runs t (.ok ()) t₁ ∧
      (Action.rename (root.join (stagingName d.name)) (root.join d.name)).Runs t₁ (.ok ()) t₂ ∧
      t.Becomes root r d.name (Contents.new d).files t₂ := by
  have step := isStep_of_isValid valid
  have hs := isStep_stagingName step
  obtain ⟨t₁, assembled, assembling⟩ := h.runs_assemble step room hidden d sync
  have admits : root.Admits d.name := room.admits step h.ne_nil
  have admitsStaging : root.Admits (stagingName d.name) :=
    (room.2.mono (by decide) : (root.join (stagingName d.name)).Admits "indexes").outer hs h.ne_nil
      room.1
  have vacant : t₁.at? (d.name :: r) = none := by
    rw [assembling.same.outside _ (below?_of_length_eq (by simp)
      (by simpa using stagingName_ne valid d.name))]
    exact free []
  have moved := assembling.leads.runs_rename_directory hs step (stagingName_ne valid d.name)
    admitsStaging admits ((assembling.holds []).trans assembling.shape.directory) vacant
  exact ⟨t₁, _, assembled, moved, assembling.becomes_move h valid room hidden free⟩

/-- Making a table where there is room yields what opening it yields. -/
theorem Leads.runs_create (h : t.Leads root r) {d : Definition} (proper : d.Proper)
    (room : root.RoomFor d.name) (hidden : t.Vacant (stagingName d.name :: r))
    (free : t.Vacant (d.name :: r)) (sync : Bool) :
    ∃ t', (Table.create root d sync).Runs t
        (Header.reread d >>= fun _ => .ok ((Contents.new d).handle root sync)) t' ∧
      t.Turns root r (Contents.new d) t' := by
  obtain ⟨t₁, t₂, assembled, moved, becomes⟩ :=
    h.runs_assemble_move proper.name room hidden free sync
  have turns := becomes.turns_new proper
  refine ⟨t₂, h.runs_create_of_free proper.name (hidden []) (free []) ?_, turns⟩
  exact .bind (.orElse _ (.bind assembled moved)) (turns.stores.runs_load sync)

/-! ## Dropping a table -/

/-- Nothing is removed but what is at or below a place. -/
theorem sameOutside_prune (t : FileTree) (place : Place) : SameOutside place t (t.prune place) := by
  refine ⟨rfl, fun p away => ?_⟩
  by_cases outermost : p = []
  · rw [outermost]
    rfl
  · rw [at?_prune t _ outermost, away]
    rfl

/-- A table that is dropped leaves nothing, unless the way to the root leads through it. -/
theorem Stores.runs_drop {c : Contents} (h : t.Stores root r c)
    (stays : (t.prune (c.name :: r)).Leads root r) (sync : Bool) :
    (c.handle root sync).drop.Runs t (.ok ()) (t.prune (c.name :: r)) ∧
      (t.prune (c.name :: r)).Vacant (c.name :: r) := by
  have leads := h.houses.leads
  have admits := h.houses.room.admits h.houses.step leads.ne_nil
  have gone : (t.prune (c.name :: r)).Vacant (c.name :: r) := by
    intro inner
    rw [at?_prune t _ (by simp), below?_append]
    rfl
  refine ⟨?_, gone⟩
  rw [Table.drop]
  refine .bind (leads.runs_removeTree h.houses.step admits (h.houses.holds [])) ?_
  refine .bind (stays.runs_kind_join h.houses.step) ?_
  rw [if_pos admits, show (t.prune (c.name :: r)).at? (c.name :: r) = none from gone [],
    if_neg (by simp)]
  exact .pure _ _

end FileTree

end FlatDB
