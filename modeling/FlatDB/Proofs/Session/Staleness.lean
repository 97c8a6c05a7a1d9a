/-
# What a failed change leaves to be opened

An index that cannot be written loses its file, so that the next opening makes it
anew.  The indexes after it are not written at all, and theirs are kept: the next
opening takes them for what they are not.  So after a change that has failed, a table
that is opened has its records and all its indexes, and an index is faithful to the
records unless it stands somewhere after one without a file.  In particular that is
so of the first index, and of every index when a field has been set, since then only
one is written.

The openings in between may fail as well.  They write no index but those without a
file, and these from the records.
-/

import FlatDB.Proofs.Session.IndexConsistency
import FlatDB.Proofs.Table.Failing

namespace FlatDB

open FileTree

/-- A mishap of a call that makes or moves a file, writes to it, or reads one that is there.
A call that adds to a file, empties or moves it has done nothing when it fails: no index
would learn of a record that was written although its writing failed. -/
def Mishap.Clean : Tolerance
  | .read _, m => m.fault ≠ .notFound
  | .append _ _ _, m => m.extent = .nothing
  | .truncate _ _, m => m.extent ≠ .everything
  | .rename _ _, m => m.extent ≠ .everything
  | .remove _, _ => False
  | _, _ => True

theorem Mishap.clean : Tolerance.Clean Mishap.Clean where
  reads _ _ h := h
  appends _ _ _ _ nothing := by simp [show _ = Extent.nothing from nothing]
  moves _ _ _ h := h
  appendsNothing _ _ _ _ nothing := by simp [show _ = Extent.nothing from nothing]
  truncatesNothing _ _ _ h := h
  removes _ _ h := h

/-! ## Changes -/

/-- A change of the records of a table. -/
inductive Table.Change where
  | insert (record : Record)
  | updateWhere (accepts : Record → Bool) (column value : String)
  | deleteWhere (accepts : Record → Bool)
  | deleteAll

namespace Table.Change

/-- Change the records of a table. -/
def update : Change → Update Table Unit
  | .insert record => do
    let _ ← Table.insert record
  | .updateWhere accepts column value => do
    let _ ← Table.updateWhere accepts column value
  | .deleteWhere accepts => do
    let _ ← Table.deleteWhere accepts
  | .deleteAll => do
    let _ ← Table.deleteAll

/-- Whether a change fits a table: a record has a field for each column, and what is
written in a column with an index is a number. -/
def Fits (c : Contents) : Change → Prop
  | .insert record => record.arity = c.schema.arity ∧
      ∀ column ∈ c.indexed, (record.key? column.position).isSome
  | .updateWhere _ name value =>
      ∀ column ∈ c.indexed, column.name = name → (Numeral.int32? value).isSome
  | .deleteWhere _ => True
  | .deleteAll => True

/-- Whether a change sets a field of records. -/
def setsField : Change → Bool
  | .updateWhere _ _ _ => true
  | _ => false

end Table.Change

namespace FileTree

variable {F : Tolerance} {d : Disk} {root : Path} {r : Place} {c : Contents} {change : Table.Change}

/-- A change that fails leaves indexes out of date only after one that has no file. -/
theorem Agrees.ensures_trails (clean : F.Clean) (h : d.tree.Agrees root r c)
    (fits : change.Fits c) (sync : Bool) :
    change.update.Ensures F
      (fun result _ d' => ∀ e, result = .error e → d'.tree.Trails root r c)
      (c.handle root sync) d := by
  cases change with
  | insert record => exact .bind_pure (h.ensures_insert clean fits.1 fits.2 sync)
  | updateWhere accepts name value =>
      refine .bind_pure ((h.ensures_updateWhere clean accepts fits sync).mono ?_)
      intro result _ d' outdates e failed
      obtain ⟨now, current⟩ := outdates e failed
      exact current.trails
  | deleteWhere accepts => exact .bind_pure (h.ensures_deleteWhere clean accepts sync)
  | deleteAll => exact .bind_pure (h.ensures_deleteAll clean sync)

/-- If it was to set a field, it leaves none out of date. -/
theorem Agrees.ensures_outdates (clean : F.Clean) (h : d.tree.Agrees root r c)
    (fits : change.Fits c) (sets : change.setsField = true) (sync : Bool) :
    change.update.Ensures F
      (fun result _ d' => ∀ e, result = .error e → ∃ now, d'.tree.Outdates root r c [] now)
      (c.handle root sync) d := by
  cases change with
  | updateWhere accepts name value => exact .bind_pure (h.ensures_updateWhere clean accepts fits sync)
  | insert record => cases sets
  | deleteWhere accepts => cases sets
  | deleteAll => cases sets

end FileTree

/-! ## Openings -/

/-- An attempt to open a table. -/
structure Table.Opening where
  /-- Whether what is written must have reached the medium. -/
  sync : Bool
  outlooks : List Outlook

namespace Table.Opening

/-- Open a table of a root. -/
def load (o : Opening) (root : Path) (name : String) (d : Disk) : Except Error Table × Disk :=
  d.performUnder o.outlooks (Table.load root name o.sync)

/-- The disk after a table was opened some times. -/
def run (openings : List Opening) (root : Path) (name : String) (d : Disk) : Disk :=
  openings.foldl (fun d o => (o.load root name d).2) d

/-- Whether an opening meets no other mishaps than those to be reckoned with. -/
def Clean (o : Opening) : Prop :=
  ∀ outlook ∈ o.outlooks, outlook.Within Mishap.Clean

end Table.Opening

/-- An open table with the records of its data file and an index for each column that has
one, faithful to these records or, in some columns, to the records there were. -/
structure Table.FaithfulBut (t : Table) (d : Disk) (c : Contents) (left : List Column)
    (stored : List Stored) : Prop where
  records : (d.perform t.scan).1 = .ok (stored.map .ok)
  columns : t.indexes.indexes.map Index.column = c.indexedNames
  faithful : ∀ column ∈ c.indexed, ∃ i, t.index? column.name = some i ∧
    (i.Faithful column stored ∨ column ∈ left ∧ i.Faithful column c.stored)

namespace TableIndexes

variable {P : Column → List Stored → Prop} {columns : List Column} {indexes : List Index}

/-- Indexes that were made for some columns are about these columns. -/
theorem columns_of_forall₂ (made : List.Forall₂ (fun column index => ∃ stored, P column stored ∧
    index = Index.ofStored column stored) columns indexes) :
    indexes.map Index.column = columns.map fun column => column.name := by
  induction made with
  | nil => rfl
  | cons first rest ih =>
      obtain ⟨stored, -, rfl⟩ := first
      rw [List.map_cons, List.map_cons, ih, Index.column_ofStored]

/-- The index of one of these columns is found by its name. -/
theorem find?_of_forall₂ (made : List.Forall₂ (fun column index => ∃ stored, P column stored ∧
    index = Index.ofStored column stored) columns indexes)
    (distinct : (columns.map fun column => column.name).Nodup) {column : Column}
    (mem : column ∈ columns) :
    ∃ stored, P column stored ∧
      (indexes.find? fun index => index.column == column.name) =
        some (Index.ofStored column stored) := by
  induction made with
  | nil => cases mem
  | cons first rest ih =>
      obtain ⟨stored, may, rfl⟩ := first
      rw [List.map_cons, List.nodup_cons] at distinct
      rcases List.mem_cons.1 mem with rfl | later
      · exact ⟨stored, may, List.find?_cons_of_pos (by simp [Index.column_ofStored])⟩
      · obtain ⟨stored', may', found⟩ := ih distinct.2 later
        refine ⟨stored', may', (List.find?_cons_of_neg ?_).trans found⟩
        rw [Index.column_ofStored, beq_iff_eq]
        exact fun same => distinct.1 (same ▸ List.mem_map_of_mem later)

end TableIndexes

namespace FileTree.Outdates

variable {F : Tolerance} {d d' : Disk} {root : Path} {r : Place} {c : Contents}
  {left : List Column} {now : List Stored}

/-- Opening a table makes no index out of date, and each index is made from records that its
file may tell. -/
theorem ensures_load (contained : F.Contained) (h : d.tree.Outdates root r c left now)
    (sync : Bool) :
    (Table.load root c.name sync).Ensures F
      (fun result d' => d'.tree.Outdates root r c left now ∧ ∀ t, result = .ok t →
        t.records.Holds (.ofTable (c.name :: r)) now d'.tree ∧
          List.Forall₂ (fun column index => ∃ stored,
            (stored = now ∨ column ∈ left ∧ stored = c.stored) ∧
              index = Index.ofStored column stored) c.indexed t.indexes.indexes) d :=
  (h.lodges.ensures_load contained h.orderly sync
    (P := fun column stored => stored = now ∨ column ∈ left ∧ stored = c.stored)
    (fun _ => .inl rfl) h.told).mono
    fun _ _ ⟨lodges, told, opened⟩ => ⟨⟨h.orderly, lodges, told⟩, opened⟩

/-- However often a table is opened, no index gets out of date. -/
theorem run (h : d.tree.Outdates root r c left now) {openings : List Table.Opening}
    (clean : ∀ o ∈ openings, o.Clean) :
    (Table.Opening.run openings root c.name d).tree.Outdates root r c left now := by
  induction openings generalizing d with
  | nil => exact h
  | cons o openings ih =>
      have opened := (h.ensures_load Mishap.clean.toContained o.sync).performUnder
        (clean o List.mem_cons_self)
      exact ih opened.1 fun o' mem => clean o' (List.mem_cons_of_mem o mem)

/-- What an opened table has when some indexes may be out of date. -/
theorem opened (h : d.tree.Outdates root r c left now) {o : Table.Opening} (clean : o.Clean)
    {t : Table} (opened : o.load root c.name d = (.ok t, d')) : t.FaithfulBut d' c left now := by
  have ensured := (h.ensures_load Mishap.clean.toContained o.sync).performUnder clean
  rw [show d.performUnder o.outlooks (Table.load root c.name o.sync) = _ from opened] at ensured
  obtain ⟨-, found⟩ := ensured
  obtain ⟨holds, made⟩ := found t rfl
  refine ⟨holds.perform_scan, TableIndexes.columns_of_forall₂ made, fun column mem => ?_⟩
  obtain ⟨stored, may, index⟩ := TableIndexes.find?_of_forall₂ made h.orderly.distinct mem
  refine ⟨Index.ofStored column stored, index, ?_⟩
  rcases may with rfl | ⟨late, rfl⟩
  · exact .inl (Index.faithful_ofStored column _)
  · exact .inr ⟨late, Index.faithful_ofStored column _⟩

end FileTree.Outdates

/-! ## Changes that fail -/

namespace Table

/-- Whatever befalls a change of the records of a table whose handle, indexes and records
agree: if it fails, every later opening that succeeds finds the records there are and all
indexes, each of them faithful to these records unless it stands after an index whose file
the failure has removed.  Such an index may still be faithful to the records there were.
If a field was to be set, every index is faithful. -/
theorem index_trails {d d' : Disk} {root : Path} {r : Place} {c : Contents} {change : Change}
    {outlooks : List Outlook} {sync : Bool} {e : Error} {t' : Table}
    (agrees : d.tree.Agrees root r c) (fits : change.Fits c)
    (within : ∀ o ∈ outlooks, o.Within Mishap.Clean)
    (failed : d.updateUnder outlooks (c.handle root sync) change.update = (.error e, t', d')) :
    ∃ left stored,
      (left = [] ∨ change.setsField = false ∧ ∃ column, column :: left <:+ c.indexed ∧
        (d'.step (.read ((Layout.ofTable root c.name).index column.name))).1 = .error .notFound) ∧
      ∀ openings : List Opening, (∀ o ∈ openings, o.Clean) → ∀ o : Opening, o.Clean → ∀ t d'',
        o.load root c.name (Opening.run openings root c.name d') = (.ok t, d'') →
          t.FaithfulBut d'' c left stored := by
  cases sets : change.setsField with
  | true =>
      have ensured := (agrees.ensures_outdates Mishap.clean fits sets sync).updateUnder within
      rw [failed] at ensured
      obtain ⟨now, outdates⟩ := ensured e rfl
      exact ⟨[], now, .inl rfl, fun openings clean o fair t d'' opened =>
        (outdates.run clean).opened fair opened⟩
  | false =>
      have ensured := (agrees.ensures_trails Mishap.clean fits sync).updateUnder within
      rw [failed] at ensured
      obtain ⟨left, now, outdates, place⟩ := ensured e rfl
      refine ⟨left, now, place.imp_right fun ⟨column, after, gone⟩ => ⟨rfl, column, after, ?_⟩,
        fun openings clean o fair t d'' opened => (outdates.run clean).opened fair opened⟩
      exact outdates.lodges.step_read_index (after.mem List.mem_cons_self) gone

/-! ## A table with two indexes -/

/-- A service with an open table that has no records and two indexes. -/
def twoIndexes : Service :=
  (Service.start ⟨"db"⟩ true .prepared).run
    [.statement (.createTable "t" [⟨"x", .int, true⟩, ⟨"y", .int, true⟩]),
      .statement (.createIndex "t" "by_x" ["x"]),
      .statement (.createIndex "t" "by_y" ["y"])]

/-- The replacement of the first index cannot be made. -/
def busyReplacement : Outlook
  | .create path => if path.text = "db/t/indexes/x.idx.swp" then some ⟨.busy, .nothing⟩ else none
  | _ => none

theorem within_busyReplacement : busyReplacement.Within Mishap.Clean := by
  intro call m befalls
  cases call
  case create => trivial
  all_goals cases befalls

/-- Insert a record into the table while its first index cannot be replaced. -/
def insertBusy (t : Table) : Except Error Unit × Table × Disk :=
  twoIndexes.disk.updateUnder (List.replicate 16 busyReplacement) t
    (Change.insert ⟨["3", "4"]⟩).update

theorem any_table?_twoIndexes :
    (twoIndexes.session.table? "t").any (fun t =>
      match insertBusy t with
      | (result, _, d) =>
        match d.perform (Table.load ⟨"db"⟩ "t" true) with
        | (opened, d) =>
          t.schema.arity = 2 ∧ t.indexes.indexes.map Index.position = [0, 1] ∧
            result = .error (.storage .busy) ∧ opened.toOption.any fun t =>
              (d.perform t.scan).1 = .ok [.ok (1, ⟨["3", "4"]⟩)] ∧
                (t.index? "y").any fun i => i.position = 1 ∧ i.lookup? 4 = none) = true := by
  decide +kernel

/-- The table agrees with its files, the record fits it and cannot be inserted, and the table
is opened without the record in its second index. -/
theorem opens_twoIndexes :
    ∃ (r : Place) (c : Contents) (failed : Table) (d' : Disk) (t : Table) (d'' : Disk),
      twoIndexes.disk.tree.Agrees ⟨"db"⟩ r c ∧ (Change.insert ⟨["3", "4"]⟩).Fits c ∧
      insertBusy (c.handle ⟨"db"⟩ true) = (.error (.storage .busy), failed, d') ∧
      Opening.load ⟨true, []⟩ ⟨"db"⟩ c.name d' = (.ok t, d'') ∧
      (d''.perform t.scan).1 = .ok [.ok (1, ⟨["3", "4"]⟩)] ∧
      ∃ i, t.index? "y" = some i ∧ i.position = 1 ∧ i.lookup? 4 = none := by
  obtain ⟨t, known, facts⟩ := (Option.any_eq_true _ _).1 any_table?_twoIndexes
  rcases insert : insertBusy t with ⟨result, failed, d'⟩
  rw [insert] at facts
  dsimp only at facts
  rcases load : d'.perform (Table.load ⟨"db"⟩ "t" true) with ⟨opened, d''⟩
  rw [load] at facts
  obtain ⟨arity, positions, rfl, opens⟩ := of_decide_eq_true facts
  obtain ⟨t', rfl, found⟩ := Result.exists_of_any opens
  obtain ⟨scan, indexed⟩ := of_decide_eq_true found
  obtain ⟨i, index, about⟩ := (Option.any_eq_true _ _).1 indexed
  obtain ⟨r, empty⟩ := Disk.emptyAt_prepared
  have agrees : twoIndexes.Agrees _ ⟨"db"⟩ r true _ := (empty.agrees true).run empty _
  obtain ⟨c, found, rfl⟩ := agrees.handles "t" t known
  have there := (Catalog.find_eq_ok.1 found).2.1
  have named : c.name = "t" := (agrees.depicts.sound "t" c there).named
  have keyed : ∀ column ∈ c.indexed, (Record.key? ⟨["3", "4"]⟩ column.position).isSome := by
    intro column mem
    have position : column.position ∈ [0, 1] := by
      rw [← positions, ← Index.position_ofStored column c.stored]
      exact List.mem_map_of_mem (List.mem_map_of_mem mem)
    generalize column.position = place at position
    rcases List.mem_pair.1 position with rfl | rfl <;> decide
  rw [← named, ← Disk.performUnder_nil] at load
  exact ⟨r, c, failed, d', t', d'', .of_stores (agrees.depicts.stores empty there),
    ⟨arity.symm, keyed⟩, insert, load, scan, i, index, of_decide_eq_true about⟩

theorem index_trails_sample :
    ∃ (r : Place) (c : Contents) (failed : Table) (d' : Disk) (t : Table) (d'' : Disk)
      (left : List Column) (stored : List Stored),
      twoIndexes.disk.tree.Agrees ⟨"db"⟩ r c ∧ (Change.insert ⟨["3", "4"]⟩).Fits c ∧
      insertBusy (c.handle ⟨"db"⟩ true) = (.error (.storage .busy), failed, d') ∧
      Opening.load ⟨true, []⟩ ⟨"db"⟩ c.name d' = (.ok t, d'') ∧
      (left = [] ∨ ∃ column, column :: left <:+ c.indexed) ∧ t.FaithfulBut d'' c left stored := by
  obtain ⟨r, c, failed, d', t, d'', agrees, fits, insert, load, -⟩ := opens_twoIndexes
  have within : ∀ o ∈ List.replicate 16 busyReplacement, o.Within Mishap.Clean :=
    fun o mem => List.eq_of_mem_replicate mem ▸ within_busyReplacement
  obtain ⟨left, stored, which, opens⟩ := index_trails agrees fits within insert
  exact ⟨r, c, failed, d', t, d'', left, stored, agrees, fits, insert, load,
    which.imp_right fun ⟨_, column, after, _⟩ => ⟨column, after⟩,
    opens [] nofun ⟨true, []⟩ nofun t d'' load⟩

/-- The second index is trusted although it does not have the record that was inserted. -/
theorem second_index_outdated :
    ∃ (r : Place) (c : Contents) (failed : Table) (d' : Disk) (t : Table) (d'' : Disk) (i : Index)
      (stored : List Stored),
      twoIndexes.disk.tree.Agrees ⟨"db"⟩ r c ∧ (Change.insert ⟨["3", "4"]⟩).Fits c ∧
      insertBusy (c.handle ⟨"db"⟩ true) = (.error (.storage .busy), failed, d') ∧
      Opening.load ⟨true, []⟩ ⟨"db"⟩ c.name d' = (.ok t, d'') ∧
      (d''.perform t.scan).1 = .ok (stored.map .ok) ∧ t.index? "y" = some i ∧
      ∀ column, ¬ i.Faithful column stored := by
  obtain ⟨r, c, failed, d', t, d'', agrees, fits, insert, load, scan, i, index, position, lost⟩ :=
    opens_twoIndexes
  refine ⟨r, c, failed, d', t, d'', i, [(1, ⟨["3", "4"]⟩)], agrees, fits, insert, load, scan, index,
    fun column faithful => ?_⟩
  have has : Record.key? ⟨["3", "4"]⟩ column.position = some 4 := by
    rw [← faithful.position, position]
    decide
  exact (faithful.absent 4).1 lost (1, ⟨["3", "4"]⟩) List.mem_cons_self has

end Table

end FlatDB
