/-
# Tables are isolated

A statement touches no table but its own.  From an empty storage root, whatever has been
executed before, every call of a statement keeps to the directory of its table and to the
hidden one in which the table is made, or it touches nothing at all, if what it is given
for a name is none.  So all other tables keep their files and stay as open as they are,
even if calls fail on the way; and statements about different tables can be executed in
either order.

That the paths are the right ones rests on the names of columns, which are read back from
headers: what is in the place of a header was written when the table was made, also where
making it has been disturbed, because nothing is moved there unless all calls have gone
well.
-/

import FlatDB.Proofs.Session.Confinement
import FlatDB.Proofs.Session.Locality
import FlatDB.Proofs.Session.Reopening

namespace FlatDB

open FileTree

/-! ## The names of a statement -/

namespace Statement

/-- The names in the storage root that are a statement's own: that of its table, if it is an
identifier, and that of the hidden directory in which this table is made. -/
def Owns (s : Statement) (name : String) : Prop :=
  ∃ table, s.table? = some table ∧ Identifier.isValid table = true ∧
    (name = table ∨ name = stagingName table)

/-- The paths that are a statement's own: those of its names, and of what is below. -/
def OwnsPath (root : Path) (s : Statement) (path : Path) : Prop :=
  ∃ name, s.Owns name ∧ path.IsIn (root.join name)

theorem Owns.isStep {s : Statement} {name : String} (h : s.Owns name) : Path.IsStep name := by
  obtain ⟨table, -, valid, rfl | rfl⟩ := h
  · exact isStep_of_isValid valid
  · exact isStep_stagingName (isStep_of_isValid valid)

end Statement

/-! ## Headers -/

namespace FileTree

variable {t₀ t : FileTree} {root : Path} {r : Place} {cat : Catalog} {d : Definition}
  {disk disk₂ disk' : Disk} {name : String} {sync : Bool}

/-- The header that was written for a table declares identifiers. -/
theorem Houses.declares {f : TableFiles} (h : disk.tree.Houses root r d.name f)
    (written : f.header = Utf8.encode (Header.ofDef d)) (proper : d.Proper) :
    Table.Declares (Layout.ofTable root d.name) d.name disk := by
  intro source x replied parsed
  have read := (h.runs_read_header.of_perform (disk.perform_ask _)).1
  rw [replied, written] at read
  cases read
  have reread : Header.reread d = .ok x := parsed
  by_cases fits : Header.Fits d
  · rw [Header.reread_of_fits proper fits] at reread
    cases reread
    exact proper.schema.valid
  · obtain ⟨damage, unread⟩ := Header.reread_of_not_fits proper fits
    rw [unread] at reread
    cases reread

/-- Where there is no table there is no header. -/
theorem Leads.declares_of_vacant (h : disk.tree.Leads root r) (step : Path.IsStep name)
    (free : disk.tree.Vacant (name :: r)) :
    Table.Declares (Layout.ofTable root name) name disk := by
  intro source x replied
  rw [Disk.step] at replied
  have place {p : Place} {entry : Option Entry}
      (look : disk.tree.look (Layout.ofTable root name).header = .ok (p, entry)) :
      entry = none := by
    obtain ⟨found, rfl⟩ := place_of_look look
    rw [← goal_of_place found, show disk.tree.goal (Layout.ofTable root name).header = _ from
      h.goal_join_join step fileName_header.step]
    exact free ["metadata.dat"]
  split at replied
  · next look => cases place look
  · next look => cases place look
  · cases replied
  · cases replied

/-- Nothing is moved to a directory with something in it. -/
theorem Leads.rename_ne_ok (h : disk.tree.Leads root r) {outer inner file : String}
    (ho : Path.IsStep outer) (hi : Path.IsStep inner) (ne : outer ≠ inner)
    (source : disk.tree.at? (outer :: r) = some .directory)
    (target : disk.tree.at? (inner :: r) = some .directory) {entry : Entry}
    (inside : disk.tree.at? (file :: inner :: r) = some entry) :
    (disk.rename (root.join outer) (root.join inner)).1 ≠ .ok () := by
  have full : (disk.tree.children (inner :: r)).isEmpty = false :=
    Bool.eq_false_iff.2 fun none => List.not_mem_nil
      (List.isEmpty_iff.1 none ▸ mem_children.2 inside)
  have differ : outer :: r ≠ inner :: r := by simpa using ne
  have refused (slash : Bool) :
      Disk.moveFault? disk.tree (outer :: r) (inner :: r) slash = some .notEmpty := by
    have across := below?_of_length_eq (p := outer :: r) (q := inner :: r) (by simp) differ
    have back := below?_of_length_eq (p := inner :: r) (q := outer :: r) (by simp) differ.symm
    simp [Disk.moveFault?, source, target, differ, across, back, full, Entry.kind]
  rw [Disk.rename, h.place_join ho, h.place_join hi]
  split
  · simp
  · simp
  · next found found' =>
    split at found
    · split at found'
      · cases found
        cases found'
        split
        · simp
        · simp [refused]
      · cases found'
    · cases found

namespace Depicts

/-- The headers of a catalog's tables declare identifiers. -/
theorem declares (h : t₀.Depicts root r cat disk.tree) (empty : t₀.EmptyRoot root r)
    (valid : Identifier.isValid name = true) :
    Table.Declares (Layout.ofTable root name) name disk := by
  cases known : cat[name]? with
  | none =>
      exact (h.leads empty).declares_of_vacant (isStep_of_isValid valid) (h.vacant known)
  | some c =>
      obtain ⟨rfl, proper, -, -⟩ := h.sound name c known
      exact (h.stores empty known).houses.declares rfl proper.definition

/-- A table that is there stays in its place, so nothing is moved over it. -/
theorem absent_of_emplaces (h : t₀.Depicts root r cat disk.tree) (empty : t₀.EmptyRoot root r)
    (valid : Identifier.isValid d.name = true)
    (emplaces : Table.Emplaces root d sync disk disk₂ disk') : cat[d.name]? = none := by
  have leads := h.leads empty
  have step := isStep_of_isValid valid
  have hidden := h.vacant_staging d.name
  by_cases room : root.RoomFor d.name
  · obtain ⟨_, assembled, done⟩ := leads.runs_assemble step room hidden d sync
    obtain ⟨-, rfl⟩ := assembled.of_perform emplaces.assembled
    cases known : cat[d.name]? with
    | none => rfl
    | some c =>
        have differ : d.name ≠ stagingName d.name := (stagingName_ne valid d.name).symm
        have stays (inner : Place) : disk₂.tree.at? (inner ++ d.name :: r) = c.files.at? inner := by
          rw [done.same.outside _ (below?_append_cons_of_ne differ inner r), h.tables, known]
          rfl
        obtain ⟨moved, -⟩ := Disk.step_of_perform
          (c := .rename (Layout.staging root d.name) (Layout.ofTable root d.name).directory)
          (f := fun reply => reply) emplaces.moved
        rw [Disk.step_rename] at moved
        exact absurd moved (done.leads.rename_ne_ok (isStep_stagingName step) step differ.symm
          ((done.holds []).trans done.shape.directory) (stays []) (stays ["metadata.dat"]))
  · obtain ⟨_, failed, -⟩ := leads.runs_assemble_of_no_room step room hidden d sync
    cases (failed.of_perform emplaces.assembled).1

/-- What is moved to a table's place has a header that declares identifiers. -/
theorem declares_of_emplace (h : t₀.Depicts root r cat disk.tree) (empty : t₀.EmptyRoot root r)
    (proper : d.Proper) (done : disk.perform (Table.emplace root d sync) = (.ok (), disk')) :
    Table.Declares (Layout.ofTable root d.name) d.name disk' := by
  obtain ⟨_, emplaces⟩ := Table.Emplaces.of_perform done
  have absent := h.absent_of_emplaces empty proper.name emplaces
  exact ((h.leads empty).becomes_of_emplaces proper.name (h.vacant_staging _) (h.vacant absent)
    emplaces).houses.declares rfl proper

end Depicts

end FileTree

/-! ## Readiness -/

namespace Service.Agrees

variable {t₀ : FileTree} {root : Path} {r : Place} {sync : Bool} {cat : Catalog} {v w : Service}
  {s s' : Statement} {name : String}

/-- An open table keeps to the paths it is opened under. -/
theorem inside_of_table? (h : v.Agrees t₀ root r sync cat)
    {within : Path → Prop} {t : Table} (opened : v.session.table? name = some t)
    (layout : Identifier.isValid name = true → (Layout.ofTable root name).Inside within) :
    t.Inside within name := by
  obtain ⟨c, found, rfl⟩ := h.handles name t opened
  obtain ⟨valid, known, -⟩ := Catalog.find_eq_ok.1 found
  obtain ⟨rfl, proper, -, -⟩ := h.depicts.sound name c known
  have layout := layout valid
  refine ⟨rfl, layout, layout.recordFile rfl rfl, ⟨layout, fun i mem => ?_⟩,
    proper.definition.schema.valid⟩
  obtain ⟨column, indexed, rfl⟩ := List.mem_map.1 mem
  rw [Index.column_ofStored]
  exact proper.isValid indexed

/-- A service that agrees with a catalog is ready for every statement about a table. -/
theorem ready (h : v.Agrees t₀ root r sync cat) (empty : t₀.EmptyRoot root r)
    (about : s.table? = some name) : v.session.Ready (s.OwnsPath root) name v.disk := by
  have leads := h.depicts.leads empty
  have layout (valid : Identifier.isValid name = true) :
      (Layout.ofTable root name).Inside (s.OwnsPath root) :=
    Layout.inside_of_isIn (isStep_of_isValid valid) leads.ne_nil fun _ isIn =>
      ⟨name, ⟨name, about, valid, .inl rfl⟩, isIn⟩
  have hidden (valid : Identifier.isValid name = true) :
      Layout.Inside (s.OwnsPath root) ⟨Layout.staging root name⟩ :=
    Layout.inside_of_isIn (isStep_stagingName (isStep_of_isValid valid)) leads.ne_nil
      fun _ isIn => ⟨stagingName name, ⟨name, about, valid, .inr rfl⟩, isIn⟩
  have free (valid : Identifier.isValid name = true) :
      (v.disk.step (.kind (Layout.staging root name))).1 = none := by
    have absent : v.disk.tree.at? (stagingName name :: r) = none := h.depicts.vacant_staging name []
    have found := leads.step_kind_join (isStep_stagingName (isStep_of_isValid valid))
    rw [absent] at found
    exact found.trans (by split <;> rfl)
  have atRoot := h.atRoot
  constructor
  case layout => rwa [atRoot]
  case hidden => rwa [atRoot]
  case opened => exact fun t opened => h.inside_of_table? opened layout
  case declares =>
    rw [atRoot]
    exact h.depicts.declares empty
  case free => rwa [atRoot]
  case made =>
    rw [atRoot]
    rintro d disk' proper rfl done
    exact h.depicts.declares_of_emplace empty proper done

/-- The paths of a statement lead to its own places only. -/
theorem fence (h : v.Agrees t₀ root r sync cat) (empty : t₀.EmptyRoot root r) (s : Statement) :
    v.disk.tree.Fence (s.OwnsPath root) (Under r s.Owns) := by
  refine (h.depicts.leads empty).fence (fun name owns => owns.isStep) fun u same => ?_
  refine empty.leads_of_outside (same.here.trans h.depicts.here) fun p away => ?_
  rw [same.outside p, h.depicts.outside p away]
  rintro ⟨name, -, inner, rfl⟩
  have below := away name
  rw [below?_append] at below
  cases below

/-! ## Frames -/

/-- A statement keeps to its own paths, and no other table is opened, replaced or forgotten. -/
theorem confined (h : v.Agrees t₀ root r sync cat) (empty : t₀.EmptyRoot root r) (s : Statement) :
    s.execute.Confined (s.OwnsPath root) (fun _ session _ _ =>
      ∀ other, s.table? ≠ some other → session.table? other = v.session.table? other)
        v.session [] v.disk := by
  cases about : s.table? with
  | some name =>
      refine (Statement.confined_execute (h.ready empty about) about).mono ?_
      exact fun _ _ _ _ same other ne => same other fun e => ne (congrArg some e)
  | none =>
      cases s with
      | showTables => exact Statement.confined_showTables.mono fun _ _ _ _ same _ _ => by rw [same]
      | _ => cases about

/-! ## Commutation -/

/-- Statements about different tables come to the same in either order. -/
theorem comm (h : v.Agrees t₀ root r sync cat) (empty : t₀.EmptyRoot root r) {other : String}
    (about : s.table? = some name) (about' : s'.table? = some other) (ne : name ≠ other) :
    ((v.execute s').2.execute s).1 = (v.execute s).1 ∧
      ((v.execute s).2.execute s').1 = (v.execute s').1 ∧
      ∃ cat', ((v.execute s).2.execute s').2.Agrees t₀ root r sync cat' ∧
        ((v.execute s').2.execute s).2.Agrees t₀ root r sync cat' := by
  obtain ⟨first, second, same⟩ := Catalog.execute_comm root cat about about' ne
  have one := h.execute empty s
  have two := h.execute empty s'
  refine ⟨?_, ?_, _, one.execute empty s', same ▸ two.execute empty s⟩
  · rw [two.execute_eq empty, first, h.execute_eq empty]
  · rw [one.execute_eq empty, second, h.execute_eq empty]

/-- Services that agree with one catalog open the same tables. -/
theorem openTable_eq_openTable (h : v.Agrees t₀ root r sync cat)
    (h' : w.Agrees t₀ root r sync cat) (empty : t₀.EmptyRoot root r) (name : String) :
    v.openTable name = w.openTable name := by
  obtain ⟨_, opened, -⟩ := FileTree.Mirrors.runs_openTable h empty name
  obtain ⟨_, opened', -⟩ := FileTree.Mirrors.runs_openTable h' empty name
  exact (update_eq opened).1.trans (update_eq opened').1.symm

end Service.Agrees

/-! ## Isolation -/

namespace Service

/-- From an empty storage root, every call of a statement that makes, writes, moves or removes
anything does so at its own paths, whatever calls fail: in the directory of its table, if that
has an identifier for a name, or in the hidden directory in which the table is made.  Every
other place holds what it held, and every other table is open as it was or not open.  And two
statements about different tables answer the same in either order, and come to the same files
and the same tables. -/
theorem tables_isolated {d : Disk} {root : Path} {r : Place} (empty : d.tree.EmptyRoot root r)
    (sync : Bool) (events : List Event) (s : Statement) :
    let v := (start root sync d).run events
    s.execute.Confined (s.OwnsPath root) (fun _ _ _ _ => True) v.session [] v.disk ∧
      (∀ outlooks,
        let after := v.disk.updateUnder outlooks v.session s.execute
        (∀ place, ¬ Under r s.Owns place → after.2.2.tree.at? place = v.disk.tree.at? place) ∧
          ∀ other, s.table? ≠ some other → after.2.1.table? other = v.session.table? other) ∧
      ∀ s' table table', s.table? = some table → s'.table? = some table' → table ≠ table' →
        let w := ((v.execute s).2.execute s').2
        let w' := ((v.execute s').2.execute s).2
        ((v.execute s').2.execute s).1 = (v.execute s).1 ∧
          ((v.execute s).2.execute s').1 = (v.execute s').1 ∧
          w.disk.tree.Same w'.disk.tree ∧
          (∀ name, w.openTable name = w'.openTable name) ∧
          ∀ later, w.answers later = w'.answers later := by
  intro v
  have agrees : v.Agrees d.tree root r sync _ := (empty.agrees sync).run empty events
  have confined := agrees.confined empty s
  refine ⟨confined.mono fun _ _ _ _ _ => trivial, fun outlooks => ?_, ?_⟩
  · obtain ⟨same, _, sessions⟩ := (agrees.fence empty s).updateUnder confined outlooks
    exact ⟨same.outside, sessions⟩
  · intro s' table table' about about' ne w w'
    obtain ⟨first, second, _, one, two⟩ := agrees.comm empty about about' ne
    refine ⟨first, second, one.depicts.same_of_depicts two.depicts,
      one.openTable_eq_openTable two empty, fun later => ?_⟩
    exact (one.answers_eq two empty later).trans (two.answers_eq two empty later).symm

theorem tables_isolated_sample :
    ∃ (v : Service) (s s' : Statement), v = (start ⟨"db"⟩ true .prepared).run Event.sample ∧
      s.table? = some "points" ∧ s'.table? = some "lines" ∧
      s.execute.Confined (s.OwnsPath ⟨"db"⟩) (fun _ _ _ _ => True) v.session [] v.disk ∧
      (v.disk.updateUnder [] v.session s.execute).2.2.tree.at? ["db"] = v.disk.tree.at? ["db"] ∧
      ((v.execute s').2.execute s).1 = (v.execute s).1 ∧
      ((v.execute s).2.execute s').2.disk.tree.Same ((v.execute s').2.execute s).2.disk.tree := by
  obtain ⟨confined, frame, comm⟩ := tables_isolated Disk.emptyRoot_prepared true Event.sample
    (.insert "points" none [.literal (.integer 8)])
  obtain ⟨answer, -, tree, -⟩ :=
    comm (.createTable "lines" [⟨"y", .int, true⟩]) "points" "lines" rfl rfl (by decide)
  refine ⟨_, _, _, rfl, rfl, rfl, confined, (frame []).1 ["db"] ?_, answer, tree⟩
  rintro ⟨name, -, inner, same⟩
  have length := congrArg List.length same
  simp at length

end Service

end FlatDB
