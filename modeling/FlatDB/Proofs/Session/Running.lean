/-
# Runs

A service is a session together with the disk it works on.  What happens to it is
that it executes statements and, now and then, that it is opened anew and all open
tables are forgotten.  Nothing is assumed about the order of these events.

A run of a service and the run of a catalog over the same events go together: the
service answers what the catalog answers, and session and disk agree with the
catalog all along.  So what is to be said of runs of services can be said of runs
of catalogs.
-/

import FlatDB.Proofs.Session.Execution

namespace FlatDB

/-- A session at work on a disk. -/
structure Service where
  /-- The session. -/
  session : Session
  /-- The disk. -/
  disk : Disk

/-- What happens to a service. -/
inductive Event where
  | statement (s : Statement)
  /-- All open tables are forgotten. -/
  | reopening

namespace Service

/-- A service in which no table is open. -/
def start (root : Path) (sync : Bool) (disk : Disk) : Service :=
  ⟨.start root sync, disk⟩

/-- Execute a statement. -/
def execute (v : Service) (s : Statement) : Except Error Answer × Service :=
  let (answer, session, disk) := v.disk.update v.session s.execute
  (answer, ⟨session, disk⟩)

/-- Update a table, which is opened if it has to be. -/
def onTable {α : Type} (v : Service) (name : String) (u : Update Table α) :
    Except Error α × Service :=
  let (result, session, disk) := v.disk.update v.session (Session.onTable name u)
  (result, ⟨session, disk⟩)

/-- The table of a name, opened if it has to be. -/
def openTable (v : Service) (name : String) : Except Error Table :=
  (v.disk.update v.session (Session.openTable name)).1

/-- The session once a table is open. -/
def sessionWith (v : Service) (name : String) : Session :=
  (v.disk.update v.session (Session.openTable name)).2.1

/-- Forget all open tables. -/
def reopen (v : Service) : Service :=
  { v with session := .start v.session.root v.session.sync }

/-- The service after an event. -/
def after (v : Service) : Event → Service
  | .statement s => (v.execute s).2
  | .reopening => v.reopen

/-- The service after some events. -/
def run (v : Service) (events : List Event) : Service :=
  events.foldl after v

/-- The statements among some events, each with the service that executes it. -/
def trace : Service → List Event → List (Service × Statement)
  | _, [] => []
  | v, .statement s :: events => (v, s) :: trace (v.execute s).2 events
  | v, .reopening :: events => trace v.reopen events

/-- The answers to the statements among some events. -/
def answers (v : Service) (events : List Event) : List (Except Error Answer) :=
  (v.trace events).map fun (w, s) => (w.execute s).1

/-- A statement that follows some events is executed by the service after them. -/
theorem mem_trace (v : Service) (events : List Event) (s : Statement) (later : List Event) :
    (v.run events, s) ∈ v.trace (events ++ .statement s :: later) := by
  induction events generalizing v with
  | nil => exact List.mem_cons_self
  | cons e events ih =>
      cases e with
      | reopening => exact ih v.reopen
      | statement first => exact List.mem_cons_of_mem _ (ih (v.execute first).2)

end Service

/-! ## Runs of catalogs -/

namespace Catalog

/-- The catalog after an event. -/
def after (root : Path) (cat : Catalog) : Event → Catalog
  | .statement s => (cat.execute root s).2
  | .reopening => cat

/-- The catalog after some events. -/
def run (root : Path) (cat : Catalog) (events : List Event) : Catalog :=
  events.foldl (after root) cat

end Catalog

/-! ## The simulation -/

/-- A disk on which the storage root is there and holds nothing. -/
def Disk.EmptyAt (d : Disk) (root : Path) : Prop :=
  ∃ r, d.tree.EmptyRoot root r

/-- A disk on which there is only a directory for tables. -/
def Disk.prepared : Disk :=
  ⟨FileTree.empty.put ["db"] .directory, []⟩

theorem Disk.emptyRoot_prepared : Disk.prepared.tree.EmptyRoot ⟨"db"⟩ ["db"] := by
  refine ⟨⟨by decide, by decide⟩, fun name inner => ?_⟩
  have elsewhere : inner ++ [name, "db"] ≠ ["db"] := by
    intro same
    have length := congrArg List.length same
    simp at length
  rw [prepared, FileTree.at?_put FileTree.empty (by decide), if_neg elsewhere]
  simp [FileTree.empty, FileTree.at?]

theorem Disk.emptyAt_prepared : Disk.prepared.EmptyAt ⟨"db"⟩ :=
  ⟨["db"], emptyRoot_prepared⟩

/-- A service that agrees with a catalog. -/
def Service.Agrees (t₀ : FileTree) (root : Path) (r : Place) (sync : Bool) (cat : Catalog)
    (v : Service) : Prop :=
  t₀.Mirrors root r sync cat v.session v.disk.tree

namespace Service.Agrees

variable {t₀ : FileTree} {root : Path} {r : Place} {sync : Bool} {cat : Catalog} {v : Service}

/-- An update of the session that is known to run from the tree runs on the disk. -/
theorem update_eq {α : Type} {u : Update Session α} {result : Except Error α} {s' : Session}
    {t' : FileTree} (runs : u.Runs v.session v.disk.tree result s' t') :
    (v.disk.update v.session u).1 = result ∧ (v.disk.update v.session u).2.1 = s' ∧
      (v.disk.update v.session u).2.2.tree = t' := by
  obtain ⟨waiting, done⟩ := runs v.disk.waiting
  rw [show (v.disk.update v.session u) = (result, s', ⟨t', waiting⟩) from done]
  exact ⟨rfl, rfl, rfl⟩

/-- An action that is known to run from the tree runs on the disk. -/
theorem perform_eq {α : Type} {a : Action α} {result : Except Error α} {t' : FileTree}
    (runs : a.Runs v.disk.tree result t') :
    (v.disk.perform a).1 = result ∧ (v.disk.perform a).2.tree = t' := by
  obtain ⟨waiting, done⟩ := runs v.disk.waiting
  rw [show v.disk.perform a = (result, ⟨t', waiting⟩) from done]
  exact ⟨rfl, rfl⟩

/-- The service answers what the catalog answers. -/
theorem execute_eq (h : v.Agrees t₀ root r sync cat) (empty : t₀.EmptyRoot root r)
    (s : Statement) : (v.execute s).1 = (cat.execute root s).1 := by
  obtain ⟨s', t', runs, -⟩ := FileTree.Mirrors.runs_execute h empty s
  exact (update_eq runs).1

theorem execute (h : v.Agrees t₀ root r sync cat) (empty : t₀.EmptyRoot root r) (s : Statement) :
    (v.execute s).2.Agrees t₀ root r sync (cat.execute root s).2 := by
  obtain ⟨s', t', runs, mirrors⟩ := FileTree.Mirrors.runs_execute h empty s
  obtain ⟨-, session, tree⟩ := update_eq runs
  unfold Agrees Service.execute
  rw [← session, ← tree] at mirrors
  exact mirrors

/-- The service opens the tables of the catalog. -/
theorem openTable_eq (h : v.Agrees t₀ root r sync cat) (empty : t₀.EmptyRoot root r)
    {name : String} {c : Contents} (found : cat.find name = .ok c) :
    v.openTable name = .ok (c.handle root sync) := by
  obtain ⟨s', opened, -⟩ := FileTree.Mirrors.runs_openTable h empty name
  rw [found] at opened
  exact (update_eq opened).1

/-- A table that can be opened is in the catalog. -/
theorem find_of_openTable (h : v.Agrees t₀ root r sync cat) (empty : t₀.EmptyRoot root r)
    {name : String} {t : Table} (opened : v.openTable name = .ok t) :
    ∃ c, cat.find name = .ok c ∧ t = c.handle root sync := by
  obtain ⟨s', opens, -⟩ := FileTree.Mirrors.runs_openTable h empty name
  obtain ⟨c, found, same⟩ := Result.bind_eq_ok.1 ((update_eq opens).1.symm.trans opened)
  exact ⟨c, found, (Except.ok.inj same).symm⟩

/-- The records of a table are those of the catalog. -/
theorem records_eq (h : v.Agrees t₀ root r sync cat) (empty : t₀.EmptyRoot root r) {name : String}
    {c : Contents} (found : cat.find name = .ok c) :
    (v.disk.perform (c.handle root sync).records.records).1 = .ok c.stored :=
  (perform_eq ((h.depicts.stores empty (Catalog.find_eq_ok.1 found).2.1).runs_records sync)).1

/-- What an update comes to on the contents of a table it comes to in a service: the contents
determine the result, the session afterwards and the catalog it then agrees with. -/
theorem onTable_eq (h : v.Agrees t₀ root r sync cat) (empty : t₀.EmptyRoot root r) {name : String}
    {c c' : Contents} (found : cat.find name = .ok c) {α : Type} {u : Update Table α}
    {result : Except Error α}
    (does : ∃ t', u.Runs (c.handle root sync) v.disk.tree result (c'.handle root sync) t' ∧
      v.disk.tree.Turns root r c' t') (same : c'.definition = c.definition) :
    (v.onTable name u).1 = result ∧
      (v.onTable name u).2.session = (v.sessionWith name).keep (c'.handle root sync) ∧
      (v.onTable name u).2.Agrees t₀ root r sync (cat.insert name c') := by
  obtain ⟨t', done, turns⟩ := does
  obtain ⟨s', opened, mirrors⟩ := FileTree.Mirrors.runs_openTable h empty name
  rw [found] at opened
  have named : c'.name = name := (congrArg Definition.name same).trans
    (h.depicts.sound name c (Catalog.find_eq_ok.1 found).2.1).named
  have updated : (Session.onTable name u).Runs v.session v.disk.tree result
      (s'.keep (c'.handle root sync)) t' := .bind opened (.onPart done)
  obtain ⟨answer, session, tree⟩ := update_eq updated
  refine ⟨answer, ?_, ?_⟩
  · rw [sessionWith, (update_eq opened).2.1]
    exact session
  · have after := mirrors.turn named (Catalog.find_insert_self found same) turns
    rw [← session, ← tree] at after
    exact after

/-- One event keeps service and catalog in agreement. -/
theorem after (h : v.Agrees t₀ root r sync cat) (empty : t₀.EmptyRoot root r) (e : Event) :
    (v.after e).Agrees t₀ root r sync (cat.after root e) := by
  cases e with
  | statement s => exact h.execute empty s
  | reopening => exact FileTree.Mirrors.start h

/-- So does a run. -/
theorem run (h : v.Agrees t₀ root r sync cat) (empty : t₀.EmptyRoot root r)
    (events : List Event) : (v.run events).Agrees t₀ root r sync (cat.run root events) := by
  induction events generalizing v cat with
  | nil => exact h
  | cons e events ih => exact ih (h.after empty e)

/-- Whatever statement is executed along a run, the service that executes it agrees with some
catalog. -/
theorem of_mem_trace (h : v.Agrees t₀ root r sync cat) (empty : t₀.EmptyRoot root r)
    {events : List Event} {w : Service} {s : Statement} (mem : (w, s) ∈ v.trace events) :
    ∃ cat', w.Agrees t₀ root r sync cat' := by
  induction events generalizing v cat with
  | nil => cases mem
  | cons e events ih =>
      cases e with
      | reopening => exact ih (h.after empty .reopening) mem
      | statement first =>
          rcases List.mem_cons.1 mem with same | later
          · cases same
            exact ⟨cat, h⟩
          · exact ih (h.execute empty first) later

end Service.Agrees

/-- A service that starts with an empty root agrees with the catalog without tables. -/
theorem FileTree.EmptyRoot.agrees {d : Disk} {root : Path} {r : Place}
    (empty : d.tree.EmptyRoot root r) (sync : Bool) :
    (Service.start root sync d).Agrees d.tree root r sync ∅ :=
  empty.mirrors sync

/-! ## A run -/

/-- A table is made, forgotten, filled and given an index. -/
def Event.sample : List Event :=
  [.statement (.createTable "points" [⟨"x", .int, true⟩]),
    .reopening,
    .statement (.insert "points" none [.literal (.integer 7)]),
    .statement (.createIndex "points" "by_x" ["x"])]

theorem Service.any_table?_sample :
    (((start ⟨"db"⟩ true .prepared).run Event.sample).session.table? "points").any
      (fun t => (t.index? "x").isSome) = true := by
  decide +kernel

end FlatDB
