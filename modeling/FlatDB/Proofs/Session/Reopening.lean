/-
# Opening anew makes no difference

A service may forget all its open tables at any time.  No answer depends on that,
and nothing on the disk does either, because whatever an operation leaves in memory
it has also written: an open table is, down to the order of its indexes and what is
under each of their keys, the table that opening it again would yield.
-/

import FlatDB.Proofs.Session.Running

namespace FlatDB

/-- Whether an event is a statement. -/
def Event.isStatement : Event → Bool
  | .statement _ => true
  | .reopening => false

/-- A catalog does not notice when tables are forgotten. -/
theorem Catalog.run_filter_isStatement (root : Path) (cat : Catalog) (events : List Event) :
    cat.run root (events.filter Event.isStatement) = cat.run root events := by
  induction events generalizing cat with
  | nil => rfl
  | cons e events ih =>
      cases e with
      | reopening => exact ih cat
      | statement s => exact ih (cat.execute root s).2

/-- Trees that depict one catalog are the same. -/
theorem FileTree.Depicts.same_of_depicts {t₀ t t' : FileTree} {root : Path} {r : Place}
    {cat : Catalog} (h : t₀.Depicts root r cat t) (h' : t₀.Depicts root r cat t') : t.Same t' :=
  ⟨h'.here.trans h.here.symm, h.at?_eq h'⟩

namespace Service

namespace Agrees

variable {t₀ : FileTree} {root : Path} {r : Place} {sync : Bool} {cat : Catalog} {v w : Service}

/-- Services that agree with one catalog give the same answers, whenever either of them is
opened anew. -/
theorem answers_eq (h : v.Agrees t₀ root r sync cat) (h' : w.Agrees t₀ root r sync cat)
    (empty : t₀.EmptyRoot root r) (events : List Event) :
    v.answers events = w.answers (events.filter Event.isStatement) := by
  induction events generalizing v w cat with
  | nil => rfl
  | cons e events ih =>
      cases e with
      | reopening => exact ih (h.after empty .reopening) h'
      | statement s =>
          have first : (v.execute s).1 = (w.execute s).1 :=
            (h.execute_eq empty s).trans (h'.execute_eq empty s).symm
          have later := ih (h.execute empty s) (h'.execute empty s)
          exact congrArg₂ List.cons first later

/-- An open table is what opening it again yields. -/
theorem load_eq (h : v.Agrees t₀ root r sync cat) (empty : t₀.EmptyRoot root r) {name : String}
    {t : Table} (opened : v.session.table? name = some t) :
    (v.disk.perform (Table.load root name sync)).1 = .ok t ∧
      (v.disk.perform (Table.load root name sync)).2.tree = v.disk.tree := by
  obtain ⟨c, found, rfl⟩ := h.handles name t opened
  have loads := h.depicts.runs_load empty name sync
  rw [found] at loads
  exact perform_eq loads

end Agrees

/-- From an empty storage root, forgetting the open tables now and then changes no answer and
nothing on the disk.  And an open table is the same as the table that is opened anew, which
leaves the disk as it is. -/
theorem reopening_transparent {d : Disk} {root : Path} (empty : d.EmptyAt root) (sync : Bool)
    (events : List Event) :
    let v := start root sync d
    let statements := events.filter Event.isStatement
    v.answers events = v.answers statements ∧
      (v.run statements).disk.tree.Same (v.run events).disk.tree ∧
      ∀ name t, (v.run events).session.table? name = some t →
        ((v.run events).disk.perform (Table.load root name sync)).1 = .ok t ∧
          ((v.run events).disk.perform (Table.load root name sync)).2.tree =
            (v.run events).disk.tree := by
  obtain ⟨r, empty⟩ := empty
  have agrees := empty.agrees sync
  have ran := agrees.run empty events
  have settled := agrees.run empty (events.filter Event.isStatement)
  rw [Catalog.run_filter_isStatement] at settled
  refine ⟨agrees.answers_eq agrees empty events, settled.depicts.same_of_depicts ran.depicts, ?_⟩
  intro name t opened
  exact ran.load_eq empty opened

theorem reopening_transparent_sample :
    let v := start ⟨"db"⟩ true .prepared
    let statements := Event.sample.filter Event.isStatement
    v.answers Event.sample = v.answers statements ∧
      (v.run statements).disk.tree.Same (v.run Event.sample).disk.tree ∧
      ∃ t, (v.run Event.sample).session.table? "points" = some t ∧
        ((v.run Event.sample).disk.perform (Table.load ⟨"db"⟩ "points" true)).1 = .ok t := by
  obtain ⟨t, opened, -⟩ := (Option.any_eq_true _ _).1 any_table?_sample
  obtain ⟨answers, tree, load⟩ := reopening_transparent Disk.emptyAt_prepared true Event.sample
  exact ⟨answers, tree, t, opened, (load "points" t opened).1⟩

end Service

end FlatDB
