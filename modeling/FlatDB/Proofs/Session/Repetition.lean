/-
# An update that is repeated

An update that is executed again at once is accepted again and changes nothing more, even
if its filter looks at the very column that it sets and picks other rows the second time.
What the filter accepts the second time was either set the first time, or is as it was and
was accepted then and so has been set as well.  So no text changes, and neither the data file nor an
index is written.
-/

import FlatDB.Proofs.Query.Literals
import FlatDB.Proofs.Session.Running

namespace FlatDB

/-! ## Contents -/

/-- An update that changes no text leaves the open table and the tree as they are. -/
theorem FileTree.Stores.runs_updateRows_of_unchanged {t : FileTree} {root : Path} {r : Place}
    {c : Contents} (h : t.Stores root r c) (sync : Bool) {assignments : List Assignment}
    {filter : Option Expr} {column : Column} {value : String} {predicate : Option Predicate}
    (assigned : Statement.assignmentOf c.definition assignments = .ok (column, value))
    (checked : Predicate.ofFilter c.definition filter = .ok predicate)
    (unchanged : (c.changes (Predicate.acceptedBy predicate) column value).any
      (fun c => c.old ≠ c.new) = false) :
    ∃ answer, (Statement.updateRows assignments filter).Runs (c.handle root sync) t (.ok answer)
      (c.handle root sync) t := by
  obtain ⟨mem, admits⟩ := Statement.of_assignmentOf assigned
  have updated := h.runs_updateWhere_of_unchanged sync mem admits unchanged
  exact ⟨_, .bind_get (.bind (.ofAction (.ofResult_of_eq assigned t) _)
    (.bind (.ofAction (.ofResult_of_eq checked t) _) (.bind updated (.pure _ _ _))))⟩

/-- Once an update has been accepted the same update is accepted again and changes nothing. -/
theorem FileTree.Stores.runs_updateRows_again {t : FileTree} {root : Path} {r : Place}
    {c : Contents} {assignments : List Assignment} {filter : Option Expr} {first : Answer}
    (h : t.Stores root r (c.updateRows assignments filter).2) (proper : c.Proper) (sync : Bool)
    (accepted : (c.updateRows assignments filter).1 = .ok first) :
    ∃ answer, (Statement.updateRows assignments filter).Runs
      ((c.updateRows assignments filter).2.handle root sync) t (.ok answer)
      ((c.updateRows assignments filter).2.handle root sync) t := by
  rcases c.updateRows_cases assignments filter with
    ⟨e, refused⟩ | ⟨a, column, text, predicate, message, rfl, known, stored, checked, done⟩
  · rw [refused] at accepted
    cases accepted
  · rw [done] at h ⊢
    have mem := Schema.mem_of_column? (Definition.column_eq_ok.1 known)
    have assigned := (Statement.assignmentOf_eq_ok known).2 stored
    exact h.runs_updateRows_of_unchanged sync assigned checked
      (Contents.changes_assign proper mem)

/-! ## Services -/

namespace Service

/-- An update of an open table that leaves table and tree as they are leaves the whole service
so. -/
theorem onTable_of_open {v : Service} {t : Table} (opened : v.session.table? t.name = some t)
    {α : Type} {u : Update Table α} {result : Except Error α}
    (does : u.Runs t v.disk.tree result t v.disk.tree) :
    (v.onTable t.name u).1 = result ∧ (v.onTable t.name u).2.session = v.session ∧
      (v.onTable t.name u).2.disk.tree = v.disk.tree := by
  have open' : (Session.openTable t.name).Runs v.session v.disk.tree (.ok t) v.session
      v.disk.tree := by
    refine .bind_get ?_
    simp only [opened]
    exact .pure _ _ _
  have updated : (Session.onTable t.name u).Runs v.session v.disk.tree result (v.session.keep t)
      v.disk.tree := .bind open' (.onPart does)
  rw [Session.keep_eq_self opened] at updated
  exact Agrees.update_eq updated

/-- What is done to a table a second time leaves the whole service as it is, if it leaves the
contents alone that it has made the first time. -/
theorem Agrees.onTable_again {t₀ : FileTree} {root : Path} {r : Place} {sync : Bool}
    {cat : Catalog} {v : Service} (h : v.Agrees t₀ root r sync cat) (empty : t₀.EmptyRoot root r)
    {name : String} {c c' : Contents} (found : cat.find name = .ok c) {α : Type}
    {u : Update Table α} {result : Except Error α}
    (does : ∃ t', u.Runs (c.handle root sync) v.disk.tree result (c'.handle root sync) t' ∧
      v.disk.tree.Turns root r c' t') (same : c'.definition = c.definition)
    (settled : ∀ t : FileTree, t.Stores root r c' →
      ∃ answer, u.Runs (c'.handle root sync) t (.ok answer) (c'.handle root sync) t) :
    let w := (v.onTable name u).2
    (w.onTable name u).1.isOk ∧ (w.onTable name u).2.session = w.session ∧
      (w.onTable name u).2.disk.tree = w.disk.tree := by
  intro w
  obtain ⟨-, session, after⟩ := h.onTable_eq empty found does same
  have named : c'.name = name := (congrArg Definition.name same).trans
    (h.depicts.sound name c (Catalog.find_eq_ok.1 found).2.1).named
  have opened : w.session.table? c'.name = some (c'.handle root sync) := by
    rw [session, Session.table?_keep]
    exact if_pos rfl
  have known := Catalog.find_insert_self found same
  obtain ⟨answer, again⟩ := settled _ (after.depicts.stores empty (Catalog.find_eq_ok.1 known).2.1)
  obtain ⟨accepted, kept, unchanged⟩ := onTable_of_open opened again
  rw [← named]
  exact ⟨Result.isOk_iff.2 ⟨answer, accepted⟩, kept, unchanged⟩

/-- From an empty storage root, after any statements and reopenings, an update that is accepted
is accepted again when it is repeated, and what is open in memory and every file then stay
exactly as they are. -/
theorem update_idempotent {d : Disk} {root : Path} (empty : d.EmptyAt root) (sync : Bool)
    (events : List Event) (table : String) (assignments : List Assignment) (filter : Option Expr)
    (accepted : (((start root sync d).run events).execute
      (.update table assignments filter)).1.isOk) :
    let v := (((start root sync d).run events).execute (.update table assignments filter)).2
    (v.execute (.update table assignments filter)).1.isOk ∧
      (v.execute (.update table assignments filter)).2.session = v.session ∧
      (v.execute (.update table assignments filter)).2.disk.tree = v.disk.tree := by
  obtain ⟨r, empty⟩ := empty
  have agrees := (empty.agrees sync).run empty events
  rw [agrees.execute_eq empty] at accepted
  obtain ⟨answer, accepted⟩ := Result.isOk_iff.1 accepted
  obtain ⟨c, found, accepted, -⟩ := Catalog.onTable_eq_of_ok accepted
  have known := (Catalog.find_eq_ok.1 found).2.1
  have proper := (agrees.depicts.sound table c known).proper
  have first := (agrees.depicts.stores empty known).runs_updateRows sync assignments filter
  exact agrees.onTable_again empty found first (c.definition_updateRows assignments filter)
    fun _ stores => stores.runs_updateRows_again proper sync accepted

/-- An indexed column is set by a filter on itself, which accepts no row the second time. -/
theorem update_idempotent_sample :
    let v := (start ⟨"db"⟩ true .prepared).run Event.sample
    let update : Statement := .update "points" [⟨"x", .literal (.integer 8)⟩]
      (some (.binary .eq (.column ⟨none, "x"⟩) (.literal (.integer 7))))
    let w := (v.execute update).2
    (w.execute update).1.isOk ∧ (w.execute update).2.session = w.session ∧
      (w.execute update).2.disk.tree = w.disk.tree := by
  obtain ⟨r, empty⟩ := Disk.emptyAt_prepared
  have agrees := (empty.agrees true).run empty Event.sample
  refine update_idempotent Disk.emptyAt_prepared true Event.sample _ _ _ ?_
  rw [agrees.execute_eq empty]
  decide +kernel

end Service

end FlatDB
