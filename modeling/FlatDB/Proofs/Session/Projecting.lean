/-
# Selections of listed columns

A selection that lists columns answers what the selection of everything with the same filter
answers, restricted to the columns of the list.  So filters and lists can be judged apart: which
rows there are depends on the filter alone and which columns on the list alone, and a list at
fault is noticed only behind a filter that is accepted.  This rests on what every reachable table
holds, one field for each of its columns in every record.
-/

import FlatDB.Proofs.Query.Projecting
import FlatDB.Proofs.Session.RowRefinement

namespace FlatDB

namespace Service

/-- From an empty storage root, after any statements and reopenings, a selection that lists
columns of a table projects the selection of everything with the same filter, and that one is
refused for its filter or not at all. -/
theorem selections_project {d : Disk} {root : Path} (empty : d.EmptyAt root) (sync : Bool)
    (events : List Event) {name : String} {t : Table}
    (opened : ((start root sync d).run events).openTable name = .ok t) (items : List SelectItem)
    (filter : Option Expr) :
    let v := (start root sync d).run events
    let whole := (v.execute (.select name [.wildcard] filter)).1
    t.definition.Projects items whole (v.execute (.select name items filter)).1 ∧
      ∀ e, whole = .error e ↔ Predicate.ofFilter t.definition filter = .error e := by
  obtain ⟨r, empty⟩ := empty
  intro v whole
  have agrees : v.Agrees d.tree root r sync _ := (empty.agrees sync).run empty events
  obtain ⟨c, found, rfl⟩ := agrees.find_of_openTable empty opened
  have selects (items : List SelectItem) :
      (v.execute (.select name items filter)).1 = c.selectFrom items filter := by
    rw [agrees.execute_eq empty]
    exact congrArg (· >>= fun c => c.selectFrom items filter) found
  have everything : whole = c.selectFrom [.wildcard] filter := selects [.wildcard]
  rw [selects, everything]
  refine ⟨Contents.projects_selectFrom (agrees.belongs found).proper items filter, fun e => ?_⟩
  rw [Contents.selectFrom_wildcard]
  show _ ↔ Predicate.ofFilter c.definition filter = .error e
  cases Predicate.ofFilter c.definition filter <;> simp [Except.map]

/-- Columns in another order, one of them under a label. -/
theorem selections_project_labelled :
    let events := [
      .statement (.createTable "people" [⟨"id", .int, false⟩, ⟨"name", .char 8, true⟩]),
      .statement (.insert "people" none [.literal (.integer 1), .literal (.text "Ada")]),
      .statement (.insert "people" none [.literal (.integer 2), .literal (.text "Grace")]),
      .statement (.createIndex "people" "by_id" ["id"])]
    let v := (start ⟨"db"⟩ true .prepared).run events
    let items := [.expr (.column ⟨none, "name"⟩) (some "who"), .expr (.column ⟨none, "id"⟩) none]
    let filter := some (.binary .eq (.column ⟨none, "id"⟩) (.literal (.integer 2)))
    let whole := { Answer.ofRows ["id", "name"] [["2", "Grace"]] with usedIndex := true }
    let listed := { Answer.ofRows ["who", "id"] [["Grace", "2"]] with usedIndex := true }
    (v.execute (.select "people" [.wildcard] filter)).1 = .ok whole ∧
      (v.execute (.select "people" items filter)).1 = .ok listed ∧ listed.widths = [7, 4] ∧
      ∃ t, v.openTable "people" = .ok t ∧ t.definition.Projects items (.ok whole) (.ok listed) := by
  intro events v items filter whole listed
  obtain ⟨r, empty⟩ := Disk.emptyAt_prepared
  have agrees := (empty.agrees true).run empty events
  have everything : (v.execute (.select "people" [.wildcard] filter)).1 = .ok whole := by
    rw [agrees.execute_eq empty]
    decide +kernel
  have part : (v.execute (.select "people" items filter)).1 = .ok listed := by
    rw [agrees.execute_eq empty]
    decide +kernel
  have known : ((Catalog.run ⟨"db"⟩ ∅ events).find "people").isOk = true := by decide +kernel
  obtain ⟨c, found⟩ := Result.isOk_iff.1 known
  have opened : v.openTable "people" = _ := agrees.openTable_eq empty found
  obtain ⟨projects, -⟩ :=
    selections_project Disk.emptyAt_prepared true events opened items filter
  rw [show ((start ⟨"db"⟩ true .prepared).run events) = v from rfl, everything, part] at projects
  exact ⟨everything, part, rfl, _, opened, projects⟩

end Service

end FlatDB
