/-
# Two ways of emptying a table

A deletion without a filter does not look at the records: it counts lines, cuts the data
file to nothing and clears every index at once.  A deletion with a filter reads all
records, prepares the data file anew and takes each removed record out of each index.
Where the filter accepts every record the two come to the same: the same count, the same
open table, the same bytes in every file.  That the indexes end up the same rests on what
they were before, since taking records out one by one would leave behind any id that no
record has, and any key that no record has either.
-/

import FlatDB.Proofs.Session.Reopening

namespace FlatDB

/-- It makes no difference how all records come to be removed. -/
theorem Contents.remove_congr {c : Contents} {accepts accepts' : Record → Bool}
    (same : ∀ s ∈ c.stored, accepts s.2 = accepts' s.2) : c.remove accepts = c.remove accepts' := by
  have left : c.stored.filter (fun s => !accepts s.2) = c.stored.filter fun s => !accepts' s.2 :=
    List.filter_congr fun s mem => congrArg Bool.not (same s mem)
  rw [remove, remove, left]

namespace Service

/-- Two updates of a service that cannot be told apart by what they come to: not by their results,
nor in memory, nor on the disk, nor by any answer to come. -/
structure Alike {α : Type} (x y : Except Error α × Service) : Prop where
  result : x.1 = y.1
  session : x.2.session = y.2.session
  tree : x.2.disk.tree.Same y.2.disk.tree
  answers : ∀ later, x.2.answers later = y.2.answers later

namespace Agrees

variable {t₀ : FileTree} {root : Path} {r : Place} {sync : Bool} {cat : Catalog} {v w : Service}

/-- Services that agree with one catalog give the same answers. -/
theorem answers_congr (h : v.Agrees t₀ root r sync cat) (h' : w.Agrees t₀ root r sync cat)
    (empty : t₀.EmptyRoot root r) (events : List Event) : v.answers events = w.answers events :=
  (h.answers_eq h' empty events).trans (h'.answers_eq h' empty events).symm

end Agrees

/-- From an empty storage root, after any statements and reopenings, emptying a table is the same
as removing all records that a test accepts, if it accepts all there are.  Either way they are
counted. -/
theorem deleteAll_alike_deleteWhere {d : Disk} {root : Path} (empty : d.EmptyAt root)
    (sync : Bool) (events : List Event) {name : String} {t : Table}
    (opened : ((start root sync d).run events).openTable name = .ok t) :
    let v := (start root sync d).run events
    ∃ stored, (v.disk.perform t.records.records).1 = .ok stored ∧
      (v.onTable name Table.deleteAll).1 = .ok stored.length ∧
      ∀ accepts : Record → Bool, (∀ s ∈ stored, accepts s.2 = true) →
        Alike (v.onTable name Table.deleteAll) (v.onTable name (Table.deleteWhere accepts)) := by
  obtain ⟨r, empty⟩ := empty
  intro v
  have agrees : v.Agrees d.tree root r sync _ := (empty.agrees sync).run empty events
  obtain ⟨c, found, rfl⟩ := agrees.find_of_openTable empty opened
  have stores := agrees.depicts.stores empty (Catalog.find_eq_ok.1 found).2.1
  obtain ⟨count, session, after⟩ := agrees.onTable_eq empty found (stores.runs_deleteAll sync) rfl
  refine ⟨c.stored, agrees.records_eq empty found, count, fun accepts all => ?_⟩
  have filtered := stores.runs_deleteWhere sync accepts
  rw [show c.remove accepts = c.remove fun _ => true from Contents.remove_congr all,
    List.filter_eq_self.2 all] at filtered
  obtain ⟨count', session', after'⟩ := agrees.onTable_eq empty found filtered rfl
  exact ⟨count.trans count'.symm, session.trans session'.symm,
    after.depicts.same_of_depicts after'.depicts, after.answers_congr after' empty⟩

/-- The one record of an indexed table goes either way. -/
theorem deleteAll_alike_deleteWhere_sample :
    let v := (start ⟨"db"⟩ true .prepared).run Event.sample
    ∃ t, v.openTable "points" = .ok t ∧ (v.disk.perform t.records.records).1 = .ok [(1, ⟨["7"]⟩)] ∧
      Alike (v.onTable "points" Table.deleteAll)
        (v.onTable "points" (Table.deleteWhere fun record => record.fields = ["7"])) := by
  obtain ⟨r, empty⟩ := Disk.emptyAt_prepared
  have agrees := (empty.agrees true).run empty Event.sample
  have filled : ((Catalog.run ⟨"db"⟩ ∅ Event.sample).find "points").toOption.any
      (fun c => c.stored = [(1, ⟨["7"]⟩)]) = true := by
    decide +kernel
  obtain ⟨c, found, holds⟩ := Result.exists_of_any filled
  have opened := agrees.openTable_eq empty found
  obtain ⟨stored, read, -, alike⟩ :=
    deleteAll_alike_deleteWhere Disk.emptyAt_prepared true Event.sample opened
  obtain rfl : c.stored = stored := Except.ok.inj ((agrees.records_eq empty found).symm.trans read)
  rw [of_decide_eq_true holds] at read alike
  exact ⟨_, opened, read, alike _ (by simp)⟩

end Service

end FlatDB
