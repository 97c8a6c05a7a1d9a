/-
# Harm to indexes is undone

Whatever statements have been executed, the files of a table's indexes can be taken away
or overwritten with something else: when the table is opened the next time, it is what it
was, and so is every file.  What is in an index follows from the records alone, and so
does the text it is written as, whatever history of insertions, changes and removals the
index that was lost had gone through.
-/

import FlatDB.Proofs.Session.Running
import FlatDB.Proofs.Table.Healing

namespace FlatDB

namespace Service

/-- From an empty storage root, after any statements and reopenings, harm to any of the
indexes of a table does not keep the table from being opened.  It is opened with the same
indexes as before, and all files are then the same as before the harm was done. -/
theorem indexes_heal {d d' : Disk} {root : Path} (empty : d.EmptyAt root) (sync : Bool)
    (events : List Event) {name : String} {t : Table}
    (opened : ((start root sync d).run events).openTable name = .ok t)
    (harmed : t.Harmed ((start root sync d).run events).disk.tree d'.tree) :
    (d'.perform (Table.load root name sync)).1 = .ok t ∧
      ((start root sync d).run events).disk.tree.Same
        (d'.perform (Table.load root name sync)).2.tree := by
  obtain ⟨r, empty⟩ := empty
  have agrees := (empty.agrees sync).run empty events
  obtain ⟨c, found, rfl⟩ := agrees.find_of_openTable empty opened
  obtain ⟨-, known, definition, read⟩ := Catalog.find_eq_ok.1 found
  have stores := agrees.depicts.stores empty known
  obtain rfl := (agrees.depicts.sound name c known).named
  have fits : Header.Fits c.definition := by
    by_contra unfit
    obtain ⟨damage, unread⟩ := Header.reread_of_not_fits stores.proper.definition unfit
    cases read.symm.trans unread
  obtain ⟨t', loads, same⟩ := stores.runs_load_of_harmed fits harmed
  obtain ⟨waiting, loaded⟩ := loads d'.waiting
  rw [show d'.perform (Table.load root c.name sync) = (_, ⟨t', waiting⟩) from loaded]
  exact ⟨rfl, same⟩

/-- The document of an index of another column. -/
theorem isForeign_other : Index.IsForeign "x" (Utf8.encode (Index.empty "y" 0).text) := by
  intro position i read
  have other := Index.ofBytes?_text position (Index.empty "y" 0)
  cases other.symm.trans read
  show "y" ≠ "x"
  decide

/-- The file of the only index is overwritten by that of an index of another column. -/
theorem indexes_heal_sample :
    let v := (start ⟨"db"⟩ true .prepared).run Event.sample
    let file : Place := ["x.idx", "indexes", "points", "db"]
    let foreign : Entry := .file (Utf8.encode (Index.empty "y" 0).text)
    let d' := v.disk.put file foreign
    v.disk.tree.at? file ≠ some foreign ∧ ∃ t, v.openTable "points" = .ok t ∧
      t.Harmed v.disk.tree d'.tree ∧ (d'.perform (Table.load ⟨"db"⟩ "points" true)).1 = .ok t ∧
      v.disk.tree.Same (d'.perform (Table.load ⟨"db"⟩ "points" true)).2.tree := by
  intro v file foreign d'
  have indexed : (v.openTable "points").toOption.any (fun t =>
      v.disk.tree.at? file ≠ some foreign && t.indexes.indexes.any fun i =>
        i.column = "x" && v.disk.tree.place (t.layout.index i.column) = .ok file) = true := by
    decide +kernel
  obtain ⟨t, opened, holds⟩ := Result.exists_of_any indexed
  simp only [Bool.and_eq_true, decide_eq_true_eq, List.any_eq_true] at holds
  obtain ⟨changed, i, mem, column, placed⟩ := holds
  have harmed : t.Harmed v.disk.tree d'.tree :=
    .put mem (List.cons_ne_nil _ _) placed (column ▸ isForeign_other)
  obtain ⟨loaded, same⟩ := indexes_heal Disk.emptyAt_prepared true Event.sample opened harmed
  exact ⟨changed, t, opened, harmed, loaded, same⟩

end Service

end FlatDB
