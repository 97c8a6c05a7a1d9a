/-
# Indexes agree with records

Whatever has happened to a service, the indexes of every open table say what its
records say: under each key exactly the ids of the records that have it.  There is
at most one index for a column, and only for integer columns.  And the file of an
index describes the index as it is in memory, so nothing is lost when the table is
forgotten.
-/

import FlatDB.Proofs.Session.Running

namespace FlatDB

/-- An index that says of a column what the records say: a key leads to the ids of the
records that have it, and to nothing if there are none. -/
structure Index.Faithful (i : Index) (c : Column) (stored : List Stored) : Prop where
  column : i.column = c.name
  position : i.position = c.position
  absent : ∀ key, i.lookup? key = none ↔ ∀ s ∈ stored, s.2.key? c.position ≠ some key
  present : ∀ key ids, i.lookup? key = some ids →
    ∀ id, id ∈ ids ↔ ∃ s ∈ stored, s.1 = id ∧ s.2.key? c.position = some key

/-- An open table whose indexes agree with its data file and with their own files. -/
structure Table.Consistent (t : Table) (d : Disk) : Prop where
  /-- All records can be read, and every index is about an integer column and faithful. -/
  faithful : ∃ stored, (d.perform t.scan).1 = .ok (stored.map .ok) ∧
    ∀ i ∈ t.indexes.indexes, ∃ c ∈ t.schema.columns, c.type = .int ∧ i.Faithful c stored
  /-- No column has two indexes. -/
  distinct : (t.indexes.indexes.map Index.column).Nodup
  /-- The file of an index describes it. -/
  filed : ∀ i ∈ t.indexes.indexes, ∃ bytes,
    (d.perform (Action.ask (.read (t.layout.index i.column)))).1 = .ok (.ok (.content bytes)) ∧
      Index.ofBytes? i.position bytes = some i

/-- The index made from the records is faithful to them. -/
theorem Index.faithful_ofStored (c : Column) (stored : List Stored) :
    (Index.ofStored c stored).Faithful c stored := by
  refine ⟨Index.column_ofStored c stored, Index.position_ofStored c stored, fun key => ?_, ?_⟩
  · have under := Index.lookup?_ofStored c stored key
    cases found : (Index.ofStored c stored).lookup? key with
    | none =>
        rw [found] at under
        exact ⟨fun _ => under, fun _ => rfl⟩
    | some ids =>
        rw [found] at under
        obtain ⟨⟨id, held⟩, among⟩ := under
        obtain ⟨s, mem, -, has⟩ := (among id).1 held
        apply iff_of_false (by simp)
        intro unheld
        exact unheld s mem has
  · intro key ids found
    have under := Index.lookup?_ofStored c stored key
    rw [found] at under
    exact under.2

/-- The index made from the records is read back from its own text. -/
theorem Index.ofBytes?_ofStored (c : Column) (stored : List Stored) :
    Index.ofBytes? (Index.ofStored c stored).position (Utf8.encode (Index.ofStored c stored).text) =
      some (Index.ofStored c stored) := by
  generalize Index.ofStored c stored = i
  rw [Index.ofBytes?_text]

namespace Service.Agrees

variable {t₀ : FileTree} {root : Path} {r : Place} {sync : Bool} {cat : Catalog} {v : Service}

/-- What is open in a service that agrees with a catalog is consistent. -/
theorem consistent (h : v.Agrees t₀ root r sync cat) (empty : t₀.EmptyRoot root r) {name : String}
    {t : Table} (opened : v.session.table? name = some t) : t.Consistent v.disk := by
  obtain ⟨c, found, rfl⟩ := h.handles name t opened
  have stores := h.depicts.stores empty (Catalog.find_eq_ok.1 found).2.1
  have names : (c.handle root sync).indexes.indexes.map Index.column = c.indexedNames := by
    show (c.indexed.map _).map Index.column = _
    rw [List.map_map]
    exact List.map_congr_left fun column _ => Index.column_ofStored column c.stored
  refine ⟨⟨c.stored, (perform_eq (stores.runs_scan sync)).1, ?_⟩, names ▸ stores.proper.distinct,
    ?_⟩
  · intro i mem
    obtain ⟨column, indexed, rfl⟩ := List.mem_map.1 mem
    obtain ⟨inside, int⟩ := stores.proper.indexed column indexed
    exact ⟨column, inside, int, Index.faithful_ofStored column c.stored⟩
  · intro i mem
    obtain ⟨column, indexed, rfl⟩ := List.mem_map.1 mem
    have read := stores.houses.runs_read_index (isStep_of_isValid (stores.proper.isValid indexed))
      (stores.rooms column indexed) (stores.proper.index_files indexed)
    rw [Index.column_ofStored]
    exact ⟨_, (perform_eq read).1, Index.ofBytes?_ofStored column c.stored⟩

end Service.Agrees

namespace Service

/-- From an empty storage root no sequence of statements and reopenings leads to an open
table whose indexes disagree with its records or with their files. -/
theorem indexes_consistent {d : Disk} {root : Path} (empty : d.EmptyAt root) (sync : Bool)
    (events : List Event) :
    ∀ name t, ((start root sync d).run events).session.table? name = some t →
      t.layout = Layout.ofTable root name ∧ t.Consistent ((start root sync d).run events).disk := by
  intro name t opened
  obtain ⟨r, empty⟩ := empty
  have agrees := (empty.agrees sync).run empty events
  obtain ⟨c, found, rfl⟩ := agrees.handles name t opened
  have named := (agrees.depicts.sound name c (Catalog.find_eq_ok.1 found).2.1).named
  exact ⟨congrArg (Layout.ofTable root) named, agrees.consistent empty opened⟩

theorem indexes_consistent_sample :
    ∃ t, ((start ⟨"db"⟩ true .prepared).run Event.sample).session.table? "points" = some t ∧
      (t.index? "x").isSome = true ∧ t.layout = Layout.ofTable ⟨"db"⟩ "points" ∧
        t.Consistent ((start ⟨"db"⟩ true .prepared).run Event.sample).disk := by
  obtain ⟨t, opened, indexed⟩ := (Option.any_eq_true _ _).1 any_table?_sample
  have consistent := indexes_consistent Disk.emptyAt_prepared true Event.sample "points" t opened
  exact ⟨t, opened, indexed, consistent⟩

end Service

end FlatDB
