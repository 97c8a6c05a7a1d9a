/-
# What a table contains

Apart from where it is kept, a table is its definition, its records, the last id
handed out, and the columns that have an index.  Everything else follows from
these: the bytes of every file, and the value that an open table is in memory.
Operations on tables are here operations on contents, and each of them keeps
contents proper: records typed, ids increasing and handed out, indexes on
different integer columns.
-/

import FlatDB.Proofs.Record.Ids
import FlatDB.Proofs.Record.Typed
import FlatDB.Proofs.Schema.RoundTrip
import FlatDB.Proofs.Table.Files
import FlatDB.Proofs.Table.Upkeep

namespace FlatDB

/-- What a table contains. -/
structure Contents where
  /-- The definition. -/
  definition : Definition
  /-- The records, in storage order. -/
  stored : List Stored
  /-- The last id handed out. -/
  lastId : RecordId
  /-- The columns that have an index, in the order the indexes were made. -/
  indexed : List Column

namespace Contents

/-- The name of the table. -/
def name (c : Contents) : String :=
  c.definition.name

/-- The columns of the table. -/
def schema (c : Contents) : Schema :=
  c.definition.schema

/-- The indexes of the table. -/
def indexes (c : Contents) : List Index :=
  TableIndexes.ofStored c.indexed c.stored

/-- The names of the indexed columns. -/
def indexedNames (c : Contents) : List String :=
  c.indexed.map fun column => column.name

/-! ## Files and open tables -/

/-- The files of the table. -/
def files (c : Contents) : TableFiles where
  header := Utf8.encode (Header.ofDef c.definition)
  data := Utf8.encode (Entries.text c.stored)
  counter := Utf8.encode (Numeral.ofUInt64 c.lastId)
  list := if c.indexed.isEmpty then none else
    some (Utf8.encode (TableIndexes.listText c.indexedNames))
  index name := (c.indexed.find? fun column => column.name == name).map fun column =>
    Utf8.encode (Index.ofStored column c.stored).text

/-- The records of the open table. -/
def recordFile (c : Contents) (root : Path) (sync : Bool) : RecordFile :=
  let layout := Layout.ofTable root c.name
  ⟨c.name, layout.data, layout.counter, c.schema.arity, c.lastId, sync⟩

/-- The indexes of the open table. -/
def tableIndexes (c : Contents) (root : Path) (sync : Bool) : TableIndexes :=
  ⟨c.name, Layout.ofTable root c.name, c.indexes, sync⟩

/-- The open table. -/
def handle (c : Contents) (root : Path) (sync : Bool) : Table :=
  ⟨c.definition, Layout.ofTable root c.name, c.recordFile root sync, c.tableIndexes root sync⟩

/-! ## Proper contents -/

/-- What holds of the contents of every table. -/
structure Proper (c : Contents) : Prop where
  /-- The definition has a valid name and a well-formed schema. -/
  definition : c.definition.Proper
  /-- Every record has an admitted text for each column. -/
  typed : ∀ s ∈ c.stored, s.2.Typed c.schema
  /-- Ids increase along the data file. -/
  increasing : (c.stored.map Prod.fst).Pairwise (· < ·)
  /-- Every id has been handed out. -/
  bounded : ∀ s ∈ c.stored, s.1 ≤ c.lastId
  /-- Only integer columns of the table have an index. -/
  indexed : ∀ column ∈ c.indexed, column ∈ c.schema.columns ∧ column.type = .int
  /-- No column has two. -/
  distinct : c.indexedNames.Nodup

/-- A new table. -/
def new (d : Definition) : Contents :=
  ⟨d, [], 0, []⟩

/-- The table with one more record. -/
def append (c : Contents) (record : Record) : Contents :=
  { c with stored := c.stored ++ [(c.lastId + 1, record)], lastId := c.lastId + 1 }

/-- The table with a field of the accepted records set. -/
def assign (c : Contents) (accepts : Record → Bool) (position : Nat) (value : String) : Contents :=
  { c with stored := c.stored.map (Entries.assign accepts position value) }

/-- The table without the accepted records. -/
def remove (c : Contents) (accepts : Record → Bool) : Contents :=
  { c with stored := c.stored.filter fun s => !accepts s.2 }

/-- The table with one more index. -/
def withIndex (c : Contents) (column : Column) : Contents :=
  { c with indexed := c.indexed ++ [column] }

theorem Proper.new {d : Definition} (h : d.Proper) : (new d).Proper :=
  ⟨h, by simp [Contents.new], by simp [Contents.new], by simp [Contents.new],
    by simp [Contents.new], by simp [Contents.new, indexedNames]⟩

variable {c : Contents}

/-- No two records have one id. -/
theorem Proper.nodup (h : c.Proper) : (c.stored.map Prod.fst).Nodup :=
  h.increasing.imp fun less => UInt64.ne_of_lt less

theorem Proper.arity (h : c.Proper) : ∀ s ∈ c.stored, s.2.arity = c.schema.arity :=
  fun s mem => (h.typed s mem).arity

/-- Every record has a key in every indexed column. -/
theorem Proper.keyed (h : c.Proper) : TableIndexes.Keyed c.indexed c.stored := by
  intro column mem s hs
  obtain ⟨inside, int⟩ := h.indexed column mem
  exact (h.typed s hs).isSome_key? h.definition.schema inside int

/-- A record for a new id goes to the end. -/
theorem Proper.append (h : c.Proper) (fresh : c.lastId.toNat + 1 ≠ UInt64.size) {record : Record}
    (typed : record.Typed c.schema) : (c.append record).Proper := by
  have next : c.lastId < c.lastId + 1 := RecordId.lt_next fresh
  refine ⟨h.definition, ?_, ?_, ?_, h.indexed, h.distinct⟩
  · intro s mem
    rcases List.mem_append.1 mem with mem | mem
    · exact h.typed s mem
    · rw [List.mem_singleton.1 mem]
      exact typed
  · show ((c.stored ++ [(c.lastId + 1, record)]).map Prod.fst).Pairwise (· < ·)
    rw [List.map_append, List.pairwise_append]
    refine ⟨h.increasing, by simp, ?_⟩
    intro id mem id' mem'
    obtain ⟨s, hs, rfl⟩ := List.mem_map.1 mem
    rw [List.mem_singleton.1 mem']
    exact UInt64.lt_of_le_of_lt (h.bounded s hs) next
  · intro s mem
    rcases List.mem_append.1 mem with mem | mem
    · exact UInt64.le_of_lt (UInt64.lt_of_le_of_lt (h.bounded s mem) next)
    · rw [List.mem_singleton.1 mem]
      exact UInt64.le_refl _

/-- Setting a field keeps the ids, and the types if the text is admitted. -/
theorem Proper.assign (h : c.Proper) (accepts : Record → Bool) {column : Column}
    (mem : column ∈ c.schema.columns) {value : String} (admits : column.Admits value) :
    (c.assign accepts column.position value).Proper := by
  have ids : (c.assign accepts column.position value).stored.map Prod.fst =
    c.stored.map Prod.fst := by
    rw [Contents.assign, List.map_map]
    exact List.map_congr_left fun s _ => Entries.fst_assign accepts column.position value s
  refine ⟨h.definition, ?_, ids ▸ h.increasing, ?_, h.indexed, h.distinct⟩
  · intro s' mem'
    obtain ⟨s, hs, rfl⟩ := List.mem_map.1 mem'
    rw [Entries.assign]
    split
    · exact (h.typed s hs).set h.definition.schema mem admits
    · exact h.typed s hs
  · intro s' mem'
    obtain ⟨s, hs, rfl⟩ := List.mem_map.1 mem'
    rw [Entries.fst_assign]
    exact h.bounded s hs

/-- Removing records keeps the others as they are. -/
theorem Proper.remove (h : c.Proper) (accepts : Record → Bool) : (c.remove accepts).Proper := by
  have within : ∀ s ∈ (c.remove accepts).stored, s ∈ c.stored :=
    fun s mem => (List.mem_filter.1 mem).1
  exact ⟨h.definition, fun s mem => h.typed s (within s mem),
    h.increasing.sublist ((List.filter_sublist).map Prod.fst),
    fun s mem => h.bounded s (within s mem), h.indexed, h.distinct⟩

/-- A new index on an integer column that has none. -/
theorem Proper.withIndex (h : c.Proper) {column : Column} (mem : column ∈ c.schema.columns)
    (int : column.type = .int) (new : column.name ∉ c.indexedNames) :
      (c.withIndex column).Proper := by
  refine ⟨h.definition, h.typed, h.increasing, h.bounded, ?_, ?_⟩
  · intro column' mem'
    rcases List.mem_append.1 mem' with mem' | mem'
    · exact h.indexed column' mem'
    · rw [List.mem_singleton.1 mem']
      exact ⟨mem, int⟩
  · show ((c.indexed ++ [column]).map fun column => column.name).Nodup
    rw [List.map_append, List.nodup_append]
    refine ⟨h.distinct, by simp, ?_⟩
    intro name hn name' hn' e
    rw [List.map_cons, List.map_nil, List.mem_singleton] at hn'
    exact new (hn' ▸ e ▸ hn)

end Contents

end FlatDB
