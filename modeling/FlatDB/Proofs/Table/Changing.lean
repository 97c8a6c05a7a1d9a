/-
# Updating and deleting records

An update sets a field of some records and moves their ids in the index of that
column, if it has one; the other indexes do not change, because the keys in their
columns do not.  A deletion takes records out of all indexes.  The data file is
prepared anew in both cases, unless it would be the same.
-/

import FlatDB.Proofs.Table.Writing

namespace FlatDB

/-! ## What an assignment changes -/

namespace Entries

variable {accepts : Record → Bool} {position : Nat} {value : String}

/-- A record that is accepted is among the changes with its old text. -/
theorem mem_filterMap_change? {stored : List Stored} {s : Stored} (mem : s ∈ stored)
    (accepted : accepts s.2 = true) {text : String} (field : s.2.get? position = some text) :
    ⟨s.1, text, value⟩ ∈ stored.filterMap (change? accepts position value) := by
  rw [List.mem_filterMap]
  refine ⟨s, mem, ?_⟩
  rw [change?, if_pos accepted, field]
  rfl

/-- An update that changes no text changes no record. -/
theorem map_assign_of_unchanged {stored : List Stored}
    (inside : ∀ s ∈ stored, (s.2.get? position).isSome)
    (h : (stored.filterMap (change? accepts position value)).any (fun c => c.old ≠ c.new) = false) :
    stored.map (assign accepts position value) = stored := by
  conv => rhs; rw [← List.map_id stored]
  apply List.map_congr_left
  intro s mem
  unfold assign
  split
  · next accepted =>
    obtain ⟨text, field⟩ := Option.isSome_iff_exists.1 (inside s mem)
    have same : text = value := by
      have kept := List.any_eq_false.1 h _ (mem_filterMap_change? mem accepted field)
      simpa using kept
    have fields : s.2.fields.set position value = s.2.fields := by
      obtain ⟨below, here⟩ := List.getElem?_eq_some_iff.1 field
      rw [← same, ← here]
      exact List.set_getElem_self below
    show (s.1, Record.mk (s.2.fields.set position value)) = s
    rw [fields]
  · rfl

/-- An update reports as many changes as it accepts records. -/
theorem length_filterMap_change? (stored : List Stored) :
    (stored.filterMap (change? accepts position value)).length =
      (stored.filter fun s => accepts s.2).length := by
  induction stored with
  | nil => rfl
  | cons s stored ih =>
      by_cases accepted : accepts s.2 = true
      · simp [change?, accepted, ih]
      · simp [change?, accepted, ih]

end Entries

theorem Record.key?_set_of_ne (r : Record) {position other : Nat} (ne : other ≠ position)
    (value : String) : (r.set position value).key? other = r.key? other := by
  unfold key? get? set
  rw [List.getElem?_set_ne ne.symm]

namespace Contents

variable {c : Contents} {accepts : Record → Bool} {column other : Column} {value : String}

/-- The changes that an assignment makes. -/
def changes (c : Contents) (accepts : Record → Bool) (column : Column) (value : String) :
    List FieldChange :=
  c.stored.filterMap (Entries.change? accepts column.position value)

/-- An assignment that changes no text changes nothing. -/
theorem stored_assign_of_unchanged (h : c.schema.Proper) (hc : column ∈ c.schema.columns)
    (arity : ∀ s ∈ c.stored, s.2.arity = c.schema.arity)
    (unchanged : (c.changes accepts column value).any (fun c => c.old ≠ c.new) = false) :
    (c.assign accepts column.position value).stored = c.stored := by
  refine Entries.map_assign_of_unchanged (fun s mem => ?_) unchanged
  have inside : column.position < s.2.fields.length :=
    lt_of_lt_of_eq (h.position_lt hc) (arity s mem).symm
  rw [Record.get?, List.getElem?_eq_getElem inside]
  rfl

/-- Once a field has been set, setting it again in the records that are accepted now changes no
text: what is accepted now was either set before or is as it was and was accepted before. -/
theorem changes_assign (h : c.Proper) (hc : column ∈ c.schema.columns) :
    ((c.assign accepts column.position value).changes accepts column value).any
      (fun c => c.old ≠ c.new) = false := by
  rw [List.any_eq_false]
  intro change mem
  obtain ⟨s', mem', reported⟩ := List.mem_filterMap.1 mem
  obtain ⟨s, hs, rfl⟩ := List.mem_map.1 mem'
  by_cases accepted : accepts s.2 = true
  · have inside : column.position < s.2.fields.length :=
      lt_of_lt_of_eq (h.definition.schema.position_lt hc) (h.arity s hs).symm
    have field : (s.2.set column.position value).get? column.position = some value :=
      List.getElem?_set_self inside
    rw [Entries.assign, if_pos accepted, Entries.change?, field] at reported
    split at reported
    · cases reported
      simp
    · cases reported
  · rw [Entries.assign, if_neg accepted, Entries.change?, if_neg accepted] at reported
    cases reported

/-- Where no text changes no key does. -/
theorem changesKey_of_unchanged {changes : List FieldChange}
    (unchanged : changes.any (fun c => c.old ≠ c.new) = false) :
    changes.any TableIndexes.changesKey = false := by
  rw [List.any_eq_false] at unchanged ⊢
  intro change mem
  have same : change.old = change.new := by simpa using unchanged change mem
  simp [TableIndexes.changesKey, same]

/-- An assignment changes no key in another column. -/
theorem ofStored_assign_of_ne (h : c.schema.Proper) (hc : column ∈ c.schema.columns)
    (ho : other ∈ c.schema.columns) (ne : other ≠ column) :
    Index.ofStored other (c.assign accepts column.position value).stored =
      Index.ofStored other c.stored := by
  have elsewhere : other.position ≠ column.position := fun e =>
    ne (h.eq_of_position_eq ho hc e)
  apply Index.ofStored_map (fun s _ => Entries.fst_assign accepts column.position value s)
  intro s _
  unfold Entries.assign
  split
  · exact s.2.key?_set_of_ne elsewhere value
  · rfl

/-- An assignment that changes no key changes no index. -/
theorem ofStored_assign_of_same_keys (h : c.Proper) (hc : column ∈ c.schema.columns)
    (same : (c.changes accepts column value).any TableIndexes.changesKey = false) :
    Index.ofStored column (c.assign accepts column.position value).stored =
      Index.ofStored column c.stored := by
  apply Index.ofStored_map (fun s _ => Entries.fst_assign accepts column.position value s)
  intro s mem
  unfold Entries.assign
  split
  · next accepted =>
    obtain ⟨text, field, _⟩ := (h.typed s mem).get? h.definition.schema hc
    have keys : Numeral.int32? text = Numeral.int32? value := by
      have kept := List.any_eq_false.1 same _ (Entries.mem_filterMap_change? mem accepted field)
      simpa [TableIndexes.changesKey] using kept
    obtain ⟨below, _⟩ := List.getElem?_eq_some_iff.1 field
    show ((s.2.fields.set column.position value)[column.position]?).bind _ = _
    rw [List.getElem?_set_self below, Record.key?, field, Option.bind_some, Option.bind_some, keys]
  · rfl

/-- Where no index changes the open indexes stay as they are. -/
theorem tableIndexes_assign_of_same
    (same : ∀ other ∈ c.indexed,
      Index.ofStored other (c.assign accepts column.position value).stored =
        Index.ofStored other c.stored) (root : Path) (sync : Bool) :
    (c.assign accepts column.position value).tableIndexes root sync = c.tableIndexes root sync := by
  have indexes : (c.assign accepts column.position value).indexes = c.indexes :=
    List.map_congr_left same
  show TableIndexes.mk _ _ (c.assign accepts column.position value).indexes _ = _
  rw [indexes]
  rfl

/-- Where no index changes only the data file does. -/
theorem files_assign_of_same
    (same : ∀ other ∈ c.indexed,
      Index.ofStored other (c.assign accepts column.position value).stored =
        Index.ofStored other c.stored) :
    { c.files with data := Utf8.encode (Entries.text (c.assign accepts column.position value).stored) } =
      (c.assign accepts column.position value).files := by
  rw [TableFiles.mk.injEq]
  refine ⟨rfl, rfl, rfl, rfl, funext fun name => ?_⟩
  show (c.indexed.find? fun column => column.name == name).map _ =
    (c.indexed.find? fun column => column.name == name).map _
  apply Option.map_congr
  intro other found
  rw [same other (List.mem_of_find?_eq_some found)]

/-- With an index on the assigned column this one is all that has to be written. -/
theorem files_assign_of_mem (h : c.Proper) (mem : column ∈ c.indexed) :
    TableFiles.withIndex
        { c.files with
          data := Utf8.encode (Entries.text (c.assign accepts column.position value).stored) }
        column.name
        (Utf8.encode (Index.ofStored column (c.assign accepts column.position value).stored).text) =
      (c.assign accepts column.position value).files := by
  rw [TableFiles.withIndex, TableFiles.mk.injEq]
  refine ⟨rfl, rfl, rfl, rfl, funext fun name => ?_⟩
  show (if name = column.name then _ else (c.indexed.find? fun column => column.name == name).map _)
    =
    (c.indexed.find? fun column => column.name == name).map _
  by_cases here : name = column.name
  · rw [if_pos here, here, h.find?_indexed mem]
    rfl
  · rw [if_neg here]
    apply Option.map_congr
    intro other found
    have named : other.name = name := by simpa using List.find?_some found
    have ho := List.mem_of_find?_eq_some found
    have ne : other ≠ column := by
      rintro rfl
      exact here named.symm
    rw [ofStored_assign_of_ne h.definition.schema (h.indexed column mem).1 (h.indexed other ho).1 ne]

/-- Following the changes, the index of the assigned column comes to be that of the assigned
records. -/
theorem foldlM_follow_changes (h : TableIndexes.Keyed c.indexed c.stored)
    (distinct : (c.stored.map Prod.fst).Nodup) (mem : column ∈ c.indexed)
    (number : (Numeral.int32? value).isSome) (accepts : Record → Bool) :
    (c.changes accepts column value).foldlM (TableIndexes.follow c.name column.name)
        (Index.ofStored column c.stored, false) =
      .ok (Index.ofStored column (c.assign accepts column.position value).stored,
        (c.changes accepts column value).any TableIndexes.changesKey) := by
  obtain ⟨new, number⟩ := Option.isSome_iff_exists.1 number
  have keyed : TableIndexes.Keyed [column] c.stored := by
    intro other alone s hs
    rw [List.mem_singleton.1 alone]
    exact h column mem s hs
  exact TableIndexes.foldlM_follow c.name [] accepts keyed number distinct false

end Contents

/-- The index of one column is set in a list of indexes by its place. -/
theorem TableIndexes.set_ofStored {columns : List Column} {column : Column}
    (distinct : (columns.map fun column => column.name).Nodup) (mem : column ∈ columns)
    (stored stored' : List Stored)
    (others : ∀ other ∈ columns, other ≠ column →
      Index.ofStored other stored' = Index.ofStored other stored) :
    ∃ place, (ofStored columns stored).findIdx? (fun i => i.column == column.name) = some place ∧
      (ofStored columns stored).set place (Index.ofStored column stored') =
        ofStored columns stored' := by
  induction columns with
  | nil => cases mem
  | cons a columns ih =>
      rw [List.map_cons, List.nodup_cons] at distinct
      have differ {other : Column} (hm : other ∈ columns) : other ≠ a := by
        rintro rfl
        exact distinct.1 (List.mem_map_of_mem (f := fun column : Column => column.name) hm)
      by_cases here : a = column
      · refine ⟨0, ?_, ?_⟩
        · simp [ofStored, List.findIdx?_cons, here]
        · have rest : ofStored columns stored = ofStored columns stored' := by
            apply List.map_congr_left
            intro other hm
            exact (others other (List.mem_cons_of_mem a hm) (here ▸ differ hm)).symm
          show Index.ofStored column stored' :: ofStored columns stored = _
          rw [rest, ← here]
          rfl
      · have inside : column ∈ columns := (List.mem_cons.1 mem).resolve_left (Ne.symm here)
        obtain ⟨place, found, set⟩ := ih distinct.2 inside fun other hm =>
          others other (List.mem_cons_of_mem a hm)
        have named : a.name ≠ column.name := fun e => distinct.1 (e ▸
          List.mem_map_of_mem (f := fun column : Column => column.name) inside)
        refine ⟨place + 1, ?_, ?_⟩
        · show (Index.ofStored a stored :: ofStored columns stored).findIdx? _ = _
          rw [List.findIdx?_cons, Index.column_ofStored, beq_eq_false_iff_ne.2 named, found]
          rfl
        · show Index.ofStored a stored :: (ofStored columns stored).set place _ = _
          rw [set, ← others a List.mem_cons_self here]
          rfl

namespace FileTree

namespace Stores

variable {t : FileTree} {root : Path} {r : Place} {c : Contents}

/-! ## Updating -/

/-- Where no text changes nothing is written. -/
theorem runs_updateRecords_of_unchanged (h : t.Stores root r c) (sync : Bool)
    {accepts : Record → Bool} {column : Column} {value : String}
    (unchanged : (c.changes accepts column value).any (fun c => c.old ≠ c.new) = false) :
    ((c.recordFile root sync).updateWhere accepts column.position value).Runs t
      (.ok (c.changes accepts column value)) t := by
  rw [RecordFile.updateWhere]
  refine .bind (h.runs_records sync) ?_
  unfold Contents.changes at unchanged ⊢
  dsimp only
  rw [if_neg (Bool.eq_false_iff.1 unchanged)]
  exact .pure _ t

/-- The data file afterwards is that of the assigned records, and so it was before if no
text changes. -/
theorem runs_updateRecords (h : t.Stores root r c) (sync : Bool) (accepts : Record → Bool)
    {column : Column} (hc : column ∈ c.schema.columns) (value : String) :
    ∃ t', ((c.recordFile root sync).updateWhere accepts column.position value).Runs t
        (.ok (c.changes accepts column value)) t' ∧
      t.Becomes root r c.name
        { c.files with
          data := Utf8.encode (Entries.text (c.assign accepts column.position value).stored) }
            t' := by
  by_cases changed : (c.changes accepts column value).any (fun change => change.old ≠ change.new) =
      true
  · obtain ⟨t', written, becomes⟩ := h.houses.runs_replace_data
      (Utf8.encode (Entries.text (c.assign accepts column.position value).stored)) sync
    rw [RecordFile.updateWhere]
    refine ⟨t', .bind (h.runs_records sync) ?_, becomes⟩
    unfold Contents.changes at changed ⊢
    dsimp only
    rw [if_pos changed]
    exact .bind written (.pure _ _)
  · have unchanged := Bool.eq_false_iff.2 changed
    have same := Contents.stored_assign_of_unchanged h.proper.definition.schema hc h.proper.arity
      unchanged
    rw [same]
    exact ⟨t, h.runs_updateRecords_of_unchanged sync unchanged, h.houses.becomes⟩

/-- Where the column has no index there is nothing to follow. -/
theorem runs_onUpdate_of_not_indexed (h : c.Proper) (root : Path) (sync : Bool) {column : Column}
    (hc : column ∈ c.schema.columns) (plain : column ∉ c.indexed) (changes : List FieldChange)
    (t : FileTree) :
    (TableIndexes.onUpdate column.name changes).Runs (c.tableIndexes root sync) t (.ok ())
      (c.tableIndexes root sync) t := by
  have none : (c.tableIndexes root sync).get? column.name = none :=
    Contents.get?_tableIndexes_eq_none (fun other mem named => plain
      (h.definition.schema.eq_of_name_eq (h.indexed other mem).1 hc named ▸ mem)) root sync
  rw [TableIndexes.onUpdate]
  apply Update.Runs.bind_get
  rw [none]
  cases List.findIdx? (fun i => i.column == column.name) (c.tableIndexes root sync).indexes with
  | none => exact .pure _ _ _
  | some place => exact .pure _ _ _

/-- Where no key changes nothing is written either, with an index on the column or without. -/
theorem runs_onUpdate_of_same_keys (h : c.Proper) (root : Path) (sync : Bool)
    {accepts : Record → Bool} {column : Column} (hc : column ∈ c.schema.columns) {value : String}
    (admits : column.Admits value)
    (same : (c.changes accepts column value).any TableIndexes.changesKey = false) (t : FileTree) :
    (TableIndexes.onUpdate column.name (c.changes accepts column value)).Runs
      (c.tableIndexes root sync) t (.ok ()) (c.tableIndexes root sync) t := by
  by_cases mem : column ∈ c.indexed
  · obtain ⟨place, found, -⟩ := TableIndexes.set_ofStored h.distinct mem c.stored c.stored
      fun _ _ _ => rfl
    have followed := Contents.foldlM_follow_changes h.keyed h.nodup mem
      (Column.isSome_int32?_of_admits (h.indexed column mem).2 admits) accepts
    rw [same] at followed
    rw [TableIndexes.onUpdate]
    refine .bind_get ?_
    rw [show List.findIdx? _ (c.tableIndexes root sync).indexes = _ from found,
      Contents.get?_tableIndexes_of_mem h.distinct mem root sync]
    exact .bind (.ofAction (.ofResult_of_eq followed t) _) (.pure _ _ _)
  · exact runs_onUpdate_of_not_indexed h root sync hc mem _ t

/-- The index of the column follows an update, and is written if a key changed. -/
theorem runs_onUpdate_of_indexed (h : t.Stores root r c) (sync : Bool) (accepts : Record → Bool)
    {column : Column} (mem : column ∈ c.indexed) {value : String} (admits : column.Admits value)
    {t₁ : FileTree}
    (becomes : t.Becomes root r c.name
      { c.files with
        data := Utf8.encode (Entries.text (c.assign accepts column.position value).stored) } t₁) :
    ∃ t₂, (TableIndexes.onUpdate column.name (c.changes accepts column value)).Runs
          (c.tableIndexes root sync) t₁ (.ok ())
          ((c.assign accepts column.position value).tableIndexes root sync) t₂ ∧
      t.Becomes root r c.name (c.assign accepts column.position value).files t₂ := by
  have others (other : Column) (ho : other ∈ c.indexed) (ne : other ≠ column) :
      Index.ofStored other (c.assign accepts column.position value).stored =
        Index.ofStored other c.stored :=
    Contents.ofStored_assign_of_ne h.proper.definition.schema (h.proper.indexed column mem).1
      (h.proper.indexed other ho).1 ne
  obtain ⟨place, found, set⟩ := TableIndexes.set_ofStored h.proper.distinct mem c.stored
    (c.assign accepts column.position value).stored others
  have index := Contents.get?_tableIndexes_of_mem h.proper.distinct mem root sync
  have followed := Contents.foldlM_follow_changes h.proper.keyed h.proper.nodup mem
    (Column.isSome_int32?_of_admits (h.proper.indexed column mem).2 admits) accepts
  cases moved : (c.changes accepts column value).any TableIndexes.changesKey with
  | true =>
      rw [moved] at followed
      obtain ⟨t₂, persisted, after⟩ := becomes.houses.runs_persist
        (x := (c.assign accepts column.position value).tableIndexes root sync)
        (i := Index.ofStored column (c.assign accepts column.position value).stored) rfl
        (by rw [Index.column_ofStored]; exact isStep_of_isValid (h.proper.isValid mem))
        (by rw [Index.column_ofStored]; exact h.rooms column mem)
      rw [Index.column_ofStored, Contents.files_assign_of_mem h.proper mem] at after
      rw [TableIndexes.onUpdate]
      refine ⟨t₂, .bind_get ?_, becomes.trans after⟩
      rw [show List.findIdx? _ (c.tableIndexes root sync).indexes = _ from found, index]
      apply Update.Runs.bind (.ofAction (.ofResult_of_eq followed t₁) _)
      dsimp only
      rw [if_pos rfl]
      have next : TableIndexes.mk (c.tableIndexes root sync).table (c.tableIndexes root sync).layout
          ((c.tableIndexes root sync).indexes.set place
            (Index.ofStored column (c.assign accepts column.position value).stored))
          (c.tableIndexes root sync).sync =
            (c.assign accepts column.position value).tableIndexes root sync := by
        rw [show List.set (c.tableIndexes root sync).indexes _ _ = _ from set]
        rfl
      rw [next]
      exact .bind_set (.ofAction persisted _)
  | false =>
      have inside := (h.proper.indexed column mem).1
      have same : ∀ other ∈ c.indexed,
          Index.ofStored other (c.assign accepts column.position value).stored =
            Index.ofStored other c.stored := by
        intro other ho
        by_cases here : other = column
        · rw [here]
          exact Contents.ofStored_assign_of_same_keys h.proper inside moved
        · exact others other ho here
      rw [Contents.tableIndexes_assign_of_same same, ← Contents.files_assign_of_same same]
      exact ⟨t₁, runs_onUpdate_of_same_keys h.proper root sync inside admits moved t₁, becomes⟩

/-- The indexes follow an update. -/
theorem runs_onUpdate (h : t.Stores root r c) (sync : Bool) (accepts : Record → Bool)
    {column : Column} (hc : column ∈ c.schema.columns) {value : String}
    (admits : column.Admits value) {t₁ : FileTree}
    (becomes : t.Becomes root r c.name
      { c.files with
        data := Utf8.encode (Entries.text (c.assign accepts column.position value).stored) } t₁) :
    ∃ t₂, (TableIndexes.onUpdate column.name (c.changes accepts column value)).Runs
          (c.tableIndexes root sync) t₁ (.ok ())
          ((c.assign accepts column.position value).tableIndexes root sync) t₂ ∧
      t.Becomes root r c.name (c.assign accepts column.position value).files t₂ := by
  by_cases indexed : column ∈ c.indexed
  · exact h.runs_onUpdate_of_indexed sync accepts indexed admits becomes
  · have same : ∀ other ∈ c.indexed,
        Index.ofStored other (c.assign accepts column.position value).stored =
          Index.ofStored other c.stored := by
      intro other ho
      apply Contents.ofStored_assign_of_ne h.proper.definition.schema hc (h.proper.indexed other ho).1
      rintro rfl
      exact indexed ho
    rw [Contents.tableIndexes_assign_of_same same, ← Contents.files_assign_of_same same]
    exact ⟨t₁, runs_onUpdate_of_not_indexed h.proper root sync hc indexed _ t₁, becomes⟩

/-- A column of the accepted records is set. -/
theorem runs_updateWhere (h : t.Stores root r c) (sync : Bool) (accepts : Record → Bool)
    {column : Column} (hc : column ∈ c.schema.columns) {value : String}
    (admits : column.Admits value) :
    ∃ t', (Table.updateWhere accepts column.name value).Runs (c.handle root sync) t
        (.ok (c.stored.filter fun s => accepts s.2).length)
        ((c.assign accepts column.position value).handle root sync) t' ∧
      t.Turns root r (c.assign accepts column.position value) t' := by
  obtain ⟨t₁, written, first⟩ := h.runs_updateRecords sync accepts hc value
  obtain ⟨t₂, followed, second⟩ := h.runs_onUpdate sync accepts hc admits first
  have known : c.definition.column column.name = .ok column := by
    rw [Definition.column]
    rw [h.proper.definition.schema.column?_name hc]
  have count : (c.changes accepts column value).length =
      (c.stored.filter fun s => accepts s.2).length :=
    Entries.length_filterMap_change? c.stored
  refine ⟨t₂, ?_, ⟨h.proper.assign accepts hc admits, second.houses, h.rooms⟩, second.same⟩
  rw [Table.updateWhere]
  refine .bind_get ?_
  rw [show (c.handle root sync).definition.column column.name = .ok column from known]
  refine .bind (.ofAction (.ofResult _ t) _)
    (.bind (.ofAction written _) (.bind (.onPart followed) ?_))
  rw [count]
  exact .pure _ _ _

/-- A column is set to what it is. -/
theorem runs_updateWhere_of_unchanged (h : t.Stores root r c) (sync : Bool)
    {accepts : Record → Bool} {column : Column} (hc : column ∈ c.schema.columns) {value : String}
    (admits : column.Admits value)
    (unchanged : (c.changes accepts column value).any (fun c => c.old ≠ c.new) = false) :
    (Table.updateWhere accepts column.name value).Runs (c.handle root sync) t
      (.ok (c.stored.filter fun s => accepts s.2).length) (c.handle root sync) t := by
  have followed := runs_onUpdate_of_same_keys h.proper root sync hc admits
    (Contents.changesKey_of_unchanged unchanged) t
  have known : c.definition.column column.name = .ok column :=
    Definition.column_eq_ok.2 (h.proper.definition.schema.column?_name hc)
  have count : (c.changes accepts column value).length =
      (c.stored.filter fun s => accepts s.2).length :=
    Entries.length_filterMap_change? c.stored
  rw [Table.updateWhere]
  refine .bind_get (.bind (.ofAction (.ofResult_of_eq known t) _)
    (.bind (.ofAction (h.runs_updateRecords_of_unchanged sync unchanged) _)
      (.bind (.onPart followed) ?_)))
  rw [count]
  exact .pure _ _ _

/-! ## Deleting -/

/-- The data file afterwards is that of the records that stay, and so it was before if
all of them do. -/
theorem runs_deleteRecords (h : t.Stores root r c) (sync : Bool) (accepts : Record → Bool) :
    ∃ t', ((c.recordFile root sync).deleteWhere accepts).Runs t
        (.ok (c.stored.filter fun s => accepts s.2)) t' ∧
      t.Becomes root r c.name
        { c.files with data := Utf8.encode (Entries.text (c.remove accepts).stored) } t' := by
  unfold RecordFile.deleteWhere
  by_cases removed : (!(c.stored.filter fun s => accepts s.2).isEmpty) = true
  · obtain ⟨t', written, becomes⟩ := h.houses.runs_replace_data
      (Utf8.encode (Entries.text (c.remove accepts).stored)) sync
    refine ⟨t', .bind (h.runs_records sync) ?_, becomes⟩
    dsimp only
    rw [if_pos removed]
    exact .bind written (.pure _ _)
  · have same : (c.remove accepts).stored = c.stored := by
      have none : c.stored.filter (fun s => accepts s.2) = [] := by simpa using removed
      apply List.filter_eq_self.2
      intro s mem
      simpa using List.filter_eq_nil_iff.1 none s mem
    rw [same]
    refine ⟨t, .bind (h.runs_records sync) ?_, h.houses.becomes⟩
    dsimp only
    rw [if_neg removed]
    exact .pure _ t

/-- All indexes are those of the records that are left, and written. -/
theorem runs_persistAll_of_records (h : t.Stores root r c) (sync : Bool) (stored : List Stored)
    {t₁ : FileTree}
    (becomes : t.Becomes root r c.name
      { c.files with data := Utf8.encode (Entries.text stored) } t₁) :
    ∃ t₂, ({ c with stored }.tableIndexes root sync).persistAll.Runs t₁ (.ok ()) t₂ ∧
      t.Becomes root r c.name { c with stored }.files t₂ := by
  obtain ⟨t₂, written, after⟩ := becomes.houses.runs_persistAll
    (x := { c with stored }.tableIndexes root sync) rfl (h.rooms_ofStored stored)
  have files := Contents.files_withIndexes h.proper stored c.lastId
  exact ⟨t₂, written, files ▸ becomes.trans after⟩

theorem runs_onDelete (h : t.Stores root r c) (sync : Bool) (accepts : Record → Bool)
    {t₁ : FileTree}
    (becomes : t.Becomes root r c.name
      { c.files with data := Utf8.encode (Entries.text (c.remove accepts).stored) } t₁) :
    ∃ t₂, (TableIndexes.onDelete (c.stored.filter fun s => accepts s.2)).Runs
        (c.tableIndexes root sync) t₁ (.ok ()) ((c.remove accepts).tableIndexes root sync) t₂ ∧
      t.Becomes root r c.name (c.remove accepts).files t₂ := by
  rw [TableIndexes.onDelete]
  by_cases empty : c.indexed.isEmpty = true
  · have none := Contents.ofStored_of_isEmpty empty
    have same : (c.remove accepts).tableIndexes root sync = c.tableIndexes root sync := by
      show TableIndexes.mk _ _ (TableIndexes.ofStored c.indexed _) _ =
        TableIndexes.mk _ _ (TableIndexes.ofStored c.indexed _) _
      rw [none, none]
      rfl
    have files := Contents.files_withIndexes h.proper (c.remove accepts).stored c.lastId
    rw [none] at files
    rw [same]
    refine ⟨t₁, .bind_get ?_, files ▸ becomes⟩
    rw [Contents.isEmpty_tableIndexes, if_pos empty]
    exact .pure _ _ _
  · obtain ⟨t₂, written, after⟩ := h.runs_persistAll_of_records sync _ becomes
    refine ⟨t₂, .bind_get ?_, after⟩
    rw [Contents.isEmpty_tableIndexes, if_neg empty]
    have left := TableIndexes.foldlM_leave c.name [] (fun s : Stored => accepts s.2) h.proper.keyed
      h.proper.nodup
    exact .bind (.ofAction (.ofResult_of_eq left t₁) _) (.bind_set (.ofAction written _))

/-- The accepted records are removed. -/
theorem runs_deleteWhere (h : t.Stores root r c) (sync : Bool) (accepts : Record → Bool) :
    ∃ t', (Table.deleteWhere accepts).Runs (c.handle root sync) t
        (.ok (c.stored.filter fun s => accepts s.2).length) ((c.remove accepts).handle root sync)
          t' ∧
      t.Turns root r (c.remove accepts) t' := by
  obtain ⟨t₁, written, first⟩ := h.runs_deleteRecords sync accepts
  obtain ⟨t₂, left, second⟩ := h.runs_onDelete sync accepts first
  refine ⟨t₂, ?_, ⟨h.proper.remove accepts, second.houses, h.rooms⟩, second.same⟩
  rw [Table.deleteWhere]
  exact .bind_get (.bind (.ofAction written _) (.bind (.onPart left) (.pure _ _ _)))

/-- All records are removed. -/
theorem runs_deleteAll (h : t.Stores root r c) (sync : Bool) :
    ∃ t', Table.deleteAll.Runs (c.handle root sync) t (.ok c.stored.length)
        ((c.remove fun _ => true).handle root sync) t' ∧
      t.Turns root r (c.remove fun _ => true) t' := by
  have none : (c.remove fun _ => true).stored = [] := by
    show c.stored.filter (fun _ => !true) = []
    simp
  obtain ⟨t₁, emptied, first⟩ := h.houses.runs_truncate_data sync
  obtain ⟨t₂, written, second⟩ := h.runs_persistAll_of_records sync
    (c.remove fun _ => true).stored (by rw [none]; exact first)
  have cleared : (c.tableIndexes root sync).indexes.map Index.clear =
      TableIndexes.ofStored c.indexed (c.remove fun _ => true).stored := by
    show (c.indexed.map _).map Index.clear = _
    rw [List.map_map, none]
    exact List.map_congr_left fun column _ => Index.clear_ofStored column c.stored
  refine ⟨t₂, ?_, ⟨h.proper.remove _, second.houses, h.rooms⟩, second.same⟩
  have next : TableIndexes.mk (c.tableIndexes root sync).table (c.tableIndexes root sync).layout
      ((c.tableIndexes root sync).indexes.map Index.clear) (c.tableIndexes root sync).sync =
        (c.remove fun _ => true).tableIndexes root sync := by
    rw [cleared]
    rfl
  have clear : TableIndexes.clear.Runs (c.tableIndexes root sync) t₁ (.ok ())
      ((c.remove fun _ => true).tableIndexes root sync) t₂ := by
    rw [TableIndexes.clear]
    refine .bind_get ?_
    dsimp only
    rw [next]
    exact .bind_set (.ofAction written _)
  rw [Table.deleteAll]
  exact .bind_get (.bind (.ofAction (h.runs_size sync) _)
    (.bind (.ofAction emptied _) (.bind (.onPart clear) (.pure _ _ _))))

end Stores

end FileTree

end FlatDB
