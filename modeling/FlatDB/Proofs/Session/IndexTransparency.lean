/-
# Indexes make no difference

If some of the statements that make indexes are left out of a run, every other
statement still gets the same answer, errors included, apart from what answers say
of indexes.  Both runs are compared with one and the same run of a catalog that
knows of no indexes at all.  The mark on selected rows is set exactly where the
filter asks an indexed integer column for one integer.
-/

import FlatDB.Proofs.Query.Unindexed
import FlatDB.Proofs.Session.Running

namespace FlatDB

/-! ## Catalogs without indexes -/

namespace Catalog

/-- The same catalog without any index. -/
def unindexed (cat : Catalog) : Catalog :=
  cat.map fun _ c => c.unindexed

variable {root : Path} {cat : Catalog}

theorem getElem?_unindexed (cat : Catalog) (name : String) :
    cat.unindexed[name]? = cat[name]?.map Contents.unindexed :=
  Std.ExtTreeMap.getElem?_map

theorem unindexed_insert (cat : Catalog) (name : String) (c : Contents) :
    unindexed (cat.insert name c) = cat.unindexed.insert name c.unindexed := by
  ext other : 1
  rw [getElem?_unindexed, Std.ExtTreeMap.getElem?_insert, Std.ExtTreeMap.getElem?_insert,
    getElem?_unindexed]
  split <;> rfl

theorem unindexed_erase (cat : Catalog) (name : String) :
    unindexed (cat.erase name) = cat.unindexed.erase name := by
  ext other : 1
  rw [getElem?_unindexed, Std.ExtTreeMap.getElem?_erase, Std.ExtTreeMap.getElem?_erase,
    getElem?_unindexed]
  split <;> rfl

theorem find_unindexed (cat : Catalog) (name : String) :
    cat.unindexed.find name = (cat.find name).map Contents.unindexed := by
  unfold find
  rw [getElem?_unindexed]
  cases Identifier.check name with
  | error e => rfl
  | ok _ =>
      cases cat[name]? with
      | none => rfl
      | some c =>
          simp only [Option.map_some, Result.ok_bind, Contents.definition_unindexed]
          cases Header.reread c.definition with
          | error e => rfl
          | ok d => rfl

/-- What commutes with forgetting indexes for contents does so for a catalog. -/
theorem onTable_unindexed (cat : Catalog) (name : String)
    {f : Contents → Except Error Answer × Contents}
    (commutes : ∀ c, f c.unindexed = ((f c).1, (f c).2.unindexed)) :
    cat.unindexed.onTable name f = ((cat.onTable name f).1, (cat.onTable name f).2.unindexed) := by
  unfold onTable
  rw [find_unindexed]
  cases cat.find name with
  | error e => rfl
  | ok c =>
      show ((f c.unindexed).1, cat.unindexed.insert name (f c.unindexed).2) = _
      rw [commutes c, unindexed_insert]

theorem makeTable_unindexed (root : Path) (cat : Catalog) (name : String)
    (columns : List Declaration) :
    cat.unindexed.makeTable root name columns =
      ((cat.makeTable root name columns).1, (cat.makeTable root name columns).2.unindexed) := by
  unfold makeTable
  rw [getElem?_unindexed]
  cases Identifier.check name >>= fun _ => Schema.ofDeclarations? name columns with
  | error e => rfl
  | ok schema =>
      cases cat[name]? with
      | some c => rfl
      | none =>
          by_cases room : root.RoomFor name
          · simp only [Option.map_none, Option.isSome_none, Bool.false_eq_true, if_false,
              if_pos room, unindexed_insert]
            rfl
          · simp only [Option.map_none, Option.isSome_none, Bool.false_eq_true, if_false,
              if_neg room]

theorem dropTable_unindexed (cat : Catalog) (name : String) :
    cat.unindexed.dropTable name =
      ((cat.dropTable name).1, (cat.dropTable name).2.unindexed) := by
  unfold dropTable
  rw [find_unindexed]
  cases cat.find name with
  | error e => rfl
  | ok c =>
      show (Except.ok _, cat.unindexed.erase name) = _
      rw [unindexed_erase]

/-- Making an index only makes an index. -/
theorem unindexed_execute_createIndex (root : Path) (cat : Catalog) (table index : String)
    (columns : List String) :
    (cat.execute root (.createIndex table index columns)).2.unindexed = cat.unindexed := by
  show (cat.onTable table fun c => c.makeIndex root index columns).2.unindexed = _
  rw [onTable]
  cases found : cat.find table with
  | error e => rfl
  | ok c =>
      have known : cat.unindexed[table]? = some c.unindexed := by
        rw [getElem?_unindexed, (find_eq_ok.1 found).2.1]
        rfl
      show unindexed (cat.insert table (c.makeIndex root index columns).2) = _
      rw [unindexed_insert, Contents.unindexed_makeIndex, insert_eq_self known]

end Catalog

/-- Whether a statement makes an index. -/
def Statement.makesIndex : Statement → Bool
  | .createIndex .. => true
  | _ => false

namespace Catalog

/-- Every other statement does the same without indexes, and answers the same apart from what
it says of them. -/
theorem execute_unindexed (root : Path) (cat : Catalog) {s : Statement}
    (other : s.makesIndex = false) :
    (cat.unindexed.execute root s).1.map (Answer.hideIndexes s) =
        (cat.execute root s).1.map (Answer.hideIndexes s) ∧
      (cat.unindexed.execute root s).2 = (cat.execute root s).2.unindexed := by
  have commutes (h : cat.unindexed.execute root s =
      ((cat.execute root s).1, (cat.execute root s).2.unindexed)) :
      (cat.unindexed.execute root s).1.map (Answer.hideIndexes s) =
          (cat.execute root s).1.map (Answer.hideIndexes s) ∧
        (cat.unindexed.execute root s).2 = (cat.execute root s).2.unindexed := by
    rw [h]
    exact ⟨rfl, rfl⟩
  cases s with
  | createTable table columns => exact commutes (makeTable_unindexed root cat table columns)
  | insert table columns values =>
      apply commutes
      apply onTable_unindexed cat table
      intro c
      exact c.insertInto_unindexed columns values
  | update table assignments filter =>
      apply commutes
      apply onTable_unindexed cat table
      intro c
      exact c.updateRows_unindexed assignments filter
  | delete table filter =>
      apply commutes
      apply onTable_unindexed cat table
      intro c
      exact c.deleteRows_unindexed filter
  | createIndex table index columns => cases other
  | dropTable table => exact commutes (dropTable_unindexed cat table)
  | select table items filter =>
      refine ⟨?_, rfl⟩
      show Except.map _ (cat.unindexed.find table >>= _) = Except.map _ (cat.find table >>= _)
      rw [find_unindexed]
      cases cat.find table with
      | error e => rfl
      | ok c => exact c.selectFrom_unindexed table items filter
  | describe table =>
      refine ⟨?_, rfl⟩
      show Except.map _ (cat.unindexed.find table >>= _) = Except.map _ (cat.find table >>= _)
      rw [find_unindexed]
      cases cat.find table with
      | error e => rfl
      | ok c => exact congrArg Except.ok (c.describe_unindexed table)
  | showTables =>
      refine ⟨?_, rfl⟩
      show Except.ok _ = Except.ok _
      rw [show cat.unindexed.keys = cat.keys from Std.ExtTreeMap.keys_map]

end Catalog

/-! ## Runs with fewer indexes -/

/-- The events of a run, and those that remain when some of the statements that make indexes
are left out. -/
inductive Thinned : List Event → List Event → Prop
  | nil : Thinned [] []
  | keep (e : Event) {events remaining : List Event} :
      Thinned events remaining → Thinned (e :: events) (e :: remaining)
  | leave (table index : String) (columns : List String) {events remaining : List Event} :
      Thinned events remaining →
        Thinned (.statement (.createIndex table index columns) :: events) remaining

/-- Whether a filter sets an integer column that has an index equal to an integer. -/
def Table.AsksIndex (t : Table) (filter : Option Expr) : Prop :=
  ∃ ref n column, filter = some (.binary .eq (.column ref) (.literal (.integer n))) ∧
    t.schema.column? ref.column = some column ∧ column.type = .int ∧
      (t.index? column.name).isSome = true

namespace Service

/-- The answers to the statements that do not make indexes, without what they say of indexes. -/
def plainAnswers (v : Service) (events : List Event) : List (Except Error Answer) :=
  ((v.trace events).filter fun (_, s) => !s.makesIndex).map fun (w, s) =>
    (w.execute s).1.map (Answer.hideIndexes s)

theorem plainAnswers_makesIndex (v : Service) {s : Statement} (makes : s.makesIndex = true)
    (events : List Event) :
    v.plainAnswers (.statement s :: events) = (v.execute s).2.plainAnswers events := by
  simp [plainAnswers, trace, makes]

theorem plainAnswers_other (v : Service) {s : Statement} (other : s.makesIndex = false)
    (events : List Event) :
    v.plainAnswers (.statement s :: events) =
      (v.execute s).1.map (Answer.hideIndexes s) :: (v.execute s).2.plainAnswers events := by
  simp [plainAnswers, trace, other]

namespace Agrees

variable {t₀ : FileTree} {root : Path} {r : Place} {sync : Bool} {cat cat' : Catalog}
  {v w : Service}

/-- As long as the catalogs differ in nothing but indexes, so do the answers. -/
theorem plainAnswers_eq (h : v.Agrees t₀ root r sync cat) (h' : w.Agrees t₀ root r sync cat')
    (empty : t₀.EmptyRoot root r) {events remaining : List Event}
    (thinned : Thinned events remaining) (same : cat.unindexed = cat'.unindexed) :
    v.plainAnswers events = w.plainAnswers remaining := by
  induction thinned generalizing v w cat cat' with
  | nil => rfl
  | leave table index columns _ ih =>
      rw [plainAnswers_makesIndex v rfl]
      apply ih (h.execute empty _) h'
      rw [Catalog.unindexed_execute_createIndex, same]
  | keep e _ ih =>
      cases e with
      | reopening => exact ih (h.after empty .reopening) (h'.after empty .reopening) same
      | statement s =>
          cases makes : s.makesIndex with
          | true =>
              cases s with
              | createIndex table index columns =>
                  rw [plainAnswers_makesIndex v rfl, plainAnswers_makesIndex w rfl]
                  apply ih (h.execute empty _) (h'.execute empty _)
                  rw [Catalog.unindexed_execute_createIndex, Catalog.unindexed_execute_createIndex,
                    same]
              | _ => cases makes
          | false =>
              have unindexed := Catalog.execute_unindexed root cat makes
              have unindexed' := Catalog.execute_unindexed root cat' makes
              rw [plainAnswers_other v makes, plainAnswers_other w makes]
              congr 1
              · rw [h.execute_eq empty, h'.execute_eq empty, ← unindexed.1, ← unindexed'.1, same]
              · apply ih (h.execute empty s) (h'.execute empty s)
                rw [← unindexed.2, ← unindexed'.2, same]

/-- The mark of an index is where a filter asks one. -/
theorem usedIndex_select (h : v.Agrees t₀ root r sync cat) (empty : t₀.EmptyRoot root r)
    {table : String} {items : List SelectItem} {filter : Option Expr} {a : Answer}
    (selected : (v.execute (.select table items filter)).1 = .ok a) :
    ∃ t, v.openTable table = .ok t ∧ (a.usedIndex = true ↔ t.AsksIndex filter) := by
  rw [h.execute_eq empty] at selected
  obtain ⟨c, found, selected⟩ := Result.bind_eq_ok.1 selected
  refine ⟨c.handle root sync, h.openTable_eq empty found, ?_⟩
  rw [Contents.usedIndex_selectFrom selected]
  rw [Table.AsksIndex]
  have indexed (name : String) :
      ((c.handle root sync).index? name).isSome = true ↔ name ∈ c.indexedNames := by
    rw [← decide_eq_true_iff (p := name ∈ c.indexedNames)]
    exact Eq.congr_left (c.isSome_get?_tableIndexes root sync name)
  simp only [indexed]
  exact Iff.rfl

end Agrees

/-- From an empty storage root, leaving out statements that make indexes changes no answer to any
other statement but in what it says of indexes.  And a selection says that it used an index
exactly if its filter asks one. -/
theorem indexes_transparent {d : Disk} {root : Path} (empty : d.EmptyAt root) (sync : Bool)
    {events remaining : List Event} (thinned : Thinned events remaining) :
    let v := start root sync d
    v.plainAnswers events = v.plainAnswers remaining ∧
      ∀ w table items filter a, (w, .select table items filter) ∈ v.trace events →
        (w.execute (.select table items filter)).1 = .ok a →
          ∃ t, w.openTable table = .ok t ∧ (a.usedIndex = true ↔ t.AsksIndex filter) := by
  obtain ⟨r, empty⟩ := empty
  have agrees := empty.agrees sync
  refine ⟨agrees.plainAnswers_eq agrees empty thinned rfl, ?_⟩
  intro w table items filter a mem selected
  obtain ⟨cat, agrees⟩ := agrees.of_mem_trace empty mem
  exact agrees.usedIndex_select empty selected

theorem indexes_transparent_sample :
    let v := start ⟨"db"⟩ true .prepared
    let filter := Expr.binary .eq (.column ⟨none, "x"⟩) (.literal (.integer 7))
    let question := Statement.select "points" [.wildcard] (some filter)
    v.plainAnswers (Event.sample ++ [.statement question]) =
        v.plainAnswers (Event.sample.take 3 ++ [.statement question]) ∧
      ∃ a t, ((v.run Event.sample).execute question).1 = .ok a ∧ a.usedIndex = true ∧
        (v.run Event.sample).openTable "points" = .ok t ∧ t.AsksIndex (some filter) := by
  intro v filter question
  have thinned : Thinned (Event.sample ++ [.statement question])
      (Event.sample.take 3 ++ [.statement question]) :=
    .keep _ (.keep _ (.keep _ (.leave _ _ _ (.keep _ .nil))))
  have mem := v.mem_trace Event.sample question []
  have marked : ((v.run Event.sample).execute question).1.toOption.any Answer.usedIndex = true := by
    obtain ⟨r, empty⟩ := Disk.emptyAt_prepared
    rw [((empty.agrees true).run empty Event.sample).execute_eq empty]
    decide +kernel
  obtain ⟨a, selected, used⟩ := Result.exists_of_any marked
  obtain ⟨plain, marks⟩ := indexes_transparent Disk.emptyAt_prepared true thinned
  obtain ⟨t, opened, asks⟩ := marks _ _ _ _ a mem selected
  exact ⟨plain, a, t, selected, used, opened, asks.1 used⟩

end Service

end FlatDB
