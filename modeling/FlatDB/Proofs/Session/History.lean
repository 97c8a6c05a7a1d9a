/-
# The catalog follows its history

Which tables there are, which columns they have and which of these have an index is
spread over directories, headers, lists of indexes and tables that are open.  It is
nevertheless decided by the statements that were accepted: an accepted statement
makes a table, drops one, or adds an index, and no other event matters, neither a
statement that was refused nor that all open tables were forgotten.

A history is kept beside a run of a service and updated from its answers only.  The
service then makes tables, finds them, lists them and describes them as the history
has them.  Tables whose header cannot be read are left out of this: declarations of
more columns, or of a longer text, than a machine word can count.
-/

import FlatDB.Proofs.Session.FieldTypes
import FlatDB.Proofs.Session.Refusal

namespace FlatDB

/-! ## Histories -/

/-- What the accepted statements have said about a table. -/
structure Declared where
  /-- The declared columns, in order. -/
  columns : List Declaration
  /-- The columns that were given an index. -/
  indexed : List String
  deriving DecidableEq

/-- The description of a table with these columns and indexes. -/
def Declared.describe (t : Declared) : Answer :=
  .ofRows ["Field", "Type", "Null", "Index"]
    (t.columns.map fun d => [d.name, d.type.name, Statement.yesNo d.nullable,
      Statement.yesNo (decide (d.name ∈ t.indexed))])

/-- The tables that accepted statements have left, by name. -/
abbrev History := Std.ExtTreeMap String Declared

/-- The history after an accepted statement. -/
def History.after (h : History) : Statement → History
  | .createTable table columns => h.insert table ⟨columns, []⟩
  | .createIndex table _ columns =>
    h.modify table fun t => { t with indexed := t.indexed ++ columns }
  | .dropTable table => h.erase table
  | _ => h

namespace Service

/-- The history when a service executes a statement: it matters only if it is accepted. -/
def recorded (v : Service) (h : History) (s : Statement) : History :=
  if (v.execute s).1.isOk then h.after s else h

/-- The history that a service writes along some events. -/
def history (v : Service) (h : History) (events : List Event) : History :=
  (v.trace events).foldl (fun h (w, s) => w.recorded h s) h

/-- Whether a service has exactly the tables of a history. -/
structure Knows (v : Service) (root : Path) (h : History) : Prop where
  /-- A table can be made if there is none of its name, and if its paths are short enough. -/
  makes : ∀ {table columns schema}, Identifier.isValid table = true →
    Schema.ofDeclarations? table columns = .ok schema → ¬ Declaration.Oversized columns →
    (v.execute (.createTable table columns)).1 =
      if table ∈ h then .error (.tableExists table)
      else if root.RoomFor table then .ok (.ofMessage ("Table '" ++ table ++ "' created"))
      else .error (.storage .nameTooLong)
  /-- Every other statement about a table finds it if and only if it is there. -/
  finds : ∀ {s table}, s.table? = some table → Identifier.isValid table = true →
    (∀ columns, s ≠ .createTable table columns) →
    ((v.execute s).1 = .error (.tableNotFound table) ↔ table ∉ h)
  /-- The names of the tables are listed in the order of their bytes. -/
  lists : ∃ names : List String,
    (v.execute .showTables).1 = .ok (.ofRows ["Tables"] (names.map ([·]))) ∧
    (∀ name, name ∈ names ↔ name ∈ h) ∧
    names.Pairwise fun a b => Utf8.encode a < Utf8.encode b
  /-- Tables are described as they were declared. -/
  describes : ∀ {table t}, h[table]? = some t → (v.execute (.describe table)).1 = .ok t.describe

end Service

/-! ## Histories of catalogs -/

/-- What accepted statements have said about a table of these contents. -/
def Contents.declared (c : Contents) : Declared :=
  ⟨c.schema.columns.map Column.toDeclaration, c.indexedNames⟩

theorem Contents.describe_eq (c : Contents) : c.describe = c.declared.describe := by
  unfold describe Declared.describe declared
  rw [List.map_map]
  rfl

namespace Catalog

/-- The history that leads to a catalog. -/
def history (cat : Catalog) : History :=
  cat.map fun _ c => c.declared

variable {root : Path} {cat : Catalog} {name : String} {c c' : Contents} {a : Answer}

theorem getElem?_history (cat : Catalog) (name : String) :
    cat.history[name]? = cat[name]?.map Contents.declared :=
  Std.ExtTreeMap.getElem?_map

theorem mem_history : name ∈ cat.history ↔ ∃ c, cat[name]? = some c := by
  rw [history, Std.ExtTreeMap.mem_map, Std.ExtTreeMap.mem_iff_isSome_getElem?,
    Option.isSome_iff_exists]

theorem history_empty : history ∅ = ∅ := by
  apply Std.ExtTreeMap.ext_getElem?
  intro name
  rw [getElem?_history]
  simp

theorem history_insert (cat : Catalog) (name : String) (c : Contents) :
    history (cat.insert name c) = cat.history.insert name c.declared := by
  apply Std.ExtTreeMap.ext_getElem?
  intro other
  rw [getElem?_history, Std.ExtTreeMap.getElem?_insert, Std.ExtTreeMap.getElem?_insert,
    getElem?_history]
  split <;> rfl

theorem history_erase (cat : Catalog) (name : String) :
    history (cat.erase name) = cat.history.erase name := by
  apply Std.ExtTreeMap.ext_getElem?
  intro other
  rw [getElem?_history, Std.ExtTreeMap.getElem?_erase, Std.ExtTreeMap.getElem?_erase,
    getElem?_history]
  split <;> rfl

/-- A table whose columns and indexes stay is the same to the history. -/
theorem history_insert_of_declared (known : cat[name]? = some c)
    (same : c'.declared = c.declared) : history (cat.insert name c') = cat.history := by
  rw [history_insert, same, ← history_insert, insert_eq_self known]

/-- A table whose columns and indexes change as the history has it. -/
theorem history_insert_of_modify (known : cat[name]? = some c) {f : Declared → Declared}
    (changed : c'.declared = f c.declared) :
    history (cat.insert name c') = cat.history.modify name f := by
  apply Std.ExtTreeMap.ext_getElem?
  intro other
  rw [history_insert, Std.ExtTreeMap.getElem?_insert, Std.ExtTreeMap.getElem?_modify,
    getElem?_history cat name, known, changed]
  rfl

/-! ## Accepted statements -/

theorem makeTable_eq_of_ok {columns : List Declaration}
    (accepted : (cat.makeTable root name columns).1 = .ok a) :
    ∃ schema, Schema.ofDeclarations? name columns = .ok schema ∧
      (cat.makeTable root name columns).2 = cat.insert name (.new (.ofSchema name schema)) := by
  unfold makeTable at accepted ⊢
  cases checked : Identifier.check name >>= fun _ => Schema.ofDeclarations? name columns with
  | error e =>
      rw [checked] at accepted
      cases accepted
  | ok schema =>
      obtain ⟨_, -, declared⟩ := Result.bind_eq_ok.1 checked
      simp only [checked] at accepted
      dsimp only
      split at accepted
      · cases accepted
      · next absent =>
        split at accepted
        · next room => exact ⟨schema, declared, by rw [if_neg absent, if_pos room]⟩
        · cases accepted

/-- An accepted statement does to the catalog what the history says. -/
theorem history_execute_of_ok {s : Statement} (accepted : (cat.execute root s).1 = .ok a) :
    history (cat.execute root s).2 = cat.history.after s := by
  cases s with
  | createTable table columns =>
      obtain ⟨schema, declared, made⟩ := makeTable_eq_of_ok accepted
      have columnsKept := Schema.declarations_of_ofDeclarations? declared
      show history (cat.makeTable root table columns).2 = _
      rw [made, history_insert, Contents.declared]
      simp [Contents.schema, Contents.new, Definition.ofSchema, columnsKept, Contents.indexedNames,
        History.after]
  | insert table columns values =>
      obtain ⟨c, found, done, same⟩ := onTable_eq_of_ok accepted
      apply (congrArg history same).trans
      apply history_insert_of_declared (find_eq_ok.1 found).2.1
      rcases c.insertInto_cases columns values with ⟨e, refused⟩ | ⟨texts, -, -, inserted⟩
      · rw [refused]
      · rw [inserted]
        rfl
  | select table items filter => rfl
  | update table assignments filter =>
      obtain ⟨c, found, done, same⟩ := onTable_eq_of_ok accepted
      apply (congrArg history same).trans
      apply history_insert_of_declared (find_eq_ok.1 found).2.1
      rcases c.updateRows_cases assignments filter with
        ⟨e, refused⟩ | ⟨_, _, _, _, _, -, -, -, -, updated⟩
      · rw [refused]
      · rw [updated]
        rfl
  | delete table filter =>
      obtain ⟨c, found, done, same⟩ := onTable_eq_of_ok accepted
      apply (congrArg history same).trans
      apply history_insert_of_declared (find_eq_ok.1 found).2.1
      rcases c.deleteRows_cases filter with ⟨e, refused⟩ | ⟨_, _, -, deleted⟩
      · rw [refused]
      · rw [deleted]
        rfl
  | createIndex table index columns =>
      obtain ⟨c, found, done, same⟩ := onTable_eq_of_ok accepted
      apply (congrArg history same).trans
      apply history_insert_of_modify (find_eq_ok.1 found).2.1
      rcases c.makeIndex_cases root index columns with
        ⟨e, refused⟩ | ⟨name, column, _, rfl, checked, -, made⟩
      · rw [refused] at done
        cases done
      · rw [made, Contents.declared, Contents.indexedNames, Contents.withIndex]
        simp [Contents.schema, Contents.declared, Contents.indexedNames,
          (Contents.of_indexable checked).2.1]
  | dropTable table =>
      have accepted : (cat.dropTable table).1 = .ok a := accepted
      show history (cat.dropTable table).2 = cat.history.erase table
      rw [← history_erase]
      unfold dropTable at accepted ⊢
      cases found : cat.find table with
      | error e =>
          rw [found] at accepted
          cases accepted
      | ok c => rfl
  | describe table => rfl
  | showTables => rfl

/-! ## Statements about a table -/

variable {s : Statement} {e : Error}

/-- A statement about a table that cannot be opened is refused for that reason. -/
theorem execute_of_find_error (about : s.table? = some name)
    (other : ∀ columns, s ≠ .createTable name columns) (failed : cat.find name = .error e) :
    (cat.execute root s).1 = .error e := by
  have onTable (f : Contents → Except Error Answer × Contents) :
      (cat.onTable name f).1 = .error e := by
    rw [Catalog.onTable, failed]
  have bind (f : Contents → Except Error Answer) : cat.find name >>= f = .error e := by
    rw [failed]
    rfl
  cases s with
  | createTable table columns =>
      cases about
      exact absurd rfl (other columns)
  | insert table columns values => cases about; exact onTable _
  | select table items filter => cases about; exact bind _
  | update table assignments filter => cases about; exact onTable _
  | delete table filter => cases about; exact onTable _
  | createIndex table index columns => cases about; exact onTable _
  | dropTable table =>
      cases about
      show (cat.dropTable name).1 = _
      rw [dropTable, failed]
  | describe table => cases about; exact bind _
  | showTables => cases about

/-- A statement about a table that can be opened is not refused because there is none. -/
theorem onlyFails_execute_of_find (about : s.table? = some name)
    (other : ∀ columns, s ≠ .createTable name columns) (found : cat.find name = .ok c) :
    Result.OnlyFails (cat.execute root s).1 := by
  have onTable {f : Contents → Except Error Answer × Contents} (h : Result.OnlyFails (f c).1) :
      Result.OnlyFails (cat.onTable name f).1 := by
    rwa [Catalog.onTable, found]
  have bind {f : Contents → Except Error Answer} (h : Result.OnlyRefuses (f c)) :
      Result.OnlyFails (cat.find name >>= f) := by
    rw [found]
    exact h.onlyFails
  cases s with
  | createTable table columns =>
      cases about
      exact absurd rfl (other columns)
  | insert table columns values =>
      cases about
      exact onTable (c.onlyFails_insertInto columns values)
  | select table items filter =>
      cases about
      exact bind (c.onlyRefuses_selectFrom items filter)
  | update table assignments filter =>
      cases about
      exact onTable (c.onlyFails_updateRows assignments filter)
  | delete table filter =>
      cases about
      exact onTable (c.onlyFails_deleteRows filter)
  | createIndex table index columns =>
      cases about
      exact onTable (c.onlyFails_makeIndex root index columns)
  | dropTable table =>
      cases about
      show Result.OnlyFails (cat.dropTable name).1
      rw [dropTable, found]
      exact .ok _
  | describe table =>
      cases about
      exact bind (.ok _)
  | showTables => cases about

namespace MadeBy

variable {events : List Event}

/-- Whatever is answered to a statement, the catalog and its history go on together. -/
theorem history_execute (h : cat.MadeBy events)
    (small : ∀ table, ¬ Event.DeclareOversized (events ++ [.statement s]) table) :
    history (cat.execute root s).2 =
      if (cat.execute root s).1.isOk then cat.history.after s else cat.history := by
  cases answered : (cat.execute root s).1 with
  | ok a => exact history_execute_of_ok answered
  | error e =>
      have readable : ∀ table damage, e ≠ .unreadableHeader table damage := by
        rintro table damage rfl
        obtain ⟨table', -, -, oversized⟩ := h.oversized_of_execute answered rfl
        exact small table' oversized
      rw [execute_eq_self_of_error answered readable]
      rfl

/-- Every table of the catalog can be opened. -/
theorem find_of_known (h : cat.MadeBy events)
    (small : ∀ table, ¬ Event.DeclareOversized events table) (known : cat[name]? = some c)
    (valid : Identifier.isValid name = true) : cat.find name = .ok c := by
  rcases h.find_cases known valid with found | ⟨_, -, oversized⟩
  · exact found
  · exact absurd oversized (small name)

end MadeBy

end Catalog

theorem Catalog.madeBy_nil : Catalog.MadeBy [] ∅ :=
  fun name c known => by simp at known

/-! ## Histories of services -/

theorem Event.DeclareOversized.mono {events events' : List Event} {table : String}
    (h : DeclareOversized events table) (sub : ∀ e ∈ events, e ∈ events') :
    DeclareOversized events' table := by
  obtain ⟨columns, made, oversized⟩ := h
  exact ⟨columns, sub _ made, oversized⟩

namespace Service

namespace Agrees

variable {t₀ : FileTree} {root : Path} {r : Place} {sync : Bool} {cat : Catalog} {v : Service}
  {before : List Event}

/-- Along a run the service writes the history of the catalog. -/
theorem history_run (h : v.Agrees t₀ root r sync cat) (empty : t₀.EmptyRoot root r)
    (made : cat.MadeBy before) (events : List Event)
    (small : ∀ table, ¬ Event.DeclareOversized (before ++ events) table) :
    v.history cat.history events = (cat.run root events).history := by
  induction events generalizing v cat before with
  | nil => rfl
  | cons e events ih =>
      rw [List.append_cons] at small
      cases e with
      | reopening =>
          have sub : ∀ e ∈ before, e ∈ before ++ [.reopening] := fun _ => List.mem_append_left _
          exact ih (h.after empty .reopening) (made.mono sub) small
      | statement s =>
          have first : ∀ table, ¬ Event.DeclareOversized (before ++ [.statement s]) table :=
            fun table oversized =>
              small table (oversized.mono fun _ => List.mem_append_left _)
          have recorded : v.recorded cat.history s = Catalog.history (cat.execute root s).2 := by
            rw [recorded, h.execute_eq empty, made.history_execute first]
          show (v.execute s).2.history (v.recorded cat.history s) events = _
          rw [recorded]
          exact ih (h.execute empty s) (made.execute root s) small

/-- The service knows the tables of the catalog. -/
theorem knows (h : v.Agrees t₀ root r sync cat) (empty : t₀.EmptyRoot root r)
    (made : cat.MadeBy before) (small : ∀ table, ¬ Event.DeclareOversized before table) :
    v.Knows root cat.history := by
  refine ⟨?_, ?_, ⟨cat.keys, h.execute_eq empty _, ?_, cat.keys_ascend⟩, ?_⟩
  · intro table columns schema valid declared fits
    have proper : (Definition.ofSchema table schema).Proper := ⟨valid, .of_ofDeclarations? declared⟩
    have read := Header.reread_of_fits proper ((Header.fits_iff_not_oversized declared).2 fits)
    have checked := Identifier.check_eq_ok.2 valid
    rw [h.execute_eq empty]
    show (cat.makeTable root table columns).1 = _
    simp only [Catalog.makeTable, checked, declared, read, Result.ok_bind]
    by_cases present : table ∈ cat.history
    · have known := Option.isSome_iff_exists.2 (Catalog.mem_history.1 present)
      rw [if_pos present, if_pos known]
    · have unknown := present ∘ Catalog.mem_history.2 ∘ Option.isSome_iff_exists.1
      rw [if_neg present, if_neg unknown]
      split <;> rfl
  · intro s table about valid other
    rw [h.execute_eq empty, Catalog.mem_history]
    constructor
    · rintro answered ⟨c, known⟩
      have found := made.find_of_known small known valid
      exact (Catalog.onlyFails_execute_of_find about other found).ne_tableNotFound table answered
    · intro absent
      apply Catalog.execute_of_find_error about other
      cases known : cat[table]? with
      | none => simp [Catalog.find, Identifier.check_eq_ok.2 valid, known]
      | some c => exact absurd ⟨c, known⟩ absent
  · intro name
    rw [Std.ExtTreeMap.mem_keys, Catalog.history, Std.ExtTreeMap.mem_map]
  · intro table t told
    rw [Catalog.getElem?_history] at told
    obtain ⟨c, known, rfl⟩ := Option.map_eq_some_iff.1 told
    have belongs := h.depicts.sound table c known
    have valid : Identifier.isValid c.name = true := belongs.proper.definition.name
    have found := made.find_of_known small known (belongs.named ▸ valid)
    rw [h.execute_eq empty, ← c.describe_eq]
    show (cat.find table >>= fun c => .ok c.describe) = _
    rw [found]
    rfl

end Agrees

/-- The history of a run from an empty storage root is that of the catalog's run. -/
theorem history_eq {d : Disk} {root : Path} {r : Place} (empty : d.tree.EmptyRoot root r)
    (sync : Bool) {events : List Event} (small : ∀ table, ¬ Event.DeclareOversized events table) :
    (start root sync d).history ∅ events = (Catalog.run root ∅ events).history := by
  have written := (empty.agrees sync).history_run empty Catalog.madeBy_nil events small
  rwa [Catalog.history_empty] at written

/-- From an empty storage root, whatever is executed and whenever all open tables are
forgotten, a service knows exactly the tables of its history, which is made from the accepted
statements alone. -/
theorem follows_history {d : Disk} {root : Path} (empty : d.EmptyAt root) (sync : Bool)
    (events : List Event) (small : ∀ table, ¬ Event.DeclareOversized events table) :
    let v := start root sync d
    (v.run events).Knows root (v.history ∅ events) := by
  obtain ⟨r, empty⟩ := empty
  show ((start root sync d).run events).Knows root ((start root sync d).history ∅ events)
  rw [history_eq empty sync small]
  exact ((empty.agrees sync).run empty events).knows empty (Catalog.madeBy_nil.run root events)
    small

/-- A table that is dropped and made anew has its new column only, and no index. -/
theorem follows_history_remade :
    let events := Event.sample ++ [.statement (.dropTable "points"),
      .statement (.createTable "points" [⟨"y", .char 3, false⟩])]
    let v := start ⟨"db"⟩ true .prepared
    (v.run events).Knows ⟨"db"⟩ (v.history ∅ events) ∧
      ((v.run events).execute (.describe "points")).1 =
        .ok (.ofRows ["Field", "Type", "Null", "Index"] [["y", "CHAR(3)", "NO", "NO"]]) := by
  intro events v
  have small : ∀ table, ¬ Event.DeclareOversized events table := by
    rintro table ⟨columns, made, oversized⟩
    simp only [events, Event.sample, List.cons_append, List.nil_append, List.mem_cons,
      List.not_mem_nil, Event.statement.injEq, Statement.createTable.injEq, reduceCtorEq,
      or_false, false_or] at made
    rcases made with ⟨rfl, rfl⟩ | ⟨rfl, rfl⟩ <;>
      simp [Declaration.Oversized, ColumnType.length, UInt64.size] at oversized
  have written : (v.history ∅ events)["points"]? = some ⟨[⟨"y", .char 3, false⟩], []⟩ := by
    obtain ⟨r, empty⟩ := Disk.emptyAt_prepared
    rw [history_eq empty true small]
    decide +kernel
  have knows := follows_history Disk.emptyAt_prepared true events small
  exact ⟨knows, (knows.describes written).trans (by decide)⟩

end Service

end FlatDB
