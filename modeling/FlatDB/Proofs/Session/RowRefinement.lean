/-
# Tables are lists of rows

What clients see of a table is a list of rows that statements change in the plain
way: a new row goes to the end, a change sets one text in exactly the rows that a
selection with the same filter would have shown, a deletion removes exactly
those, and nothing else touches the list.  The reference below says so with the
service's own selections, which may be answered by an index, while changes and
deletions read the whole table; the two agree in every state that can be reached.
-/

import FlatDB.Proofs.Query.Rows
import FlatDB.Proofs.Session.Locality
import FlatDB.Proofs.Session.Running

namespace FlatDB

/-! ## The reference -/

namespace Service

/-- The rows that a selection of all fields shows. -/
def selected (v : Service) (table : String) (filter : Option Expr) :
    Except Error (List (List String)) :=
  (v.execute (.select table [.wildcard] filter)).1.map Answer.rows

/-- What is to become of the rows of a table when a service executes a statement.  Only an
accepted statement about the table changes them. -/
def rowsAfter (d : Definition) (rows : List (List String)) (v : Service) (s : Statement) :
    Except Error (List (List String)) :=
  if (v.execute s).1.isOk ∧ s.table? = some d.name then
    match s with
    | .insert _ _ values => do
      return rows ++ [← Statement.storedRow d.name d.schema.columns values]
    | .update _ [a] filter => do
      let column ← d.column a.column
      let text ← column.storedValue d.name a.value
      let picked ← v.selected d.name filter
      return rows.map fun row => if row ∈ picked then row.set column.position text else row
    | .update _ assignments _ => .error (.unsupported (.assignments assignments.length))
    | .delete _ filter => do
      let picked ← v.selected d.name filter
      return rows.filter fun row => row ∉ picked
    | _ => .ok rows
  else .ok rows

/-- The rows a table is to have after a run, if it had none before. -/
def referenceRows (d : Definition) (v : Service) (events : List Event) :
    Except Error (List (List String)) :=
  (v.trace events).foldlM (fun rows (w, s) => w.rowsAfter d rows s) []

/-- Whether a statement adds a row to a table and is accepted. -/
def addsRow (table : String) (v : Service) : Statement → Bool
  | .insert other columns values =>
    other = table && (v.execute (.insert other columns values)).1.isOk
  | _ => false

/-- The number of ids a table has handed out. -/
def recordCount (v : Service) (table : String) : Except Error Nat :=
  (v.openTable table).map fun t => t.records.lastId.toNat

/-- A service that shows these rows of a table. -/
structure Shows (v : Service) (table : String) (rows : List (List String)) : Prop where
  /-- Selecting without a filter shows all rows. -/
  all : v.selected table none = .ok rows
  /-- Selecting with a filter shows some of them, in their order, and which are shown depends
  on the row alone. -/
  some : ∀ filter picked, v.selected table filter = .ok picked →
    picked = rows.filter fun row => row ∈ picked
  /-- The number of changed rows is that of the rows that would be selected. -/
  updated : ∀ assignments filter answer,
    (v.execute (.update table assignments filter)).1 = .ok answer →
      (v.selected table filter).map List.length = .ok answer.affected
  /-- So is the number of removed rows. -/
  deleted : ∀ filter answer, (v.execute (.delete table filter)).1 = .ok answer →
    (v.selected table filter).map List.length = .ok answer.affected

end Service

/-! ## Catalogs -/

namespace Catalog

variable {root : Path} {cat : Catalog} {name : String} {c : Contents}

/-- Making a table never touches one that is there. -/
theorem find_makeTable (found : cat.find name = .ok c) (other : String)
    (columns : List Declaration) : find (cat.makeTable root other columns).2 name = .ok c := by
  unfold makeTable
  dsimp only
  split
  · exact found
  split
  · exact found
  · next absent =>
    split
    · have ne : other ≠ name := by
        rintro rfl
        rw [(find_eq_ok.1 found).2.1] at absent
        exact absent rfl
      exact find_insert_of_ne found ne _
    · exact found

/-- A statement about another table leaves this one as it is. -/
theorem find_execute_of_ne (found : cat.find name = .ok c) {s : Statement}
    (elsewhere : s.table? ≠ some name) : find (cat.execute root s).2 name = .ok c :=
  (find_congr (getElem?_execute_of_ne elsewhere)).trans found

end Catalog

/-! ## Services -/

namespace Service.Agrees

variable {t₀ : FileTree} {root : Path} {r : Place} {sync : Bool} {cat : Catalog} {v : Service}
  {name : String} {c : Contents}

theorem belongs (h : v.Agrees t₀ root r sync cat) (found : cat.find name = .ok c) :
    c.Belongs root name :=
  h.depicts.sound name c (Catalog.find_eq_ok.1 found).2.1

/-- A selection shows the rows that its filter picks. -/
theorem selected_eq (h : v.Agrees t₀ root r sync cat) (empty : t₀.EmptyRoot root r)
    (found : cat.find name = .ok c) (filter : Option Expr) :
    v.selected name filter = (Predicate.ofFilter c.definition filter).map c.picked := by
  rw [selected, h.execute_eq empty, ← Contents.map_rows_selectFrom (h.belongs found).proper]
  show (cat.find name >>= fun c => c.selectFrom [.wildcard] filter).map Answer.rows = _
  rw [found]
  rfl

/-- A statement that is refused or about another table is not about these rows. -/
theorem rowsAfter_of_unaffected {d : Definition} {rows : List (List String)} {s : Statement}
    (unaffected : ¬ ((v.execute s).1.isOk ∧ s.table? = some d.name)) :
    v.rowsAfter d rows s = .ok rows := by
  unfold rowsAfter
  exact if_neg unaffected

/-- What becomes of the table when a statement is executed: its contents are then these, their
rows are those of the reference, and an id is handed out for each new row. -/
structure Follows (root : Path) (cat : Catalog) (v : Service) (name : String) (c : Contents)
    (s : Statement) (c' : Contents) : Prop where
  found : Catalog.find (cat.execute root s).2 name = .ok c'
  definition : c'.definition = c.definition
  rows : v.rowsAfter c.definition c.rows s = .ok c'.rows
  count : c'.lastId.toNat = c.lastId.toNat + if v.addsRow name s then 1 else 0

/-- A refused statement changes nothing. -/
theorem follows_of_error (h : v.Agrees t₀ root r sync cat) (empty : t₀.EmptyRoot root r)
    (found : cat.find name = .ok c) {s : Statement} {e : Error}
    (done : cat.execute root s = (.error e, cat.insert name c)) : Follows root cat v name c s
      c := by
  have refused : (v.execute s).1 = .error e := by rw [h.execute_eq empty, done]
  refine ⟨?_, rfl, ?_, ?_⟩
  · rw [done]
    exact Catalog.find_insert_self found rfl
  · apply rowsAfter_of_unaffected
    simp [refused, Except.isOk, Except.toBool]
  · have none : v.addsRow name s = false := by
      cases s with
      | insert table columns values => simp [addsRow, refused, Except.isOk, Except.toBool]
      | _ => rfl
    simp [none]

/-- A statement about another table changes nothing. -/
theorem follows_of_ne (h : v.Agrees t₀ root r sync cat) (found : cat.find name = .ok c)
    {s : Statement} (elsewhere : s.table? ≠ some name) : Follows root cat v name c s c := by
  refine ⟨Catalog.find_execute_of_ne found elsewhere, rfl, ?_, ?_⟩
  · apply rowsAfter_of_unaffected
    rintro ⟨-, same⟩
    exact elsewhere (same.trans (congrArg some (h.belongs found).named))
  · have none : v.addsRow name s = false := by
      cases s with
      | insert table columns values =>
          have ne : table ≠ name := fun e => elsewhere (congrArg some e)
          simp [addsRow, ne]
      | _ => rfl
    simp [none]

theorem follows_insert (h : v.Agrees t₀ root r sync cat) (empty : t₀.EmptyRoot root r)
    (found : cat.find name = .ok c) (columns : Option (List String)) (values : List Expr) :
    ∃ c', Follows root cat v name c (.insert name columns values) c' := by
  have named : c.definition.name = name := (h.belongs found).named
  have done : cat.execute root (.insert name columns values) = _ :=
    Catalog.onTable_of_find found fun c => c.insertInto columns values
  rcases c.insertInto_cases columns values with ⟨e, refused⟩ | ⟨texts, stored, fresh, accepted⟩
  · rw [refused] at done
    exact ⟨c, h.follows_of_error empty found done⟩
  · rw [accepted] at done
    have ok : (v.execute (.insert name columns values)).1.isOk = true := by
      rw [h.execute_eq empty, done]
      rfl
    refine ⟨c.append ⟨texts⟩, ?_, rfl, ?_, ?_⟩
    · rw [done]
      exact Catalog.find_insert_self found rfl
    · unfold rowsAfter
      rw [if_pos ⟨ok, congrArg some named.symm⟩, Contents.rows_append]
      show (Statement.storedRow c.name c.schema.columns values >>= _) = _
      rw [stored]
      rfl
    · simp [addsRow, ok, Contents.append, RecordId.toNat_next fresh]

theorem follows_update (h : v.Agrees t₀ root r sync cat) (empty : t₀.EmptyRoot root r)
    (found : cat.find name = .ok c) (assignments : List Assignment) (filter : Option Expr) :
    ∃ c', Follows root cat v name c (.update name assignments filter) c' := by
  have named : c.definition.name = name := (h.belongs found).named
  have done : cat.execute root (.update name assignments filter) = _ :=
    Catalog.onTable_of_find found fun c => c.updateRows assignments filter
  rcases c.updateRows_cases assignments filter with
    ⟨e, refused⟩ | ⟨a, column, text, predicate, message, rfl, known, stored, checked, accepted⟩
  · rw [refused] at done
    exact ⟨c, h.follows_of_error empty found done⟩
  · rw [accepted] at done
    have ok : (v.execute (.update name [a] filter)).1.isOk = true := by
      rw [h.execute_eq empty, done]
      rfl
    have picked : v.selected c.definition.name filter = .ok (c.picked predicate) := by
      rw [named, h.selected_eq empty found, checked]
      rfl
    refine ⟨c.assign (Predicate.acceptedBy predicate) column.position text, ?_, rfl, ?_, rfl⟩
    · rw [done]
      exact Catalog.find_insert_self found rfl
    · have stored' : column.storedValue c.definition.name a.value = .ok text := stored
      unfold rowsAfter
      rw [if_pos ⟨ok, congrArg some named.symm⟩, Contents.rows_assign]
      simp only [known, stored', picked, Result.ok_bind, Result.pure_eq_ok]

theorem follows_delete (h : v.Agrees t₀ root r sync cat) (empty : t₀.EmptyRoot root r)
    (found : cat.find name = .ok c) (filter : Option Expr) :
    ∃ c', Follows root cat v name c (.delete name filter) c' := by
  have named : c.definition.name = name := (h.belongs found).named
  have done : cat.execute root (.delete name filter) = _ :=
    Catalog.onTable_of_find found fun c => c.deleteRows filter
  rcases c.deleteRows_cases filter with ⟨e, refused⟩ | ⟨predicate, message, checked, accepted⟩
  · rw [refused] at done
    exact ⟨c, h.follows_of_error empty found done⟩
  · rw [accepted] at done
    have ok : (v.execute (.delete name filter)).1.isOk = true := by
      rw [h.execute_eq empty, done]
      rfl
    have picked : v.selected c.definition.name filter = .ok (c.picked predicate) := by
      rw [named, h.selected_eq empty found, checked]
      rfl
    refine ⟨c.remove (Predicate.acceptedBy predicate), ?_, rfl, ?_, rfl⟩
    · rw [done]
      exact Catalog.find_insert_self found rfl
    · unfold rowsAfter
      rw [if_pos ⟨ok, congrArg some named.symm⟩, Contents.rows_remove]
      simp only [picked, Result.ok_bind, Result.pure_eq_ok]

/-- A statement that neither adds nor changes nor removes rows. -/
theorem follows_of_idle {s : Statement} {c' : Contents}
    (found : Catalog.find (cat.execute root s).2 name = .ok c')
    (definition : c'.definition = c.definition) (stored : c'.stored = c.stored)
    (lastId : c'.lastId = c.lastId) (adds : v.addsRow name s = false)
    (rows : v.rowsAfter c.definition c.rows s = .ok c.rows) : Follows root cat v name c s c' := by
  refine ⟨found, definition, ?_, ?_⟩
  · rw [rows, Contents.rows, Contents.rows, stored]
  · simp [adds, lastId]

theorem follows_createIndex (h : v.Agrees t₀ root r sync cat) (empty : t₀.EmptyRoot root r)
    (found : cat.find name = .ok c) (index : String) (columns : List String) :
    ∃ c', Follows root cat v name c (.createIndex name index columns) c' := by
  have done : cat.execute root (.createIndex name index columns) = _ :=
    Catalog.onTable_of_find found fun c => c.makeIndex root index columns
  rcases c.makeIndex_cases root index columns with
    ⟨e, refused⟩ | ⟨column, indexed, message, rfl, checked, room, accepted⟩
  · rw [refused] at done
    exact ⟨c, h.follows_of_error empty found done⟩
  · rw [accepted] at done
    have found' : Catalog.find (cat.execute root (.createIndex name index [column])).2 name =
        .ok (c.withIndex indexed) := by
      rw [done]
      exact Catalog.find_insert_self found rfl
    refine ⟨c.withIndex indexed, follows_of_idle found' rfl rfl rfl rfl ?_⟩
    unfold rowsAfter
    split <;> rfl

/-- Every statement that does not drop the table does to its rows what the reference does. -/
theorem follows (h : v.Agrees t₀ root r sync cat) (empty : t₀.EmptyRoot root r)
    (found : cat.find name = .ok c) {s : Statement} (kept : s ≠ .dropTable name) :
    ∃ c', Follows root cat v name c s c' := by
  by_cases here : s.table? = some name
  · have idle (found : Catalog.find (cat.execute root s).2 name = .ok c)
        (adds : v.addsRow name s = false)
        (rows : v.rowsAfter c.definition c.rows s = .ok c.rows) :
        ∃ c', Follows root cat v name c s c' :=
      ⟨c, follows_of_idle found rfl rfl rfl adds rows⟩
    cases s with
    | createTable table columns =>
        apply idle (Catalog.find_makeTable found table columns) rfl
        unfold rowsAfter
        split <;> rfl
    | insert table columns values =>
        obtain rfl : table = name := Option.some.inj here
        exact h.follows_insert empty found columns values
    | select table items filter =>
        apply idle found rfl
        unfold rowsAfter
        split <;> rfl
    | update table assignments filter =>
        obtain rfl : table = name := Option.some.inj here
        exact h.follows_update empty found assignments filter
    | delete table filter =>
        obtain rfl : table = name := Option.some.inj here
        exact h.follows_delete empty found filter
    | createIndex table index columns =>
        obtain rfl : table = name := Option.some.inj here
        exact h.follows_createIndex empty found index columns
    | dropTable table =>
        obtain rfl : table = name := Option.some.inj here
        exact absurd rfl kept
    | describe table =>
        apply idle found rfl
        unfold rowsAfter
        split <;> rfl
    | showTables => cases here
  · exact ⟨c, h.follows_of_ne found here⟩

/-- So does a run. -/
theorem run_follows (h : v.Agrees t₀ root r sync cat) (empty : t₀.EmptyRoot root r)
    (found : cat.find name = .ok c) {events : List Event}
    (kept : .statement (.dropTable name) ∉ events) :
    ∃ c', Catalog.find (cat.run root events) name = .ok c' ∧ c'.definition = c.definition ∧
      (v.trace events).foldlM (fun rows (w, s) => w.rowsAfter c.definition rows s) c.rows =
        .ok c'.rows ∧
      c'.lastId.toNat = c.lastId.toNat + (v.trace events).countP fun (w, s) => w.addsRow name
        s := by
  induction events generalizing v cat c with
  | nil => exact ⟨c, found, rfl, rfl, rfl⟩
  | cons e events ih =>
      have later : .statement (.dropTable name) ∉ events := fun mem =>
        kept (List.mem_cons_of_mem e mem)
      cases e with
      | reopening => exact ih (h.after empty .reopening) found later
      | statement s =>
          have ne : s ≠ .dropTable name := by
            rintro rfl
            exact kept List.mem_cons_self
          obtain ⟨c₁, first⟩ := h.follows empty found ne
          obtain ⟨c', found', same, rows, count⟩ := ih (h.execute empty s) first.found later
          refine ⟨c', found', same.trans first.definition, ?_, ?_⟩
          · rw [trace, List.foldlM_cons]
            simp only [first.rows, Result.ok_bind]
            rw [← first.definition]
            exact rows
          · rw [trace, List.countP_cons, count, first.count]
            dsimp only
            omega

/-- A service shows the rows of the table as the catalog has it. -/
theorem shows (h : v.Agrees t₀ root r sync cat) (empty : t₀.EmptyRoot root r)
    (found : cat.find name = .ok c) : v.Shows name c.rows := by
  refine ⟨?_, ?_, ?_, ?_⟩
  · rw [h.selected_eq empty found, ← c.picked_none]
    rfl
  · intro filter picked shown
    rw [h.selected_eq empty found] at shown
    cases checked : Predicate.ofFilter c.definition filter with
    | error e =>
        rw [checked] at shown
        cases shown
    | ok predicate =>
        rw [checked] at shown
        cases shown
        exact c.picked_eq_filter predicate
  · intro assignments filter answer updated
    have done : cat.execute root (.update name assignments filter) = _ :=
      Catalog.onTable_of_find found fun c => c.updateRows assignments filter
    rw [h.execute_eq empty, done] at updated
    rcases c.updateRows_cases assignments filter with
      ⟨e, refused⟩ | ⟨a, column, text, predicate, message, -, -, -, checked, accepted⟩
    · rw [refused] at updated
      cases updated
    · rw [accepted] at updated
      cases updated
      rw [h.selected_eq empty found, checked]
      rfl
  · intro filter answer deleted
    have done : cat.execute root (.delete name filter) = _ :=
      Catalog.onTable_of_find found fun c => c.deleteRows filter
    rw [h.execute_eq empty, done] at deleted
    rcases c.deleteRows_cases filter with ⟨e, refused⟩ | ⟨predicate, message, checked, accepted⟩
    · rw [refused] at deleted
      cases deleted
    · rw [accepted] at deleted
      cases deleted
      rw [h.selected_eq empty found, checked]
      rfl

theorem recordCount_eq (h : v.Agrees t₀ root r sync cat) (empty : t₀.EmptyRoot root r)
    (found : cat.find name = .ok c) : v.recordCount name = .ok c.lastId.toNat := by
  rw [recordCount, h.openTable_eq empty found]
  rfl

end Service.Agrees

/-- A table that was made has no rows and can be opened. -/
theorem Catalog.find_of_isOk_makeTable {root : Path} {cat : Catalog} {name : String}
    {columns : List Declaration} (made : (cat.makeTable root name columns).1.isOk) :
    ∃ schema, Schema.ofDeclarations? name columns = .ok schema ∧
      Catalog.find (cat.makeTable root name columns).2 name =
        .ok (.new (.ofSchema name schema)) := by
  unfold makeTable at made ⊢
  cases checked : Identifier.check name >>= fun _ => Schema.ofDeclarations? name columns with
  | error e =>
      rw [checked] at made
      cases made
  | ok schema =>
      obtain ⟨_, valid, declared⟩ := Result.bind_eq_ok.1 checked
      simp only [checked] at made
      dsimp only
      by_cases present : cat[name]?.isSome = true
      · rw [if_pos present] at made
        cases made
      by_cases room : root.RoomFor name
      · rw [if_neg present, if_pos room] at made ⊢
        cases read : Header.reread (Definition.ofSchema name schema) with
        | error e =>
            rw [read] at made
            cases made
        | ok d =>
            exact ⟨schema, declared,
              find_eq_ok.2 ⟨Identifier.check_eq_ok.1 valid, by simp, d, read⟩⟩
      · rw [if_neg present, if_neg room] at made
        cases made

namespace Service

/-- From an empty storage root, once a table has been made and as long as it is not dropped,
selections show the rows of the reference, the numbers of changed and removed rows are those
of the rows a selection would show, and as many ids have been handed out as rows were
added. -/
theorem shows_referenceRows {d : Disk} {root : Path} (empty : d.EmptyAt root) (sync : Bool)
    (before events : List Event) {table : String} {columns : List Declaration}
    (created : (((start root sync d).run before).execute (.createTable table columns)).1.isOk)
    (kept : .statement (.dropTable table) ∉ events) :
    let v := (((start root sync d).run before).execute (.createTable table columns)).2
    ∃ schema rows, Schema.ofDeclarations? table columns = .ok schema ∧
      v.referenceRows (.ofSchema table schema) events = .ok rows ∧
      (v.run events).Shows table rows ∧
      (v.run events).recordCount table =
        .ok ((v.trace events).countP fun (w, s) => w.addsRow table s) := by
  obtain ⟨r, empty⟩ := empty
  have agrees := (empty.agrees sync).run empty before
  rw [agrees.execute_eq empty] at created
  obtain ⟨schema, declared, found⟩ := Catalog.find_of_isOk_makeTable created
  have made := agrees.execute empty (.createTable table columns)
  obtain ⟨c, found', same, rows, count⟩ := made.run_follows empty found kept
  have ran := made.run empty events
  refine ⟨schema, c.rows, declared, rows, ran.shows empty found', ?_⟩
  rw [ran.recordCount_eq empty found', count]
  simp [Contents.new]

theorem shows_referenceRows_sample :
    let created := (start ⟨"db"⟩ true .prepared).execute (.createTable "points" [⟨"x", .int, true⟩])
    created.1.isOk = true ∧
      ∃ schema rows, Schema.ofDeclarations? "points" [⟨"x", .int, true⟩] = .ok schema ∧
        created.2.referenceRows (.ofSchema "points" schema) Event.sample = .ok rows ∧
        (created.2.run Event.sample).Shows "points" rows ∧
        (created.2.run Event.sample).recordCount "points" =
          .ok ((created.2.trace Event.sample).countP fun (w, s) => w.addsRow "points" s) := by
  obtain ⟨r, empty⟩ := Disk.emptyAt_prepared
  have created : ((start ⟨"db"⟩ true .prepared).execute
      (.createTable "points" [⟨"x", .int, true⟩])).1.isOk = true := by
    rw [(empty.agrees true).execute_eq empty]
    decide +kernel
  have kept : .statement (.dropTable "points") ∉ Event.sample := by simp [Event.sample]
  exact ⟨created, shows_referenceRows Disk.emptyAt_prepared true [] Event.sample created kept⟩

end Service

end FlatDB
