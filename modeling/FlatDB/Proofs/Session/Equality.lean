/-
# Rows that equal a literal

Selecting the rows whose column equals a literal shows those that store the very text that the
literal would be stored as.  This is more than comparing texts, since integers and dates are
compared by value; it rests on every value of a column being stored as one text only.
-/

import FlatDB.Proofs.Query.Literals
import FlatDB.Proofs.Session.Filtering

namespace FlatDB

/-- A value that is treated alike wherever it stands for the column. -/
structure Column.Uniform (c : Column) (d : Definition) (ref : ColumnRef) (value : Expr) : Prop where
  /-- An assignment accepts it just if a new row does, and sets the text that the row would
  store. -/
  assigned : (Statement.assignmentOf d [⟨ref.column, value⟩]).toOption =
    (c.storedValue d.name value).toOption.map fun text => (c, text)
  /-- If they do, a filter accepts it too, and of all texts that literals can be stored as in the
  column it is that text which equals it. -/
  compared : ∀ text, c.storedValue d.name value = .ok text →
    ∃ p, Predicate.ofExpr d (.binary .eq (.column ref) value) = .ok p ∧
      ∀ table literal other, c.storedText table literal = .ok other →
        (p.acceptsText other = true ↔ other = text)

theorem Column.uniform {d : Definition} {ref : ColumnRef} {column : Column}
    (known : d.schema.column? ref.column = some column) (value : Expr) :
    column.Uniform d ref value := by
  constructor
  · have known := Definition.column_eq_ok.2 known
    cases stored : column.storedValue d.name value with
    | ok text =>
        rw [(Statement.assignmentOf_eq_ok known).2 stored]
        rfl
    | error e =>
        cases assigned : Statement.assignmentOf d [⟨ref.column, value⟩] with
        | error e' => rfl
        | ok pair =>
            obtain ⟨a, same, known', fits⟩ := Statement.storedValue_of_assignmentOf assigned
            cases same
            cases known.symm.trans known'
            cases stored.symm.trans fits
  · intro text stored
    obtain ⟨p, checked, equals⟩ := Predicate.acceptsText_of_storedValue known stored
    exact ⟨p, checked, fun table literal other stored' =>
      equals other (admits_of_storedText stored')⟩

namespace Service

/-- The rows that equal a literal are those that store its text. -/
theorem Sorts.eq_filter {v : Service} {table : String} {ref : ColumnRef} {column : Column}
    {value : Literal} {order : List String → Ordering} {rows before same after : List (List String)}
    (h : v.Sorts table ref column value order rows before same after) {owner text : String}
    (stored : column.storedText owner value = .ok text) :
    v.compared table ref value .eq =
      .ok (rows.filter fun row => row[column.position]? = some text) := by
  rw [h.eq, h.same_eq]
  apply congrArg Except.ok
  apply List.filter_congr
  intro row mem
  obtain ⟨other, field, orders⟩ := h.ordered row mem
  rw [field, Bool.eq_iff_iff, decide_eq_true_iff, decide_eq_true_iff, Option.some.injEq]
  exact orders.eq_iff stored

/-- The statements agree on values.  In any table that can be reached from an empty storage root
by statements and reopenings a selection by equality with a value shows exactly the rows that
store the text which a new row would store for that value. -/
theorem literals_agree :
    (∀ (d : Definition) (ref : ColumnRef) (column : Column),
        d.schema.column? ref.column = some column → ∀ value, column.Uniform d ref value) ∧
      ∀ (d : Disk) (root : Path), d.EmptyAt root → ∀ (sync : Bool) (events : List Event),
        let v := (start root sync d).run events
        ∀ name t, v.openTable name = .ok t →
          ∀ (ref : ColumnRef) (column : Column), t.schema.column? ref.column = some column →
            ∀ value text, column.storedValue t.name value = .ok text →
              ∃ stored, (v.disk.perform t.records.records).1 = .ok stored ∧
                v.selected name (some (.binary .eq (.column ref) value)) =
                  .ok ((stored.map fun s => s.2.fields).filter fun row =>
                    row[column.position]? = some text) := by
  refine ⟨fun d ref column known value => Column.uniform known value, ?_⟩
  rintro d root ⟨r, empty⟩ sync events v name t opened ref column known value text stored
  have agrees : v.Agrees d.tree root r sync _ := (empty.agrees sync).run empty events
  obtain ⟨c, found, rfl⟩ := agrees.find_of_openTable empty opened
  obtain ⟨literal, rfl, fits⟩ := Column.storedValue_eq_ok.1 stored
  obtain ⟨order, before, same, after, sorts⟩ :=
    agrees.sorts empty found known (Column.comparable_of_storedText fits)
  exact ⟨c.stored, agrees.records_eq empty found, sorts.eq_filter fits⟩

/-- The number seven in an indexed column. -/
theorem literals_agree_sample :
    let v := (start ⟨"db"⟩ true .prepared).run Event.sample
    ∃ t column, v.openTable "points" = .ok t ∧ t.schema.column? "x" = some column ∧
      column.Uniform t.definition ⟨none, "x"⟩ (.literal (.integer 7)) ∧
      column.storedValue t.name (.literal (.integer 7)) = .ok "7" ∧
      v.selected "points" (some (.binary .eq (.column ⟨none, "x"⟩) (.literal (.integer 7)))) =
        .ok [["7"]] := by
  intro v
  obtain ⟨r, empty⟩ := Disk.emptyAt_prepared
  have agrees : v.Agrees _ ⟨"db"⟩ r true _ := (empty.agrees true).run empty Event.sample
  have filled : ((Catalog.run ⟨"db"⟩ ∅ Event.sample).find "points").toOption.any (fun c =>
      c.schema.column? "x" = some ⟨⟨"x", .int, true⟩, 0⟩ && c.stored = [(1, ⟨["7"]⟩)]) = true := by
    decide +kernel
  obtain ⟨c, found, holds⟩ := Result.exists_of_any filled
  obtain ⟨known, shown⟩ := Bool.and_eq_true_iff.1 holds
  have opened : v.openTable "points" = _ := agrees.openTable_eq empty found
  have column := of_decide_eq_true known
  obtain ⟨uniform, selects⟩ := literals_agree
  obtain ⟨stored, read, selected⟩ := selects _ _ Disk.emptyAt_prepared true Event.sample _ _ opened
    ⟨none, "x"⟩ _ column (.literal (.integer 7)) "7" rfl
  obtain rfl : c.stored = stored := Except.ok.inj ((agrees.records_eq empty found).symm.trans read)
  rw [of_decide_eq_true shown] at selected
  exact ⟨_, _, opened, column, uniform _ _ _ column _, rfl, selected⟩

end Service

end FlatDB
