/-
# Comparisons of a column with a literal

A filter that compares a column with a literal puts every row of the table before, at or after
the literal, in the order of the column's values.  The six comparisons answer the rows of one or
two of the three parts, always in the order in which the rows are stored.  That none is lost
rests on what every reachable table holds: texts of the column's own values and nothing else.
Whether the column has an index makes no difference.
-/

import FlatDB.Proofs.Query.Comparing
import FlatDB.Proofs.Session.RowRefinement

namespace FlatDB

/-! ## Three parts of a list -/

/-- What is ordered against something is before it, at it or after it. -/
theorem perm_of_order {α : Type} (order : α → Ordering) (l : List α) :
    (l.filter (fun a => order a = .lt) ++ l.filter (fun a => order a = .eq) ++
      l.filter fun a => order a = .gt).Perm l := by
  induction l with
  | nil => exact .nil
  | cons a l ih =>
      cases place : order a with
      | lt =>
          simp only [List.filter_cons, place]
          exact ih.cons a
      | eq =>
          simp only [List.filter_cons, place]
          exact (List.perm_middle.append_right _).trans (ih.cons a)
      | gt =>
          simp only [List.filter_cons, place]
          exact List.perm_middle.trans (ih.cons a)

namespace Service

/-! ## What comparisons show -/

/-- The rows that a comparison of a column with a literal shows. -/
def compared (v : Service) (table : String) (ref : ColumnRef) (value : Literal) (op : Operator) :
    Except Error (List (List String)) :=
  v.selected table (some (.binary op (.column ref) (.literal value)))

/-- A table whose rows are sorted by a literal into those before it, those at it and those
after it. -/
structure Sorts (v : Service) (table : String) (ref : ColumnRef) (column : Column) (value : Literal)
    (order : List String → Ordering) (rows before same after : List (List String)) : Prop where
  /-- These are all rows of the table. -/
  all : v.selected table none = .ok rows
  /-- Each of them has a text for the column, with its place in the order of the column. -/
  ordered : ∀ row ∈ rows, ∃ text, row[column.position]? = some text ∧
    column.Orders text value (order row)
  /-- The rows before the literal, in the order of the rows. -/
  before_eq : before = rows.filter fun row => order row = .lt
  same_eq : same = rows.filter fun row => order row = .eq
  after_eq : after = rows.filter fun row => order row = .gt
  /-- Together the three parts are the rows of the table. -/
  perm : (before ++ same ++ after).Perm rows
  /-- Each row is in exactly one of them. -/
  one : ∀ row ∈ rows, (row ∈ before ∧ row ∉ same ∧ row ∉ after) ∨
    (row ∉ before ∧ row ∈ same ∧ row ∉ after) ∨ (row ∉ before ∧ row ∉ same ∧ row ∈ after)
  /-- Three of the comparisons show one part. -/
  lt : v.compared table ref value .lt = .ok before
  eq : v.compared table ref value .eq = .ok same
  gt : v.compared table ref value .gt = .ok after
  /-- The others show two parts, merged in the order of the rows. -/
  le : v.compared table ref value .le = .ok (rows.filter fun row => row ∈ before ∨ row ∈ same)
  ge : v.compared table ref value .ge = .ok (rows.filter fun row => row ∈ after ∨ row ∈ same)
  ne : v.compared table ref value .ne = .ok (rows.filter fun row => row ∈ before ∨ row ∈ after)

variable {v : Service} {table : String} {ref : ColumnRef} {column : Column} {value : Literal}
  {order : List String → Ordering} {rows : List (List String)}

/-- Rows are sorted as soon as each comparison shows those whose place it asks for. -/
theorem sorts_of_shows (all : v.selected table none = .ok rows)
    (ordered : ∀ row ∈ rows, ∃ text, row[column.position]? = some text ∧
      column.Orders text value (order row))
    (shows : ∀ op comparison, op.comparison? = some comparison →
      v.compared table ref value op = .ok (rows.filter fun row => comparison.holds (order row))) :
    ∃ before same after, v.Sorts table ref column value order rows before same after := by
  have part {op : Operator} {comparison : Comparison} (compares : op.comparison? = some comparison)
      {place : Ordering} (asks : ∀ o, comparison.holds o = decide (o = place)) :
      v.compared table ref value op = .ok (rows.filter fun row => order row = place) := by
    rw [shows op comparison compares]
    simp only [asks]
  have merge {op : Operator} {comparison : Comparison}
      (compares : op.comparison? = some comparison) {place place' : Ordering}
      (asks : ∀ o, comparison.holds o = decide (o = place ∨ o = place')) :
      v.compared table ref value op = .ok (rows.filter fun row =>
        row ∈ rows.filter (fun row => order row = place) ∨
          row ∈ rows.filter fun row => order row = place') := by
    rw [shows op comparison compares]
    apply congrArg Except.ok
    apply List.filter_congr
    intro row mem
    simp [asks, mem]
  refine ⟨_, _, _, all, ordered, rfl, rfl, rfl, perm_of_order order rows, fun row mem => ?_,
    part rfl ?_, part rfl ?_, part rfl ?_, merge rfl ?_, merge rfl ?_, merge rfl ?_⟩
  · simp only [List.mem_filter, mem, true_and]
    cases order row <;> simp
  all_goals
    intro o
    cases o <;> rfl

/-! ## Services -/

namespace Agrees

variable {t₀ : FileTree} {root : Path} {r : Place} {sync : Bool} {cat : Catalog} {name : String}
  {c : Contents}

/-- A comparison shows what its predicate picks, if there is one. -/
theorem compared_eq (h : v.Agrees t₀ root r sync cat) (empty : t₀.EmptyRoot root r)
    (found : cat.find name = .ok c) (known : c.schema.column? ref.column = some column)
    (value : Literal) (op : Operator) :
    v.compared name ref value op =
      match op.comparison? with
      | none => .error (.unknownOperator op.symbol)
      | some comparison => (Operand.ofLiteral c.name column value).map fun operand =>
          c.picked (some ⟨column.name, column.position, comparison, operand⟩) := by
  rw [compared, h.selected_eq empty found, Predicate.ofFilter,
    Predicate.ofExpr_comparison known op value]
  cases op.comparison? with
  | none => rfl
  | some comparison =>
      show ((Operand.ofLiteral c.name column value).map _ >>= _).map _ = _
      cases Operand.ofLiteral c.name column value <;> rfl

/-- Comparisons with a literal that the column can be compared with sort the rows. -/
theorem sorts (h : v.Agrees t₀ root r sync cat) (empty : t₀.EmptyRoot root r)
    (found : cat.find name = .ok c) (known : c.schema.column? ref.column = some column)
    (comparable : column.Comparable value) :
    ∃ order before same after,
      v.Sorts name ref column value order c.rows before same after := by
  have proper := (h.belongs found).proper
  have mem := Schema.mem_of_column? known
  obtain ⟨operand, made⟩ := Result.isOk_iff.1 ((Column.isOk_ofLiteral c.name).2 comparable)
  have all : v.selected name none = .ok c.rows := by
    rw [h.selected_eq empty found, ← c.picked_none]
    rfl
  refine ⟨operand.orderAt column.position, sorts_of_shows all ?_ ?_⟩
  · exact fun row there => Contents.orders_of_mem_rows proper mem made there
  · intro op comparison compares
    rw [h.compared_eq empty found known, compares, ← Contents.picked_comparison proper mem made]
    simp only [made]
    rfl

end Agrees

/-- From an empty storage root, after any statements and reopenings, an operator and a literal
are accepted just if it is a comparison and the column can be compared with the literal, and then
the comparisons of the column with the literal sort the rows of the table, in the order in which
its records are stored. -/
theorem comparisons_sort_rows {d : Disk} {root : Path} (empty : d.EmptyAt root) (sync : Bool)
    (events : List Event) {name : String} {t : Table}
    (opened : ((start root sync d).run events).openTable name = .ok t) (ref : ColumnRef)
    {column : Column} (known : t.schema.column? ref.column = some column) (value : Literal) :
    let v := (start root sync d).run events
    (∀ op, (v.compared name ref value op).isOk ↔
        op.comparison?.isSome ∧ column.Comparable value) ∧
      (column.Comparable value → ∃ stored order before same after,
        (v.disk.perform t.records.records).1 = .ok stored ∧
          v.Sorts name ref column value order (stored.map fun s => s.2.fields) before same
            after) := by
  obtain ⟨r, empty⟩ := empty
  intro v
  have agrees : v.Agrees d.tree root r sync _ := (empty.agrees sync).run empty events
  obtain ⟨c, found, rfl⟩ := agrees.find_of_openTable empty opened
  constructor
  · intro op
    rw [agrees.compared_eq empty found known, ← Column.isOk_ofLiteral c.name]
    cases op.comparison? with
    | none => simp [Except.isOk, Except.toBool]
    | some comparison =>
        cases Operand.ofLiteral c.name column value <;>
          simp [Except.isOk, Except.toBool, Except.map]
  · intro comparable
    obtain ⟨order, before, same, after, sorts⟩ := agrees.sorts empty found known comparable
    exact ⟨c.stored, order, before, same, after, agrees.records_eq empty found, sorts⟩

/-- The literal may be longer than the texts that the column admits. -/
theorem comparisons_sort_rows_overlong :
    let events := [.statement (.createTable "words" [⟨"w", .char 1, true⟩]),
      .statement (.insert "words" none [.literal (.text "b")]),
      .statement (.insert "words" none [.literal (.text "a")])]
    let v := (start ⟨"db"⟩ true .prepared).run events
    ∃ t column, v.openTable "words" = .ok t ∧ t.schema.column? "w" = some column ∧
      column.type = .char 1 ∧ column.Comparable (.text "aa") ∧
      ∃ order before same after,
        v.Sorts "words" ⟨none, "w"⟩ column (.text "aa") order [["b"], ["a"]] before same after := by
  intro events v
  obtain ⟨r, empty⟩ := Disk.emptyAt_prepared
  have agrees := (empty.agrees true).run empty events
  have filled : ((Catalog.run ⟨"db"⟩ ∅ events).find "words").toOption.any (fun c =>
      c.schema.column? "w" = some ⟨⟨"w", .char 1, true⟩, 0⟩ && c.rows = [["b"], ["a"]]) = true := by
    decide +kernel
  obtain ⟨c, found, holds⟩ := Result.exists_of_any filled
  obtain ⟨known, shown⟩ := Bool.and_eq_true_iff.1 holds
  have opened := agrees.openTable_eq empty found
  have column := of_decide_eq_true known
  obtain ⟨-, sorts⟩ := comparisons_sort_rows Disk.emptyAt_prepared true events opened ⟨none, "w"⟩
    column (.text "aa")
  obtain ⟨stored, order, before, same, after, read, sorts⟩ := sorts trivial
  obtain rfl : c.stored = stored := Except.ok.inj ((agrees.records_eq empty found).symm.trans read)
  have rows : (c.stored.map fun s => s.2.fields) = [["b"], ["a"]] := of_decide_eq_true shown
  rw [rows] at sorts
  exact ⟨_, _, opened, column, rfl, trivial, order, before, same, after, sorts⟩

end Service

end FlatDB
