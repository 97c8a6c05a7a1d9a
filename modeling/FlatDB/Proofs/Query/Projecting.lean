/-
# Projections of answers

What a select list makes of a table is a part of what the lone wildcard makes of it: the same
rows, of each row the cells under the names of the listed columns, in the order of the list.  Only
the headers are the list's own.  The columns of every answer are as wide as what is in them.
-/

import FlatDB.Proofs.Query.Rows
import FlatDB.Proofs.Query.SelectLists

namespace FlatDB

namespace Answer

/-! ## Widths -/

/-- Whether each column is two characters wider than the longest text in it, its header
included. -/
structure Fits (a : Answer) : Prop where
  /-- Each column has a width. -/
  length : a.widths.length = a.columns.length
  /-- The width of a column is two more than the length of its longest text. -/
  longest : ∀ (i : Nat) header, a.columns[i]? = some header →
    a.widths[i]? = ((header :: a.rows.filterMap (·[i]?)).map String.length).max?.map (· + 2)

variable {widths : List Nat} {cells : List String} {rows : List (List String)}

@[simp]
theorem length_widen (widths : List Nat) (cells : List String) :
    (widen widths cells).length = widths.length := by
  induction widths generalizing cells with
  | nil => cases cells <;> rfl
  | cons width widths ih =>
    cases cells with
    | nil => rfl
    | cons cell cells => exact congrArg (· + 1) (ih cells)

/-- A row widens a column to the width of its cell there. -/
theorem getElem?_widen (widths : List Nat) (cells : List String) (i : Nat) :
    (widen widths cells)[i]? =
      widths[i]?.map fun width => cells[i]?.elim width fun cell => max width (widthOf cell) := by
  induction widths generalizing cells i with
  | nil => cases cells <;> rfl
  | cons width widths ih =>
    cases cells with
    | nil => simp [widen]
    | cons cell cells =>
      cases i with
      | zero => rfl
      | succ i => exact ih cells i

theorem length_foldl_widen (rows : List (List String)) (widths : List Nat) :
    (rows.foldl widen widths).length = widths.length := by
  induction rows generalizing widths with
  | nil => rfl
  | cons row rows ih => exact (ih _).trans (length_widen widths row)

/-- Rows widen a column to the width of their widest cell there. -/
theorem getElem?_foldl_widen (rows : List (List String)) (widths : List Nat) (i : Nat) :
    (rows.foldl widen widths)[i]? = widths[i]?.map fun width =>
      (rows.filterMap (·[i]?)).foldl (fun width cell => max width (widthOf cell)) width := by
  induction rows generalizing widths with
  | nil => simp
  | cons row rows ih =>
    rw [List.foldl_cons, ih, getElem?_widen, Option.map_map]
    congr 1
    funext width
    cases cell : row[i]? with
    | none => simp [cell]
    | some text => simp [cell]

/-- The greatest width is that of the longest text. -/
theorem foldl_max_widthOf (cells : List String) (header : String) :
    cells.foldl (fun width cell => max width (widthOf cell)) (widthOf header) =
      (cells.map String.length).foldl max header.length + 2 := by
  rw [List.foldl_map]
  exact List.foldl_hom (· + 2) fun length cell => (Nat.add_max_add_right length cell.length 2)

/-- Rows are answered with columns that fit them. -/
theorem fits_ofRows (columns : List String) (rows : List (List String)) :
    (ofRows columns rows).Fits := by
  refine ⟨(length_foldl_widen rows _).trans (List.length_map _), fun i header place => ?_⟩
  change columns[i]? = some header at place
  show (rows.foldl widen (columns.map widthOf))[i]? =
    ((header :: rows.filterMap (·[i]?)).map String.length).max?.map (· + 2)
  rw [getElem?_foldl_widen, List.getElem?_map, place, Option.map_some, Option.map_some,
    foldl_max_widthOf, List.map_cons, List.max?_cons', Option.map_some]

/-! ## Cells -/

/-- The cell of a row under a header. -/
def cell? (a : Answer) (row : List String) (header : String) : Option String :=
  (a.columns.zip row).lookup header

/-- Among different headers each finds its own cell. -/
theorem lookup_zip {headers : List String} (distinct : headers.Nodup) {i : Nat} {header : String}
    (place : headers[i]? = some header) (row : List String) :
    (headers.zip row).lookup header = row[i]? := by
  induction headers generalizing i row with
  | nil => cases place
  | cons first headers ih =>
    obtain ⟨new, distinct⟩ := List.nodup_cons.1 distinct
    cases row with
    | nil => rfl
    | cons cell row =>
      cases i with
      | zero =>
        cases place
        simp
      | succ i =>
        have other : header ≠ first := fun same =>
          new (same ▸ List.mem_of_getElem? place)
        rw [List.zip_cons_cons, List.lookup_cons, beq_eq_false_iff_ne.2 other]
        exact ih distinct place row

/-- An answer that shows some columns of another one. -/
structure Restricts (listed whole : Answer) (shown : List (Column × String)) : Prop where
  /-- The headers are those that are asked for. -/
  columns : listed.columns = shown.map Prod.snd
  /-- There are the same rows, and in each of them the cells of the columns that are shown. -/
  rows : (listed.rows.map fun row => row.map some) =
    whole.rows.map fun row => shown.map fun p => whole.cell? row p.1.name
  /-- The columns are as wide as what is in them. -/
  fits : listed.Fits
  /-- An index is used for both or for neither. -/
  usedIndex : listed.usedIndex = whole.usedIndex
  /-- Nothing else is said in one of them only. -/
  affected : listed.affected = whole.affected
  message : listed.message = whole.message

end Answer

/-! ## Selections -/

/-- What becomes of a selection when its columns are listed: whether it is accepted and what it
answers is decided by what the selection of everything comes to and by the list. -/
structure Definition.Projects (d : Definition) (items : List SelectItem)
    (whole listed : Except Error Answer) : Prop where
  /-- It is accepted just if the other one is and the list names columns of the table. -/
  accepted : listed.isOk = true ↔ whole.isOk = true ∧ ∃ shown, d.schema.Lists items shown
  /-- Then it answers the part that is listed. -/
  answered : ∀ a, listed = .ok a →
    ∃ b shown, whole = .ok b ∧ d.schema.Lists items shown ∧ a.Restricts b shown
  /-- Otherwise it is refused as the other one is, or else for the first item at fault. -/
  refused : ∀ e, listed = .error e ↔ whole = .error e ∨
    whole.isOk = true ∧ items ≠ [.wildcard] ∧ d.FirstOffends [] items e

namespace Contents

variable {c : Contents} {items : List SelectItem} {shown : List (Column × String)}

theorem columns_answer_wildcard (c : Contents) (filter : Option Predicate) :
    (c.answer (Projection.wildcard c.schema) filter).columns = c.schema.columnNames := by
  show (Projection.wildcard c.schema).map Projected.header = c.schema.columns.map fun c => c.name
  apply List.ext_getElem?
  intro i
  simp [Projection.wildcard, Function.comp_def]

/-- In an answer of all columns the cells of a record are found under the names of the columns. -/
theorem cell?_answer_wildcard (h : c.Proper) (filter : Option Predicate) (record : Record)
    {column : Column} (mem : column ∈ c.schema.columns) :
    (c.answer (Projection.wildcard c.schema) filter).cell? record.fields column.name =
      record.get? column.position := by
  have schema : c.schema.Proper := h.definition.schema
  have place : c.schema.columnNames[column.position]? = some column.name := by
    rw [Schema.columnNames, List.getElem?_map, schema.getElem?_position mem]
    rfl
  rw [Answer.cell?, columns_answer_wildcard]
  exact Answer.lookup_zip schema.distinct place record.fields

/-- A record contributes the cells of the columns that are shown. -/
theorem map_some_row (h : c.Proper) (lists : c.schema.Lists items shown)
    (filter : Option Predicate) {s : Stored} (mem : s ∈ c.stored) :
    (Projection.row (shown.map Projection.ofShown) s.2).map some = shown.map fun p =>
      (c.answer (Projection.wildcard c.schema) filter).cell? s.2.fields p.1.name := by
  rw [Projection.row, List.map_map, List.map_map]
  apply List.map_congr_left
  intro p listed
  have column := Schema.mem_of_lists lists listed
  obtain ⟨text, there, -⟩ := (h.typed s mem).get? h.definition.schema column
  rw [cell?_answer_wildcard h filter s.2 column, there]
  show some ((s.2.get? p.1.position).getD "") = some text
  rw [there, Option.getD_some]

/-- What a select list shows of a table is a part of what the lone wildcard shows. -/
theorem restricts_answer (h : c.Proper) (lists : c.schema.Lists items shown)
    (filter : Option Predicate) : (c.answer (shown.map Projection.ofShown) filter).Restricts
      (c.answer (Projection.wildcard c.schema) filter) shown := by
  have fits := Answer.fits_ofRows ((shown.map Projection.ofShown).map Projected.header)
    ((c.accepted filter).map fun s => Projection.row (shown.map Projection.ofShown) s.2)
  refine ⟨List.map_map .., ?_, ⟨fits.length, fits.longest⟩, rfl, rfl, rfl⟩
  rw [rows_answer_wildcard h, picked, List.map_map]
  show ((c.accepted filter).map _).map _ = _
  rw [List.map_map]
  apply List.map_congr_left
  intro s mem
  exact map_some_row h lists filter (List.mem_filter.1 mem).1

/-- A selection is refused for its filter, or else for its select list. -/
theorem selectFrom_eq_error {filter : Option Expr} {e : Error} :
    c.selectFrom items filter = .error e ↔ c.selectFrom [.wildcard] filter = .error e ∨
      (c.selectFrom [.wildcard] filter).isOk = true ∧ items ≠ [.wildcard] ∧
        c.definition.FirstOffends [] items e := by
  rw [selectFrom_wildcard, ← Projection.ofList_eq_error, selectFrom]
  cases Predicate.ofFilter c.definition filter with
  | error e' => simp [Except.map]
  | ok predicate =>
    cases Projection.ofList c.definition items with
    | error e' => simp [Except.map]
    | ok columns => simp [Except.map]

/-- A selection is accepted just if its filter and its select list are. -/
theorem selectFrom_eq_ok (h : c.Proper) {filter : Option Expr} {a : Answer} :
    c.selectFrom items filter = .ok a ↔ ∃ predicate shown,
      Predicate.ofFilter c.definition filter = .ok predicate ∧ c.schema.Lists items shown ∧
        c.answer (shown.map Projection.ofShown) predicate = a := by
  have schema : c.definition.schema.Proper := h.definition.schema
  rw [selectFrom]
  constructor
  · intro selected
    obtain ⟨predicate, checked, projected⟩ := Result.bind_eq_ok.1 selected
    obtain ⟨columns, listed, same⟩ := Result.bind_eq_ok.1 projected
    obtain ⟨shown, lists, rfl⟩ := (Projection.ofList_eq_ok schema).1 listed
    exact ⟨predicate, shown, checked, lists, Except.ok.inj same⟩
  · rintro ⟨predicate, shown, checked, lists, rfl⟩
    rw [checked, Result.ok_bind, (Projection.ofList_eq_ok schema).2 ⟨shown, lists, rfl⟩]
    rfl

/-- A selection that lists columns projects the selection of everything. -/
theorem projects_selectFrom (h : c.Proper) (items : List SelectItem) (filter : Option Expr) :
    c.definition.Projects items (c.selectFrom [.wildcard] filter)
      (c.selectFrom items filter) := by
  have answered (a : Answer) (selected : c.selectFrom items filter = .ok a) :
      ∃ b shown, c.selectFrom [.wildcard] filter = .ok b ∧ c.schema.Lists items shown ∧
        a.Restricts b shown := by
    obtain ⟨predicate, shown, checked, lists, rfl⟩ := (selectFrom_eq_ok h).1 selected
    refine ⟨_, shown, ?_, lists, restricts_answer h lists predicate⟩
    rw [selectFrom_wildcard, checked]
    rfl
  refine ⟨?_, answered, fun e => selectFrom_eq_error⟩
  rw [Result.isOk_iff, Result.isOk_iff]
  constructor
  · rintro ⟨a, selected⟩
    obtain ⟨b, shown, whole, lists, -⟩ := answered a selected
    exact ⟨⟨b, whole⟩, shown, lists⟩
  · rintro ⟨⟨b, whole⟩, shown, lists⟩
    obtain ⟨predicate, -, checked, -, -⟩ := (selectFrom_eq_ok h).1 whole
    exact ⟨_, (selectFrom_eq_ok h).2 ⟨predicate, shown, checked, lists, rfl⟩⟩

end Contents

end FlatDB
