/-
# The order of a column's values

A column orders its values by what they stand for: integers as numbers, texts by their bytes,
dates in time.  The literal that a filter compares them with may be any that stands for such a
value, which for texts includes those that are too long to be stored.  As a column holds none but
texts of its own values, every one of them has its place before, at or after the literal.  So no
row is lost to a comparison because there is nothing to compare.
-/

import FlatDB.Proofs.Date
import FlatDB.Proofs.Query.Rows
import FlatDB.Proofs.Text.Order

namespace FlatDB

/-! ## Values and literals -/

/-- Comparing 32-bit numbers is comparing their values. -/
theorem Numeral.compares_toInt (m n : Int32) : (compare m n).Compares m.toInt n.toInt :=
  compares_of_lt (fun before => Int32.lt_iff_toInt_lt.1 (compareOfLessAndEq_eq_lt.1 before)) m n

namespace Column

/-- Whether a literal stands for a value that those of the column can be compared with. -/
def Comparable (c : Column) (value : Literal) : Prop :=
  match c.type, value with
  | .int, .integer n => -2147483648 ≤ n ∧ n ≤ 2147483647
  | .char _, .text _ => True
  | .date, .text s => ∃ e : Date, s = e.written
  | _, _ => False

/-- How the value of a text in the column is ordered against that of a literal: integers as
numbers, texts by their bytes, dates by the days that they are. -/
def Orders (c : Column) (text : String) (value : Literal) (o : Ordering) : Prop :=
  match c.type, value with
  | .int, .integer n => ∃ m : Int, text = Numeral.ofInt m ∧ o.Compares m n
  | .char _, .text s => o.Compares (Utf8.encode text) (Utf8.encode s)
  | .date, .text s =>
    ∃ d e : Date, text = d.written ∧ s = e.written ∧ o.Compares d.dayNumber e.dayNumber
  | _, _ => False

variable {c : Column} {table text : String} {value : Literal} {o : Ordering}

theorem orders_int (int : c.type = .int) {n : Int} : c.Orders text (.integer n) o ↔
    ∃ m : Int, text = Numeral.ofInt m ∧ o.Compares m n := by
  unfold Orders
  rw [int]

theorem orders_char {bound : Nat} (char : c.type = .char bound) {s : String} :
    c.Orders text (.text s) o ↔ o.Compares (Utf8.encode text) (Utf8.encode s) := by
  unfold Orders
  rw [char]

theorem orders_date (date : c.type = .date) {s : String} : c.Orders text (.text s) o ↔
    ∃ d e : Date, text = d.written ∧ s = e.written ∧ o.Compares d.dayNumber e.dayNumber := by
  unfold Orders
  rw [date]

/-- A filter accepts the literals that can be compared with. -/
theorem isOk_ofLiteral (table : String) :
    (Operand.ofLiteral table c value).isOk = true ↔ c.Comparable value := by
  unfold Operand.ofLiteral Comparable
  cases c.type with
  | int =>
      cases value with
      | integer n =>
          dsimp only
          rw [← Numeral.isSome_int32OfInt?]
          cases Numeral.int32OfInt? n <;> simp [Except.isOk, Except.toBool]
      | null | real _ | text _ => simp [Except.isOk, Except.toBool]
  | char bound =>
      cases value with
      | text s => simp [Except.isOk, Except.toBool]
      | null | real _ | integer _ => simp [Except.isOk, Except.toBool]
  | date =>
      cases value with
      | text s =>
          dsimp only
          rw [← Date.isSome_parse?]
          cases Date.parse? s <;> simp [Except.isOk, Except.toBool]
      | null | real _ | integer _ => simp [Except.isOk, Except.toBool]

/-- Every text that the column admits is ordered against every literal that a filter accepts. -/
theorem orders_of_admits {operand : Operand} (made : Operand.ofLiteral table c value = .ok operand)
    (admits : c.Admits text) : ∃ o, operand.order? text = some o ∧ c.Orders text value o := by
  unfold Operand.ofLiteral at made
  unfold Admits at admits
  split at made
  · next n int =>
    rw [int] at admits
    split at made
    · next v found =>
      cases made
      obtain ⟨m, rfl⟩ := admits
      refine ⟨compare m v, by simp [Operand.order?], (orders_int int).2 ⟨m.toInt, rfl, ?_⟩⟩
      rw [← Numeral.int32OfInt?_eq_some.1 found]
      exact Numeral.compares_toInt m v
    · cases made
  · next s char =>
    cases made
    exact ⟨compare text s, rfl, (orders_char char).2 (Utf8.compares_encode text s)⟩
  · next s date =>
    rw [date] at admits
    split at made
    · next e found =>
      cases made
      obtain ⟨d, read⟩ := Option.isSome_iff_exists.1 admits
      refine ⟨compare d e, by simp [Operand.order?, read], (orders_date date).2 ?_⟩
      exact ⟨d, e, (Date.parse?_eq_some.1 read).symm, (Date.parse?_eq_some.1 found).symm,
        Date.compares_dayNumber d e⟩
    · cases made
  · cases made

/-- What is stored can be compared with. -/
theorem comparable_of_storedText (stored : c.storedText table value = .ok text) :
    c.Comparable value := by
  unfold Comparable
  rcases storedText_eq_ok.1 stored with ⟨int, n, rfl, -⟩ | ⟨bound, char, rfl, -⟩ |
    ⟨date, rfl, valid⟩
  · rw [int]
    exact Numeral.isSome_int32OfInt?.1 (by simp)
  · rw [char]
    trivial
  · rw [date]
    exact Date.isSome_parse?.1 valid

/-- Among the texts of a column only the one that a literal is stored as has the literal's
value. -/
theorem Orders.eq_iff {other : String} (orders : c.Orders other value o)
    (stored : c.storedText table value = .ok text) : o = .eq ↔ other = text := by
  rcases storedText_eq_ok.1 stored with ⟨int, n, rfl, rfl⟩ | ⟨bound, char, rfl, -⟩ |
    ⟨date, rfl, -⟩
  · obtain ⟨m, rfl, compares⟩ := (orders_int int).1 orders
    rw [compares.eq_eq, Numeral.ofInt32, Numeral.ofInt_inj]
  · exact Utf8.eq_iff_of_compares ((orders_char char).1 orders)
  · obtain ⟨d, e, rfl, rfl, compares⟩ := (orders_date date).1 orders
    rw [compares.eq_eq, Date.dayNumber_inj, Date.written_inj]

end Column

/-! ## Filters -/

/-- A comparison of a column with a literal is checked by looking at the operator and then at the
literal. -/
theorem Predicate.ofExpr_comparison {d : Definition} {ref : ColumnRef} {column : Column}
    (known : d.schema.column? ref.column = some column) (op : Operator) (value : Literal) :
    ofExpr d (.binary op (.column ref) (.literal value)) =
      match op.comparison? with
      | none => .error (.unknownOperator op.symbol)
      | some comparison => (Operand.ofLiteral d.name column value).map fun operand =>
          ⟨column.name, column.position, comparison, operand⟩ := by
  rw [ofExpr, Definition.column_eq_ok.2 known]
  cases op.comparison? with
  | none => rfl
  | some comparison =>
      show (Operand.ofLiteral d.name column value >>= fun operand => _) = _
      cases Operand.ofLiteral d.name column value <;> rfl

/-! ## Rows -/

/-- How the field that a row has at a position is ordered against the operand. -/
def Operand.orderAt (operand : Operand) (position : Nat) (row : List String) : Ordering :=
  (row[position]?.bind operand.order?).getD .eq

namespace Contents

variable {c : Contents} {column : Column} {value : Literal} {operand : Operand}

/-- Every record of a table has its place in the order of each column. -/
theorem exists_order? (h : c.Proper) (mem : column ∈ c.schema.columns)
    (made : Operand.ofLiteral c.name column value = .ok operand) {s : Stored}
    (there : s ∈ c.stored) :
    ∃ text o, s.2.get? column.position = some text ∧ operand.order? text = some o ∧
      column.Orders text value o := by
  obtain ⟨text, field, admits⟩ := (h.typed s there).get? h.definition.schema mem
  obtain ⟨o, ordered, orders⟩ := Column.orders_of_admits made admits
  exact ⟨text, o, field, ordered, orders⟩

theorem orders_of_mem_rows (h : c.Proper) (mem : column ∈ c.schema.columns)
    (made : Operand.ofLiteral c.name column value = .ok operand) {row : List String}
    (there : row ∈ c.rows) :
    ∃ text, row[column.position]? = some text ∧
      column.Orders text value (operand.orderAt column.position row) := by
  obtain ⟨s, stored, rfl⟩ := List.mem_map.1 there
  obtain ⟨text, o, field, ordered, orders⟩ := exists_order? h mem made stored
  have field : s.2.fields[column.position]? = some text := field
  refine ⟨text, field, ?_⟩
  rw [Operand.orderAt, field, Option.bind_some, ordered]
  exact orders

/-- A comparison picks the rows whose place in the order it asks for. -/
theorem picked_comparison (h : c.Proper) (mem : column ∈ c.schema.columns)
    (made : Operand.ofLiteral c.name column value = .ok operand) (comparison : Comparison) :
    c.picked (some ⟨column.name, column.position, comparison, operand⟩) =
      c.rows.filter fun row => comparison.holds (operand.orderAt column.position row) := by
  rw [picked, accepted, rows, List.filter_map]
  apply congrArg (List.map fun s : Stored => s.2.fields)
  apply List.filter_congr
  intro s there
  obtain ⟨text, o, field, ordered, -⟩ := exists_order? h mem made there
  have field' : s.2.fields[column.position]? = some text := field
  rw [Function.comp_apply, Operand.orderAt, field', Option.bind_some, ordered]
  show Predicate.accepts _ s.2 = _
  rw [Predicate.accepts, field]
  simp only [Predicate.acceptsText, ordered]
  rfl

end Contents

end FlatDB
