/-
# One literal in three statements

A value for a column is checked when a row is inserted, when a field is set and when rows are
looked for, and each time in another way.  The three checks agree: what is accepted for a new row
is accepted for an assignment and stored as the same text, and it is accepted in a filter, where
being equal to it means being stored as that text.
-/

import FlatDB.Proofs.Query.Comparing

namespace FlatDB

namespace Column

variable {c : Column} {table text : String} {value : Literal}

/-- What is stored is of the kind that the column holds. -/
theorem admitsKind_of_storedText (stored : c.storedText table value = .ok text) :
    c.admitsKind value = true := by
  rcases storedText_eq_ok.1 stored with ⟨int, n, rfl, -⟩ | ⟨bound, char, rfl, -⟩ | ⟨date, rfl, -⟩
  · simp [admitsKind, int]
  · simp [admitsKind, char, ColumnType.isTextual]
  · simp [admitsKind, date, ColumnType.isTextual]

/-- Only literals are stored. -/
theorem storedValue_eq_ok {value : Expr} : c.storedValue table value = .ok text ↔
    ∃ literal, value = .literal literal ∧ c.storedText table literal = .ok text := by
  rw [storedValue, Result.bind_eq_ok]
  cases value <;> simp [Column.literal]

end Column

/-- Looking at the kind of a value first makes no difference to which values are accepted. -/
theorem Statement.assignmentOf_eq_ok {d : Definition} {name text : String} {column : Column}
    (known : d.column name = .ok column) {value : Expr} :
    assignmentOf d [⟨name, value⟩] = .ok (column, text) ↔
      column.storedValue d.name value = .ok text := by
  constructor
  · intro assigned
    obtain ⟨a, same, known', stored⟩ := storedValue_of_assignmentOf assigned
    cases same
    exact stored
  · intro stored
    obtain ⟨literal, rfl, fits⟩ := Column.storedValue_eq_ok.1 stored
    have kind := Column.admitsKind_of_storedText fits
    rw [assignmentOf, known]
    simp only [Result.ok_bind, kind, fits, if_true]
    rfl

/-- What is stored can be asked for, and then the texts of the column that pass are those that
equal the stored one. -/
theorem Predicate.acceptsText_of_storedValue {d : Definition} {ref : ColumnRef} {column : Column}
    (known : d.schema.column? ref.column = some column) {value : Expr} {text : String}
    (stored : column.storedValue d.name value = .ok text) :
    ∃ p, ofExpr d (.binary .eq (.column ref) value) = .ok p ∧
      ∀ other, column.Admits other → (p.acceptsText other = true ↔ other = text) := by
  obtain ⟨literal, rfl, fits⟩ := Column.storedValue_eq_ok.1 stored
  have comparable := Column.comparable_of_storedText fits
  obtain ⟨operand, made⟩ := Result.isOk_iff.1 ((Column.isOk_ofLiteral d.name).2 comparable)
  refine ⟨⟨column.name, column.position, .eq, operand⟩, ?_, fun other admits => ?_⟩
  · rw [ofExpr_comparison known, made]
    rfl
  · obtain ⟨o, ordered, orders⟩ := Column.orders_of_admits made admits
    rw [acceptsText, ordered, ← orders.eq_iff fits]
    exact Ordering.isEq_iff_eq_eq

end FlatDB
