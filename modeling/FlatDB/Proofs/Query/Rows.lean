/-
# Rows of a table

Seen from outside a table is a list of rows, each the texts of one record.  The
rows that a filter picks are among them, and whether a row is picked depends on
the row alone.  So what changing and removing records does to the rows can be said
with the picked rows in hand, without the filter and without ids.
-/

import FlatDB.Proofs.Query.Contents

namespace FlatDB

/-- The lone wildcard shows all fields of a record. -/
theorem Projection.row_wildcard {s : Schema} {record : Record} (h : record.arity = s.arity) :
    Projection.row (Projection.wildcard s) record = record.fields := by
  apply List.ext_getElem
  · have length : record.fields.length = s.columns.length := h
    simp [Projection.row, Projection.wildcard, length]
  · intro i _ inside
    simp [Projection.row, Projection.wildcard, Record.get?, List.getElem?_eq_getElem inside]

namespace Contents

variable {c : Contents}

/-- The rows of the table. -/
def rows (c : Contents) : List (List String) :=
  c.stored.map fun s => s.2.fields

/-- The rows that a filter picks. -/
def picked (c : Contents) (filter : Option Predicate) : List (List String) :=
  (c.accepted filter).map fun s => s.2.fields

/-- The lone wildcard selects the rows that the filter picks. -/
theorem rows_answer_wildcard (h : c.Proper) (filter : Option Predicate) :
    (c.answer (Projection.wildcard c.schema) filter).rows = c.picked filter := by
  apply List.map_congr_left
  intro s mem
  exact Projection.row_wildcard (h.arity s (List.mem_filter.1 mem).1)

/-- The lone wildcard selects all columns of the records that a filter accepts. -/
theorem selectFrom_wildcard (c : Contents) (filter : Option Expr) :
    c.selectFrom [.wildcard] filter =
      (Predicate.ofFilter c.definition filter).map (c.answer (Projection.wildcard c.schema)) := by
  rw [selectFrom]
  cases Predicate.ofFilter c.definition filter <;> rfl

theorem map_rows_selectFrom (h : c.Proper) (filter : Option Expr) :
    (c.selectFrom [.wildcard] filter).map Answer.rows =
      (Predicate.ofFilter c.definition filter).map c.picked := by
  rw [selectFrom_wildcard]
  cases Predicate.ofFilter c.definition filter with
  | error e => rfl
  | ok predicate => exact congrArg Except.ok (rows_answer_wildcard h predicate)

/-- Whether a row is picked depends on the row alone. -/
theorem mem_picked {s : Stored} (mem : s ∈ c.stored) (filter : Option Predicate) :
    s.2.fields ∈ c.picked filter ↔ Predicate.acceptedBy filter s.2 = true := by
  constructor
  · intro shown
    obtain ⟨s', found, same⟩ := List.mem_map.1 shown
    have record : s'.2 = s.2 := congrArg Record.mk same
    rw [← record]
    exact (List.mem_filter.1 found).2
  · intro accepted
    exact List.mem_map.2 ⟨s, List.mem_filter.2 ⟨mem, accepted⟩, rfl⟩

/-- The picked rows are rows of the table, in their order. -/
theorem picked_eq_filter (c : Contents) (filter : Option Predicate) :
    c.picked filter = c.rows.filter fun row => row ∈ c.picked filter := by
  rw [rows]
  rw [List.filter_map]
  apply congrArg (List.map fun s : Stored => s.2.fields)
  apply List.filter_congr
  intro s mem
  rw [Bool.eq_iff_iff, Function.comp_apply, decide_eq_true_iff, mem_picked mem]

/-- Without a filter all rows are picked. -/
theorem picked_none (c : Contents) : c.picked none = c.rows := by
  have all : c.accepted none = c.stored := List.filter_eq_self.2 fun _ _ => rfl
  rw [picked, all, rows]

theorem length_picked (c : Contents) (filter : Option Predicate) :
    (c.picked filter).length = (c.accepted filter).length :=
  List.length_map _

theorem rows_append (c : Contents) (record : Record) :
    (c.append record).rows = c.rows ++ [record.fields] := by
  simp [rows, append]

/-- Setting a field sets it in the picked rows. -/
theorem rows_assign (c : Contents) (filter : Option Predicate) (position : Nat) (text : String) :
    (c.assign (Predicate.acceptedBy filter) position text).rows =
      c.rows.map fun row => if row ∈ c.picked filter then row.set position text else row := by
  unfold rows assign
  rw [List.map_map, List.map_map]
  apply List.map_congr_left
  intro s mem
  simp only [Function.comp_apply, mem_picked mem, Entries.assign]
  split <;> rfl

/-- Removing records leaves the rows that are not picked. -/
theorem rows_remove (c : Contents) (filter : Option Predicate) :
    (c.remove (Predicate.acceptedBy filter)).rows =
      c.rows.filter fun row => row ∉ c.picked filter := by
  unfold rows remove
  rw [List.filter_map]
  apply congrArg (List.map fun s : Stored => s.2.fields)
  apply List.filter_congr
  intro s mem
  rw [Function.comp_apply, Bool.eq_iff_iff, decide_eq_true_iff, mem_picked mem]
  simp

/-! ## Statements on rows

For each statement what it comes to: an error with nothing changed, or an answer
with the rows changed in the one way the statement asks for. -/

/-- A new row holds the texts stored for its values. -/
theorem insertInto_cases (c : Contents) (columns : Option (List String)) (values : List Expr) :
    (∃ e, c.insertInto columns values = (.error e, c)) ∨
      ∃ texts, Statement.storedRow c.name c.schema.columns values = .ok texts ∧
        c.lastId.toNat + 1 ≠ UInt64.size ∧
        c.insertInto columns values = (.ok (.ofCount 1 "1 row inserted"), c.append ⟨texts⟩) := by
  rw [insertInto]
  cases checked : Statement.recordOf c.definition columns values with
  | error e => exact .inl ⟨e, rfl⟩
  | ok record =>
      by_cases exhausted : c.lastId.toNat + 1 = UInt64.size
      · simp only [if_pos exhausted]
        exact .inl ⟨_, rfl⟩
      · simp only [if_neg exhausted]
        obtain ⟨-, texts, stored, rfl⟩ := Statement.storedRow_of_recordOf checked
        exact .inr ⟨texts, stored, exhausted, rfl⟩

/-- A field is set to the text stored for the one assigned value. -/
theorem updateRows_cases (c : Contents) (assignments : List Assignment) (filter : Option Expr) :
    (∃ e, c.updateRows assignments filter = (.error e, c)) ∨
      ∃ a column text predicate message, assignments = [a] ∧
        c.definition.column a.column = .ok column ∧
        column.storedValue c.name a.value = .ok text ∧
        Predicate.ofFilter c.definition filter = .ok predicate ∧
        c.updateRows assignments filter = (.ok (.ofCount (c.picked predicate).length message),
          c.assign (Predicate.acceptedBy predicate) column.position text) := by
  rw [updateRows]
  cases assigned : Statement.assignmentOf c.definition assignments with
  | error e => exact .inl ⟨e, rfl⟩
  | ok assignment =>
      obtain ⟨column, text⟩ := assignment
      obtain ⟨a, rfl, known, stored⟩ := Statement.storedValue_of_assignmentOf assigned
      cases checked : Predicate.ofFilter c.definition filter with
      | error e => exact .inl ⟨e, rfl⟩
      | ok predicate =>
          let message := Numeral.ofNat (c.accepted predicate).length ++ " row(s) updated"
          refine .inr ⟨a, column, text, predicate, message, rfl, known, stored, rfl, ?_⟩
          rw [length_picked]

theorem deleteRows_cases (c : Contents) (filter : Option Expr) :
    (∃ e, c.deleteRows filter = (.error e, c)) ∨
      ∃ predicate message, Predicate.ofFilter c.definition filter = .ok predicate ∧
        c.deleteRows filter = (.ok (.ofCount (c.picked predicate).length message),
          c.remove (Predicate.acceptedBy predicate)) := by
  rw [deleteRows]
  cases checked : Predicate.ofFilter c.definition filter with
  | error e => exact .inl ⟨e, rfl⟩
  | ok predicate =>
      let message := Numeral.ofNat (c.accepted predicate).length ++ " row(s) deleted"
      refine .inr ⟨predicate, message, rfl, ?_⟩
      rw [length_picked]

/-- An index changes nothing but which columns have one. -/
theorem makeIndex_cases (c : Contents) (root : Path) (index : String) (names : List String) :
    (∃ e, c.makeIndex root index names = (.error e, c)) ∨
      ∃ name column message, names = [name] ∧ c.indexable name = .ok column ∧
        root.RoomForIndex c.name name ∧
        c.makeIndex root index names = (.ok (.ofMessage message), c.withIndex column) := by
  match names with
  | [] => exact .inl ⟨_, rfl⟩
  | _ :: _ :: _ => exact .inl ⟨_, rfl⟩
  | [name] =>
      rw [makeIndex]
      cases checked : c.indexable name with
      | error e => exact .inl ⟨e, rfl⟩
      | ok column =>
          by_cases room : root.RoomForIndex c.name name
          · simp only [if_pos room]
            exact .inr ⟨name, column, _, rfl, checked, room, rfl⟩
          · simp only [if_neg room]
            exact .inl ⟨_, rfl⟩

end Contents

end FlatDB
