/-
# Statements about contents

What a statement answers and what it makes of a table depends on what the table
contains and on nothing else: not on the files, not on how the table was opened.
For each statement about one table the answer and the new contents are given
here, and the program is shown to come to them on every tree that stores the
table.  In particular an index never decides which rows are answered; it only
leaves its mark on the answer.
-/

import FlatDB.Proofs.Table.Changing
import FlatDB.Proofs.Table.Indexing
import FlatDB.Proofs.Table.Opening
import FlatDB.Query.Execute

namespace FlatDB

/-! ## Predicates -/

/-- The only operator that compares for equality. -/
theorem Operator.comparison?_eq_some_eq {op : Operator} : op.comparison? = some .eq ↔ op = .eq := by
  cases op <;> simp [comparison?]

/-- The literals that become integers to compare with. -/
theorem Operand.eq_int_of_ofLiteral {table : String} {column : Column} {value : Literal}
    {operand : Operand} (h : ofLiteral table column value = .ok operand) :
    (∃ key, operand = .int key) ↔ column.type = .int ∧ ∃ n, value = .integer n := by
  unfold ofLiteral at h
  split at h
  · next n int =>
    split at h
    · cases h
      simp [int]
    · cases h
  · next int =>
    cases h
    simp [int]
  · next int =>
    split at h
    · cases h
      simp [int]
    · cases h
  · cases h

namespace Predicate

/-- What it takes for a predicate to ask for a key. -/
theorem key?_eq_some {p : Predicate} {key : Int32} :
    p.key? = some key ↔ p.comparison = .eq ∧ p.operand = .int key := by
  rw [key?]
  split
  · next equal int => simp [equal, int]
  · next other =>
      apply iff_of_false (by simp)
      rintro ⟨equal, int⟩
      exact other key equal int

/-- A predicate that asks for a key accepts the records that have it. -/
theorem accepts_of_key? {p : Predicate} {key : Int32} (h : p.key? = some key) (record : Record) :
    p.accepts record = decide (record.key? p.position = some key) := by
  obtain ⟨equal, int⟩ := key?_eq_some.1 h
  rw [Bool.eq_iff_iff, decide_eq_true_iff]
  unfold accepts Record.key?
  cases record.get? p.position with
  | none => simp
  | some text =>
      simp only [acceptsText, int, equal, Operand.order?, Option.bind_some]
      cases Numeral.int32? text with
      | none => simp
      | some n => simp [Comparison.holds]

/-- A checked filter compares a column of the table with a literal. -/
theorem ofExpr_eq_ok {d : Definition} {filter : Expr} {p : Predicate}
    (h : ofExpr d filter = .ok p) :
    ∃ op ref value column comparison operand,
      filter = .binary op (.column ref) (.literal value) ∧
        d.schema.column? ref.column = some column ∧ op.comparison? = some comparison ∧
          Operand.ofLiteral d.name column value = .ok operand ∧
            p = ⟨column.name, column.position, comparison, operand⟩ := by
  unfold ofExpr at h
  split at h
  · next op ref right =>
    obtain ⟨column, known, checked⟩ := Result.bind_eq_ok.1 h
    split at checked
    · cases checked
    · next comparison compares =>
      obtain ⟨value, given, checked⟩ := Result.bind_eq_ok.1 checked
      obtain ⟨operand, made, checked⟩ := Result.bind_eq_ok.1 checked
      cases checked
      cases right with
      | literal value' =>
          cases given
          exact ⟨op, ref, value, column, comparison, operand, rfl, Definition.column_eq_ok.1 known,
            compares, made, rfl⟩
      | column _ => cases given
      | binary _ _ _ => cases given
  · cases h
  · cases h

theorem of_ofExpr {d : Definition} {filter : Expr} {p : Predicate} (h : ofExpr d filter = .ok p) :
    ∃ column ∈ d.schema.columns, p.column = column.name ∧ p.position = column.position := by
  obtain ⟨_, _, _, column, _, _, _, known, _, _, rfl⟩ := ofExpr_eq_ok h
  exact ⟨column, Schema.mem_of_column? known, rfl, rfl⟩

theorem column_of_ofExpr {d : Definition} {op : Operator} {ref : ColumnRef} {right : Expr}
    {p : Predicate} {column : Column} (h : ofExpr d (.binary op (.column ref) right) = .ok p)
    (known : d.schema.column? ref.column = some column) : p.column = column.name := by
  obtain ⟨_, _, _, column', _, _, same, known', _, _, rfl⟩ := ofExpr_eq_ok h
  cases same
  obtain rfl : column = column' := Option.some.inj (known.symm.trans known')
  rfl

/-- The filters that ask for a key: those that set an integer column equal to an integer. -/
theorem isSome_key?_of_ofExpr {d : Definition} {filter : Expr} {p : Predicate}
    (h : ofExpr d filter = .ok p) : p.key?.isSome = true ↔
      ∃ ref n column, filter = .binary .eq (.column ref) (.literal (.integer n)) ∧
        d.schema.column? ref.column = some column ∧ column.type = .int ∧
          p.column = column.name := by
  have asks : p.key?.isSome = true ↔ p.comparison = .eq ∧ ∃ key, p.operand = .int key := by
    simp [Option.isSome_iff_exists, key?_eq_some]
  rw [asks]
  obtain ⟨op, ref, value, column, comparison, operand, rfl, known, compares, made, rfl⟩ :=
    ofExpr_eq_ok h
  have int := Operand.eq_int_of_ofLiteral made
  constructor
  · rintro ⟨rfl, key⟩
    obtain ⟨isInt, n, rfl⟩ := int.1 key
    obtain rfl := Operator.comparison?_eq_some_eq.1 compares
    exact ⟨ref, n, column, rfl, known, isInt, rfl⟩
  · rintro ⟨ref', n, column', same, known', isInt, _⟩
    cases same
    obtain rfl : column = column' := Option.some.inj (known.symm.trans known')
    exact ⟨Option.some.inj (compares.symm.trans rfl), int.2 ⟨isInt, n, rfl⟩⟩

/-- A checked filter that is there. -/
theorem of_ofFilter {d : Definition} {filter : Option Expr} {p : Predicate}
    (h : ofFilter d filter = .ok (some p)) :
    ∃ column ∈ d.schema.columns, p.column = column.name ∧ p.position = column.position := by
  cases filter with
  | none => cases h
  | some expr =>
      obtain ⟨p', checked, same⟩ := Result.bind_eq_ok.1 h
      cases same
      exact of_ofExpr checked

end Predicate

/-! ## Assignments -/

namespace Statement

/-- A checked assignment sets one column to the text stored for its value. -/
theorem storedValue_of_assignmentOf {d : Definition} {assignments : List Assignment}
    {column : Column} {text : String} (h : assignmentOf d assignments = .ok (column, text)) :
    ∃ a, assignments = [a] ∧ d.column a.column = .ok column ∧
      column.storedValue d.name a.value = .ok text := by
  unfold assignmentOf at h
  split at h
  · next a =>
    obtain ⟨found, known, checked⟩ := Result.bind_eq_ok.1 h
    split at checked
    · next value literal =>
      split at checked
      · obtain ⟨text', stored, same⟩ := Result.bind_eq_ok.1 checked
        cases same
        refine ⟨a, rfl, known, ?_⟩
        rw [literal]
        exact stored
      · cases checked
    · cases checked
  · cases h

/-- The column is one of the table, and it admits the text. -/
theorem of_assignmentOf {d : Definition} {assignments : List Assignment} {column : Column}
    {text : String} (h : assignmentOf d assignments = .ok (column, text)) :
    column ∈ d.schema.columns ∧ column.Admits text := by
  obtain ⟨a, -, known, stored⟩ := storedValue_of_assignmentOf h
  exact ⟨Schema.mem_of_column? (Definition.column_eq_ok.1 known),
    Column.admits_of_storedValue stored⟩

end Statement

/-! ## What statements answer and make -/

namespace Contents

/-- A new row. -/
def insertInto (c : Contents) (columns : Option (List String)) (values : List Expr) :
    Except Error Answer × Contents :=
  match Statement.recordOf c.definition columns values with
  | .error e => (.error e, c)
  | .ok record =>
    if c.lastId.toNat + 1 = UInt64.size then (.error (.storage .idsExhausted), c)
    else (.ok (.ofCount 1 "1 row inserted"), c.append record)

/-- The records that a filter accepts. -/
def accepted (c : Contents) (filter : Option Predicate) : List Stored :=
  c.stored.filter fun s => Predicate.acceptedBy filter s.2

/-- Whether an index knows the records that a filter accepts. -/
def usesIndex (c : Contents) (filter : Option Predicate) : Bool :=
  filter.any fun p => p.key?.isSome && decide (p.column ∈ c.indexedNames)

/-- The rows that are shown of the records a filter accepts. -/
def answer (c : Contents) (columns : List Projected) (filter : Option Predicate) : Answer :=
  { Answer.ofRows (columns.map Projected.header)
      ((c.accepted filter).map fun s => Projection.row columns s.2) with
    usedIndex := c.usesIndex filter }

/-- Selected rows. -/
def selectFrom (c : Contents) (items : List SelectItem) (filter : Option Expr) :
    Except Error Answer := do
  let predicate ← Predicate.ofFilter c.definition filter
  let columns ← Projection.ofList c.definition items
  return c.answer columns predicate

/-- A field of some rows set. -/
def updateRows (c : Contents) (assignments : List Assignment) (filter : Option Expr) :
    Except Error Answer × Contents :=
  match Statement.assignmentOf c.definition assignments, Predicate.ofFilter c.definition filter with
  | .error e, _ => (.error e, c)
  | .ok _, .error e => (.error e, c)
  | .ok (column, value), .ok predicate =>
    let count := (c.accepted predicate).length
    (.ok (.ofCount count (Numeral.ofNat count ++ " row(s) updated")),
      c.assign (Predicate.acceptedBy predicate) column.position value)

/-- Some rows removed. -/
def deleteRows (c : Contents) (filter : Option Expr) : Except Error Answer × Contents :=
  match Predicate.ofFilter c.definition filter with
  | .error e => (.error e, c)
  | .ok predicate =>
    let count := (c.accepted predicate).length
    (.ok (.ofCount count (Numeral.ofNat count ++ " row(s) deleted")),
      c.remove (Predicate.acceptedBy predicate))

/-- A new index, if there is room for its file. -/
def makeIndex (c : Contents) (root : Path) (index : String) :
    List String → Except Error Answer × Contents
  | [name] =>
    match c.indexable name with
    | .error e => (.error e, c)
    | .ok column =>
      if root.RoomForIndex c.name name then
        (.ok (.ofMessage ("Index '" ++ index ++ "' created on " ++ c.name ++ "(" ++ name ++ ")")),
          c.withIndex column)
      else (.error (.storage .nameTooLong), c)
  | names => (.error (.unsupported (.indexColumns names.length)), c)

/-- What there is to say about the columns. -/
def describe (c : Contents) : Answer :=
  .ofRows ["Field", "Type", "Null", "Index"]
    (c.schema.columns.map fun column =>
      [column.name, column.type.name, Statement.yesNo column.nullable,
        Statement.yesNo (decide (column.name ∈ c.indexedNames))])

/-- The mark of an index is on the rows that were selected by setting an indexed integer column
equal to an integer, and on no others. -/
theorem usedIndex_selectFrom {c : Contents} {items : List SelectItem} {filter : Option Expr}
    {a : Answer} (selected : c.selectFrom items filter = .ok a) : a.usedIndex = true ↔
      ∃ ref n column, filter = some (.binary .eq (.column ref) (.literal (.integer n))) ∧
        c.schema.column? ref.column = some column ∧ column.type = .int ∧
          column.name ∈ c.indexedNames := by
  obtain ⟨predicate, checked, projected⟩ := Result.bind_eq_ok.1 selected
  obtain ⟨columns, -, same⟩ := Result.bind_eq_ok.1 projected
  cases same
  show c.usesIndex predicate = true ↔ _
  cases filter with
  | none =>
      cases checked
      simp [usesIndex]
  | some expr =>
      obtain ⟨p, compared, same⟩ := Result.bind_eq_ok.1 checked
      cases same
      have asks := Predicate.isSome_key?_of_ofExpr compared
      simp only [usesIndex, Option.any_some, Bool.and_eq_true, decide_eq_true_eq]
      constructor
      · rintro ⟨key, indexed⟩
        obtain ⟨ref, n, column, rfl, known, int, named⟩ := asks.1 key
        exact ⟨ref, n, column, rfl, known, int, named ▸ indexed⟩
      · rintro ⟨ref, n, column, same, known, int, indexed⟩
        cases same
        have named := Predicate.column_of_ofExpr compared known
        exact ⟨asks.2 ⟨ref, n, column, rfl, known, int, named⟩, named ▸ indexed⟩

/-! No statement changes the definition of a table. -/

theorem definition_insertInto (c : Contents) (columns : Option (List String)) (values : List Expr) :
    (c.insertInto columns values).2.definition = c.definition := by
  rw [insertInto]
  split
  · rfl
  · split <;> rfl

theorem definition_updateRows (c : Contents) (assignments : List Assignment)
    (filter : Option Expr) : (c.updateRows assignments filter).2.definition = c.definition := by
  rw [updateRows]
  split <;> rfl

theorem definition_deleteRows (c : Contents) (filter : Option Expr) :
    (c.deleteRows filter).2.definition = c.definition := by
  rw [deleteRows]
  split <;> rfl

theorem definition_makeIndex (c : Contents) (root : Path) (index : String) (names : List String) :
    (c.makeIndex root index names).2.definition = c.definition := by
  unfold makeIndex
  split
  · split
    · rfl
    · split <;> rfl
  · rfl

/-- An open table is described by what it contains. -/
theorem describeTable_handle (c : Contents) (root : Path) (sync : Bool) :
    Statement.describeTable (c.handle root sync) = c.describe := by
  unfold Statement.describeTable describe
  congr 1
  apply List.map_congr_left
  intro column _
  rw [show ((c.handle root sync).index? column.name).isSome = _ from
    c.isSome_get?_tableIndexes root sync column.name]

end Contents

/-! ## The program -/

namespace FileTree

namespace Stores

variable {t : FileTree} {root : Path} {r : Place} {c : Contents}

theorem runs_insertInto (h : t.Stores root r c) (sync : Bool) (columns : Option (List String))
    (values : List Expr) :
    ∃ t', (Statement.insertInto columns values).Runs (c.handle root sync) t
        (c.insertInto columns values).1 ((c.insertInto columns values).2.handle root sync) t' ∧
      t.Turns root r (c.insertInto columns values).2 t' := by
  unfold Statement.insertInto Contents.insertInto
  cases checked : Statement.recordOf c.definition columns values with
  | error e =>
      exact ⟨t, .bind_get (.bind_error (.ofAction (.ofResult_of_eq checked t) _)), h.turns⟩
  | ok record =>
      have first : (liftM (Action.ofResult
          (Statement.recordOf (c.handle root sync).definition columns values)) : Update Table
            Record).Runs
          (c.handle root sync) t (.ok record) (c.handle root sync) t :=
        .ofAction (.ofResult_of_eq checked t) _
      by_cases exhausted : c.lastId.toNat + 1 = UInt64.size
      · simp only [if_pos exhausted]
        refine ⟨t, .bind_get (.bind first (.bind_error ?_)), h.turns⟩
        exact .bind_error (.onPart (runs_append_of_exhausted c root sync t exhausted record))
      · obtain ⟨t', inserted, turns⟩ := h.runs_insert sync exhausted
          (Statement.typed_of_recordOf checked)
        simp only [if_neg exhausted]
        exact ⟨t', .bind_get (.bind first (.bind inserted (.pure _ _ _))), turns⟩

/-- The index of a column, if there is one, finds the records that a predicate accepts. -/
theorem runs_lookup_accepted (h : t.Stores root r c) (sync : Bool) {p : Predicate} {key : Int32}
    (keyed : p.key? = some key) {column : Column} (mem : column ∈ c.schema.columns)
    (name : p.column = column.name) (position : p.position = column.position) :
    ((c.handle root sync).lookup p.column key).Runs t
      (.ok (if p.column ∈ c.indexedNames then some (c.accepted (some p)) else none)) t := by
  have found := h.runs_lookup sync p.column key
  by_cases has : p.column ∈ c.indexedNames
  · obtain ⟨other, indexed, same⟩ := List.mem_map.1 has
    obtain rfl := h.proper.definition.schema.eq_of_name_eq mem (h.proper.indexed other indexed).1
      (name.symm.trans same.symm)
    have accepted : c.accepted (some p) =
        c.stored.filter fun s => s.2.key? column.position = some key := by
      apply List.filter_congr
      intro s _
      rw [← position]
      exact Predicate.accepts_of_key? keyed s.2
    rw [if_pos has, accepted, name]
    rwa [name, h.proper.find?_indexed indexed] at found
  · have none : c.indexed.find? (fun column => column.name == p.column) = none := by
      rw [List.find?_eq_none]
      intro other indexed same
      exact has (List.mem_map.2 ⟨other, indexed, by simpa using same⟩)
    rw [if_neg has]
    rwa [none] at found

/-- Rows are selected whether or not there is an index for them. -/
theorem runs_selectFrom (h : t.Stores root r c) (sync : Bool) (items : List SelectItem)
    (filter : Option Expr) :
    (Statement.selectFrom (c.handle root sync) items filter).Runs t (c.selectFrom items filter)
      t := by
  unfold Statement.selectFrom Contents.selectFrom
  cases checked : Predicate.ofFilter c.definition filter with
  | error e => exact .bind_error (.ofResult_of_eq checked t)
  | ok predicate =>
      refine .bind (.ofResult_of_eq checked t) ?_
      cases projected : Projection.ofList c.definition items with
      | error e => exact .bind_error (.ofResult_of_eq projected t)
      | ok columns =>
          refine .bind (.ofResult_of_eq projected t) ?_
          show Action.Runs _ t (.ok (c.answer columns predicate)) t
          -- Without an index all records are read.
          have scanned (unused : c.usesIndex predicate = false) :
              Action.Runs (do
                let stored ← (c.handle root sync).records.records
                return Answer.ofRows (columns.map Projected.header)
                  ((stored.filter fun s => Predicate.acceptedBy predicate s.2).map fun s =>
                    Projection.row columns s.2)) t (.ok (c.answer columns predicate)) t := by
            rw [Contents.answer, unused]
            exact .bind (h.runs_records sync) (.pure _ t)
          cases predicate with
          | none => exact .bind (.pure none t) (scanned rfl)
          | some p =>
              obtain ⟨column, mem, name, position⟩ := Predicate.of_ofFilter checked
              cases keyed : p.key? with
              | none =>
                  simp only [keyed]
                  exact .bind (.pure none t) (scanned (by simp [Contents.usesIndex, keyed]))
              | some key =>
                  have found := h.runs_lookup_accepted sync keyed mem name position
                  simp only [keyed]
                  by_cases has : p.column ∈ c.indexedNames
                  · rw [if_pos has] at found
                    rw [Contents.answer, show c.usesIndex (some p) = true by
                      simp [Contents.usesIndex, keyed, has]]
                    exact .bind found (.pure _ t)
                  · rw [if_neg has] at found
                    exact .bind found (scanned (by simp [Contents.usesIndex, has]))

theorem runs_updateRows (h : t.Stores root r c) (sync : Bool) (assignments : List Assignment)
    (filter : Option Expr) :
    ∃ t', (Statement.updateRows assignments filter).Runs (c.handle root sync) t
        (c.updateRows assignments filter).1 ((c.updateRows assignments filter).2.handle root sync)
          t' ∧
      t.Turns root r (c.updateRows assignments filter).2 t' := by
  unfold Statement.updateRows Contents.updateRows
  cases assigned : Statement.assignmentOf c.definition assignments with
  | error e => exact ⟨t, .bind_get (.bind_error (.ofAction (.ofResult_of_eq assigned t) _)),
        h.turns⟩
  | ok assignment =>
      obtain ⟨column, value⟩ := assignment
      cases checked : Predicate.ofFilter c.definition filter with
      | error e =>
          exact ⟨t, .bind_get (.bind (.ofAction (.ofResult_of_eq assigned t) _)
            (.bind_error (.ofAction (.ofResult_of_eq checked t) _))), h.turns⟩
      | ok predicate =>
          obtain ⟨mem, admits⟩ := Statement.of_assignmentOf assigned
          obtain ⟨t', updated, turns⟩ :=
            h.runs_updateWhere sync (Predicate.acceptedBy predicate) mem admits
          exact ⟨t', .bind_get (.bind (.ofAction (.ofResult_of_eq assigned t) _)
            (.bind (.ofAction (.ofResult_of_eq checked t) _) (.bind updated (.pure _ _ _)))), turns⟩

theorem runs_deleteRows (h : t.Stores root r c) (sync : Bool) (filter : Option Expr) :
    ∃ t', (Statement.deleteRows filter).Runs (c.handle root sync) t
        (c.deleteRows filter).1 ((c.deleteRows filter).2.handle root sync) t' ∧
      t.Turns root r (c.deleteRows filter).2 t' := by
  unfold Statement.deleteRows Contents.deleteRows
  cases checked : Predicate.ofFilter c.definition filter with
  | error e => exact ⟨t, .bind_get (.bind_error (.ofAction (.ofResult_of_eq checked t) _)), h.turns⟩
  | ok predicate =>
      cases predicate with
      | none =>
          obtain ⟨t', deleted, turns⟩ := h.runs_deleteAll sync
          have all : c.accepted none = c.stored := List.filter_eq_self.2 fun _ _ => rfl
          simp only [all]
          exact ⟨t', .bind_get (.bind (.ofAction (.ofResult_of_eq checked t) _)
            (.bind deleted (.pure _ _ _))), turns⟩
      | some p =>
          obtain ⟨t', deleted, turns⟩ := h.runs_deleteWhere sync p.accepts
          exact ⟨t', .bind_get (.bind (.ofAction (.ofResult_of_eq checked t) _)
            (.bind deleted (.pure _ _ _))), turns⟩

theorem runs_makeIndex (h : t.Stores root r c) (sync : Bool) (index : String)
    (names : List String) :
    ∃ t', (Statement.makeIndex c.name index names).Runs (c.handle root sync) t
        (c.makeIndex root index names).1 ((c.makeIndex root index names).2.handle root sync) t' ∧
      t.Turns root r (c.makeIndex root index names).2 t' := by
  match names with
  | [] => exact ⟨t, .throw _ _ _, h.turns⟩
  | _ :: _ :: _ => exact ⟨t, .throw _ _ _, h.turns⟩
  | [name] =>
      unfold Statement.makeIndex Contents.makeIndex
      cases checked : c.indexable name with
      | error e =>
          simp only [checked]
          exact ⟨t, .bind_error (runs_createIndex_of_error c root sync t checked), h.turns⟩
      | ok column =>
          by_cases room : root.RoomForIndex c.name name
          · obtain ⟨t', created, turns⟩ := h.runs_createIndex sync checked room
            simp only [checked, if_pos room]
            exact ⟨t', .bind created (.pure _ _ _), turns⟩
          · simp only [checked, if_neg room]
            exact ⟨t, .bind_error (h.runs_createIndex_of_no_room sync checked room), h.turns⟩

end Stores

end FileTree

end FlatDB
