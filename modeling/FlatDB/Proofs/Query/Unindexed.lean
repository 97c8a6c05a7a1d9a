/-
# Contents without indexes

Forgetting which columns have an index commutes with every statement but the one
that makes an index, which it undoes.  What is answered stays the same, too, except
where an answer speaks of indexes: in the mark on selected rows and in the last
column of a description.
-/

import FlatDB.Proofs.Query.Contents

namespace FlatDB

/-- An answer to a statement without what it says of indexes. -/
def Answer.hideIndexes (s : Statement) (a : Answer) : Answer :=
  { a with
    usedIndex := false
    rows := match s with
      -- The last of the four columns of a description says whether there is an index.
      | .describe _ => a.rows.map fun row => row.eraseIdx 3
      | _ => a.rows }

namespace Contents

/-- The same contents without any index. -/
def unindexed (c : Contents) : Contents :=
  { c with indexed := [] }

@[simp]
theorem definition_unindexed (c : Contents) : c.unindexed.definition = c.definition := rfl

theorem insertInto_unindexed (c : Contents) (columns : Option (List String)) (values : List Expr) :
    c.unindexed.insertInto columns values =
      ((c.insertInto columns values).1, (c.insertInto columns values).2.unindexed) := by
  unfold insertInto
  rw [definition_unindexed]
  cases Statement.recordOf c.definition columns values with
  | error e => rfl
  | ok record =>
      by_cases exhausted : c.lastId.toNat + 1 = UInt64.size
      · simp only [if_pos exhausted, show c.unindexed.lastId = c.lastId from rfl]
      · simp only [if_neg exhausted, show c.unindexed.lastId = c.lastId from rfl]
        rfl

theorem updateRows_unindexed (c : Contents) (assignments : List Assignment)
    (filter : Option Expr) :
    c.unindexed.updateRows assignments filter =
      ((c.updateRows assignments filter).1, (c.updateRows assignments filter).2.unindexed) := by
  unfold updateRows
  rw [definition_unindexed]
  cases Statement.assignmentOf c.definition assignments with
  | error e => rfl
  | ok assignment =>
      cases Predicate.ofFilter c.definition filter with
      | error e => rfl
      | ok predicate => rfl

theorem deleteRows_unindexed (c : Contents) (filter : Option Expr) :
    c.unindexed.deleteRows filter =
      ((c.deleteRows filter).1, (c.deleteRows filter).2.unindexed) := by
  unfold deleteRows
  rw [definition_unindexed]
  cases Predicate.ofFilter c.definition filter with
  | error e => rfl
  | ok predicate => rfl

/-- Making an index is all that is undone. -/
theorem unindexed_makeIndex (c : Contents) (root : Path) (index : String) (names : List String) :
    (c.makeIndex root index names).2.unindexed = c.unindexed := by
  unfold makeIndex
  split
  · split
    · rfl
    · split <;> rfl
  · rfl

/-- The same rows are selected. -/
theorem selectFrom_unindexed (c : Contents) (table : String) (items : List SelectItem)
    (filter : Option Expr) :
    (c.unindexed.selectFrom items filter).map (Answer.hideIndexes (.select table items filter)) =
      (c.selectFrom items filter).map (Answer.hideIndexes (.select table items filter)) := by
  unfold selectFrom
  rw [definition_unindexed]
  cases Predicate.ofFilter c.definition filter with
  | error e => rfl
  | ok predicate =>
      cases Projection.ofList c.definition items with
      | error e => rfl
      | ok columns => rfl

/-- The header of the last column of a description is wider than what is under it. -/
theorem foldl_widen_describe (columns : List Column) (indexed : List String) (a b d : Nat) :
    (columns.map fun column => [column.name, column.type.name, Statement.yesNo column.nullable,
        Statement.yesNo (decide (column.name ∈ indexed))]).foldl Answer.widen
        [a, b, d, Answer.widthOf "Index"] =
      (columns.map fun column => [column.name, column.type.name,
        Statement.yesNo column.nullable]).foldl Answer.widen [a, b, d] ++
          [Answer.widthOf "Index"] := by
  induction columns generalizing a b d with
  | nil => rfl
  | cons column columns ih =>
      have covered (flag : Bool) : max (Answer.widthOf "Index")
          (Answer.widthOf (Statement.yesNo flag)) = Answer.widthOf "Index" := by
        cases flag <;> decide
      simp only [List.map_cons, List.foldl_cons, Answer.widen, covered]
      exact ih _ _ _

/-- The same is said of the columns. -/
theorem describe_unindexed (c : Contents) (table : String) :
    c.unindexed.describe.hideIndexes (.describe table) =
      c.describe.hideIndexes (.describe table) := by
  have widths (c : Contents) : c.describe.widths =
      (c.schema.columns.map fun column => [column.name, column.type.name,
        Statement.yesNo column.nullable]).foldl Answer.widen
          [Answer.widthOf "Field", Answer.widthOf "Type", Answer.widthOf "Null"] ++
        [Answer.widthOf "Index"] :=
    foldl_widen_describe c.schema.columns c.indexedNames _ _ _
  have rows (c : Contents) : (c.describe.hideIndexes (.describe table)).rows =
      c.schema.columns.map fun column => [column.name, column.type.name,
        Statement.yesNo column.nullable] := by
    show (c.schema.columns.map _).map _ = _
    rw [List.map_map]
    rfl
  have sameRows := (rows c.unindexed).trans (rows c).symm
  have sameWidths := (widths c.unindexed).trans (widths c).symm
  show Answer.mk _ _ _ _ _ _ = Answer.mk _ _ _ _ _ _
  rw [Answer.mk.injEq]
  exact ⟨rfl, sameWidths, sameRows, rfl, rfl, rfl⟩

end Contents

end FlatDB
