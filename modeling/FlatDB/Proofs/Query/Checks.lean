/-
# What checks fail with

A statement is checked against the definition of its table before anything is
done: names, literals, select lists, filters, assignments, new rows and new
indexes.  A check that fails does so with an error of validation.  It never reports
that something stored is damaged or missing, nor whether there is a table.  Beyond
that a statement about a table fails only where storage is exhausted.

Checks are built from smaller checks by sequencing, so the property is stated for
results in general, and each check has it because its parts do.
-/

import FlatDB.Proofs.Query.Contents

namespace FlatDB

/-- Whether an error refuses what a statement asks of a table, and not the table. -/
def Error.isRefusal : Error → Bool
  | .tableExists _ | .tableNotFound _ => false
  | e => e.isValidation

/-- A result that is a value or a refusal. -/
def Result.OnlyRefuses {α : Type} (x : Except Error α) : Prop :=
  ∀ e, x = .error e → e.isRefusal = true

/-- A result that is a value, a refusal, or a fault of storage. -/
def Result.OnlyFails {α : Type} (x : Except Error α) : Prop :=
  ∀ e, x = .error e → e.isRefusal = true ∨ ∃ fault, e = .storage fault

namespace Result.OnlyRefuses

variable {α β : Type}

theorem onlyFails {x : Except Error α} (h : OnlyRefuses x) : OnlyFails x :=
  fun e failed => .inl (h e failed)

theorem ok (a : α) : OnlyRefuses (.ok a) :=
  fun _ same => nomatch same

theorem error {e : Error} (refusal : e.isRefusal = true) :
    OnlyRefuses (.error e : Except Error α) :=
  fun _ same => Except.error.inj same ▸ refusal

theorem bind {x : Except Error α} {f : α → Except Error β} (first : OnlyRefuses x)
    (next : ∀ a, OnlyRefuses (f a)) : OnlyRefuses (x >>= f) := by
  cases x with
  | ok a => exact next a
  | error e => exact .error (first e rfl)

end Result.OnlyRefuses

open Result

/-! ## Definitions -/

theorem Identifier.onlyRefuses_check (name : String) : OnlyRefuses (check name) := by
  unfold check
  split
  · exact .ok _
  · exact .error rfl

theorem Schema.onlyRefuses_addChecked (table : String) (s : Schema) (d : Declaration) :
    OnlyRefuses (addChecked table s d) := by
  refine .bind (Identifier.onlyRefuses_check _) fun _ => ?_
  split
  · exact .bind (.error rfl) fun _ => .ok _
  · exact .ok _

theorem Schema.onlyRefuses_ofDeclarations? (table : String) (ds : List Declaration) :
    OnlyRefuses (ofDeclarations? table ds) := by
  have adds (s : Schema) : OnlyRefuses (ds.foldlM (addChecked table) s) := by
    induction ds generalizing s with
    | nil => exact .ok s
    | cons d ds ih => exact .bind (onlyRefuses_addChecked table s d) ih
  unfold ofDeclarations?
  split
  · exact .error rfl
  · exact adds empty

theorem Definition.onlyRefuses_column (d : Definition) (name : String) :
    OnlyRefuses (d.column name) := by
  unfold column
  split
  · exact .ok _
  · exact .error rfl

/-! ## Values -/

namespace Column

theorem onlyRefuses_literal (table : String) (c : Column) (value : Expr) :
    OnlyRefuses (c.literal table value) := by
  unfold literal
  split
  · exact .ok _
  · exact .error rfl

theorem onlyRefuses_storedText (table : String) (c : Column) (value : Literal) :
    OnlyRefuses (c.storedText table value) := by
  unfold storedText
  split
  · split
    · exact .ok _
    · exact .error rfl
  · split
    · exact .ok _
    · exact .error rfl
  · split
    · exact .ok _
    · exact .error rfl
  · exact .error rfl

theorem onlyRefuses_storedValue (table : String) (c : Column) (value : Expr) :
    OnlyRefuses (c.storedValue table value) :=
  .bind (onlyRefuses_literal table c value) fun _ => onlyRefuses_storedText table c _

end Column

/-! ## Clauses of statements -/

theorem Operand.onlyRefuses_ofLiteral (table : String) (c : Column) (value : Literal) :
    OnlyRefuses (ofLiteral table c value) := by
  unfold ofLiteral
  split
  · split
    · exact .ok _
    · exact .error rfl
  · exact .ok _
  · split
    · exact .ok _
    · exact .error rfl
  · exact .error rfl

theorem Predicate.onlyRefuses_ofExpr (d : Definition) (filter : Expr) :
    OnlyRefuses (ofExpr d filter) := by
  unfold ofExpr
  split
  · refine .bind (d.onlyRefuses_column _) fun column => ?_
    split
    · exact .error rfl
    · exact .bind (column.onlyRefuses_literal d.name _) fun value =>
        .bind (Operand.onlyRefuses_ofLiteral d.name column value) fun _ => .ok _
  · exact .error rfl
  · exact .error rfl

theorem Predicate.onlyRefuses_ofFilter (d : Definition) (filter : Option Expr) :
    OnlyRefuses (ofFilter d filter) := by
  cases filter with
  | none => exact .ok _
  | some expr => exact .bind (onlyRefuses_ofExpr d expr) fun _ => .ok _

theorem Projection.onlyRefuses_ofItems (d : Definition) (seen : List String)
    (items : List SelectItem) : OnlyRefuses (ofItems d seen items) := by
  induction items generalizing seen with
  | nil => exact .ok _
  | cons item rest ih =>
      match item with
      | .wildcard => exact .error rfl
      | .expr (.literal _) _ => exact .error rfl
      | .expr (.binary _ _ _) _ => exact .error rfl
      | .expr (.column ref) label =>
          rw [ofItems]
          split
          · exact .error rfl
          · exact .bind (d.onlyRefuses_column _) fun _ => .bind (ih _) fun _ => .ok _

theorem Projection.onlyRefuses_ofList (d : Definition) (items : List SelectItem) :
    OnlyRefuses (ofList d items) := by
  unfold ofList
  split
  · exact .ok _
  · exact onlyRefuses_ofItems d [] _

namespace Statement

theorem onlyRefuses_storedRow (table : String) (columns : List Column) (values : List Expr) :
    OnlyRefuses (storedRow table columns values) := by
  fun_induction storedRow table columns values with
  | case1 column columns value values ih =>
      exact .bind (column.onlyRefuses_storedValue table value) fun _ => .bind ih fun _ => .ok _
  | case2 => exact .ok _

theorem onlyRefuses_recordOf (d : Definition) (columns : Option (List String))
    (values : List Expr) : OnlyRefuses (recordOf d columns values) := by
  unfold recordOf
  dsimp only
  split
  · exact .error rfl
  split
  · exact .error rfl
  split
  · exact .error rfl
  · exact .bind (onlyRefuses_storedRow d.name d.schema.columns values) fun _ => .ok _

theorem onlyRefuses_assignmentOf (d : Definition) (assignments : List Assignment) :
    OnlyRefuses (assignmentOf d assignments) := by
  unfold assignmentOf
  split
  · refine .bind (d.onlyRefuses_column _) fun column => ?_
    split
    · split
      · exact .bind (column.onlyRefuses_storedText d.name _) fun _ => .ok _
      · exact .error rfl
    · exact .error rfl
  · exact .error rfl

end Statement

theorem Contents.onlyRefuses_indexable (c : Contents) (name : String) :
    OnlyRefuses (c.indexable name) := by
  unfold indexable
  refine .bind (c.definition.onlyRefuses_column name) fun column => ?_
  dsimp only
  split
  · exact .error rfl
  split
  · exact .error rfl
  · exact .ok _

/-! ## Operations on contents -/

namespace Result.OnlyFails

variable {α : Type}

theorem ok (a : α) : OnlyFails (.ok a) :=
  (OnlyRefuses.ok a).onlyFails

theorem storage (fault : Fault) : OnlyFails (.error (.storage fault) : Except Error α) :=
  fun _ same => .inr ⟨fault, (Except.error.inj same).symm⟩

/-- Whether there is a table is no matter of what is done to it. -/
theorem ne_tableNotFound {x : Except Error α} (h : OnlyFails x) (table : String) :
    x ≠ .error (.tableNotFound table) := by
  intro failed
  rcases h _ failed with refusal | ⟨fault, same⟩
  · cases refusal
  · cases same

end Result.OnlyFails

namespace Contents

theorem onlyRefuses_selectFrom (c : Contents) (items : List SelectItem) (filter : Option Expr) :
    OnlyRefuses (c.selectFrom items filter) :=
  .bind (Predicate.onlyRefuses_ofFilter _ _) fun _ =>
    .bind (Projection.onlyRefuses_ofList _ _) fun _ => .ok _

theorem onlyFails_insertInto (c : Contents) (columns : Option (List String))
    (values : List Expr) : OnlyFails (c.insertInto columns values).1 := by
  have checks := Statement.onlyRefuses_recordOf c.definition columns values
  unfold insertInto
  split
  · next refused => exact (OnlyRefuses.error (checks _ refused)).onlyFails
  · split
    · exact .storage _
    · exact .ok _

theorem onlyFails_updateRows (c : Contents) (assignments : List Assignment)
    (filter : Option Expr) : OnlyFails (c.updateRows assignments filter).1 := by
  have assigns := Statement.onlyRefuses_assignmentOf c.definition assignments
  have filters := Predicate.onlyRefuses_ofFilter c.definition filter
  unfold updateRows
  split
  · next refused => exact (OnlyRefuses.error (assigns _ refused)).onlyFails
  · next refused => exact (OnlyRefuses.error (filters _ refused)).onlyFails
  · exact .ok _

theorem onlyFails_deleteRows (c : Contents) (filter : Option Expr) :
    OnlyFails (c.deleteRows filter).1 := by
  have filters := Predicate.onlyRefuses_ofFilter c.definition filter
  unfold deleteRows
  split
  · next refused => exact (OnlyRefuses.error (filters _ refused)).onlyFails
  · exact .ok _

theorem onlyFails_makeIndex (c : Contents) (root : Path) (index : String)
    (names : List String) : OnlyFails (c.makeIndex root index names).1 := by
  unfold makeIndex
  split
  · next name =>
    have checks := c.onlyRefuses_indexable name
    split
    · next refused => exact (OnlyRefuses.error (checks _ refused)).onlyFails
    · split
      · exact .ok _
      · exact .storage _
  · exact (OnlyRefuses.error rfl).onlyFails

end Contents

end FlatDB
