/-
# Statements keep to their tables

A statement works on one table.  It may find it open, and then the table is known to
keep to its directory; or it opens or makes it, and then the header must be sound that
is read on the way.  Under these conditions all that a statement does to the files it
does in the directory of its table, or in the hidden one in which the table is made, and
of the open tables it replaces, adds or forgets no other.
-/

import FlatDB.Proofs.Session.Execution
import FlatDB.Proofs.Table.Confinement

namespace FlatDB

variable {within : Path → Prop} {own : List Handle} {disk : Disk} {name : String}

/-! ## Statements about an open table -/

namespace Statement

open Table

theorem keepsTo_insertInto (columns : Option (List String)) (values : List Expr) :
    (insertInto columns values).KeepsTo within (Inside within name) fun _ => True :=
  .bind_get fun _ _ => .bind (.ofAction (.check _)) fun _ _ =>
    .bind (keepsTo_insert _) fun _ _ => .pure trivial

theorem keepsTo_updateRows (assignments : List Assignment) (filter : Option Expr) :
    (updateRows assignments filter).KeepsTo within (Inside within name) fun _ => True :=
  .bind_get fun _ _ => .bind (.ofAction (.check _)) fun _ _ => .bind (.ofAction (.check _))
    fun _ _ => .bind (keepsTo_updateWhere _ _ _) fun _ _ => .pure trivial

theorem keepsTo_deleteRows (filter : Option Expr) :
    (deleteRows filter).KeepsTo within (Inside within name) fun _ => True := by
  refine .bind_get fun _ _ => .bind (.ofAction (.check _)) fun predicate _ => ?_
  cases predicate with
  | none => exact .bind keepsTo_deleteAll fun _ _ => .pure trivial
  | some predicate => exact .bind (keepsTo_deleteWhere _) fun _ _ => .pure trivial

theorem keepsTo_makeIndex (table index : String) (columns : List String) :
    (makeIndex table index columns).KeepsTo within (Inside within name) fun _ => True := by
  match columns with
  | [] => exact .throw _
  | [column] => exact .bind (keepsTo_createIndex column) fun _ _ => .pure trivial
  | _ :: _ :: _ => exact .throw _

/-- Selecting only reads. -/
theorem keepsTo_selectFrom (t : Table) (items : List SelectItem) (filter : Option Expr) :
    (selectFrom t items filter).KeepsTo within fun _ => True := by
  refine .bind (.check _) fun predicate _ => .bind (.check _) fun columns _ => ?_
  have scanned (answer : List Stored → Answer) : Action.KeepsTo within (do
      let stored ← t.records.records
      return answer stored) fun _ => True :=
    .bind t.records.keepsTo_records fun _ _ => .pure trivial
  dsimp only
  split
  · exact scanned _
  · split
    · exact scanned _
    · refine .bind (t.keepsTo_lookup _ _) fun found _ => ?_
      cases found with
      | some stored => exact .pure trivial
      | none => exact scanned _

end Statement

/-! ## Sessions -/

namespace Session

/-- Whether a second session has the same tables open, but for those of one name. -/
def SameBut (name : String) (s s' : Session) : Prop :=
  ∀ other, name ≠ other → s'.table? other = s.table? other

theorem SameBut.refl (name : String) (s : Session) : SameBut name s s :=
  fun _ _ => rfl

theorem SameBut.of_eq {s s' : Session} (same : s' = s) : SameBut name s s' :=
  same ▸ .refl name s

theorem SameBut.keep {s s' : Session} (h : SameBut name s s') {t : Table} (named : t.name = name) :
    SameBut name s (s'.keep t) := by
  intro other ne
  rw [table?_keep, if_neg (named ▸ ne)]
  exact h other ne

theorem sameBut_forget (s : Session) (name : String) : SameBut name s (s.forget name) :=
  fun _ ne => table?_forget_of_ne ne

/-- What makes a session ready for a statement about a table: the paths of the table and of the
hidden directory are among those that are allowed, the table keeps to them if it is open, and
the header is sound, both as it is and as it will be if the table is made. -/
structure Ready (within : Path → Prop) (name : String) (s : Session) (disk : Disk) : Prop where
  layout : Identifier.isValid name = true → (Layout.ofTable s.root name).Inside within
  hidden : Identifier.isValid name = true → Layout.Inside within ⟨Layout.staging s.root name⟩
  opened : ∀ t, s.table? name = some t → t.Inside within name
  declares : Identifier.isValid name = true →
    Table.Declares (Layout.ofTable s.root name) name disk
  free : Identifier.isValid name = true →
    (disk.step (.kind (Layout.staging s.root name))).1 = none
  made : ∀ d disk', d.Proper → d.name = name →
    disk.perform (Table.emplace s.root d s.sync) = (.ok (), disk') →
      Table.Declares (Layout.ofTable s.root name) name disk'

variable {s : Session} {α : Type}

/-- Opening a table keeps to its directory, and at most this table is newly open. -/
theorem Ready.confined_openTable (h : s.Ready within name disk) :
    (openTable name).Confined within (fun x s' _ _ => SameBut name s s' ∧
      ∀ t, x = .ok t → t.Inside within name) s own disk := by
  refine .bind_get ?_
  cases found : s.table? name with
  | some t => exact .pure ⟨.refl name s, fun t' same => Except.ok.inj same ▸ h.opened t found⟩
  | none =>
      refine .bind (Q := fun x s' _ _ => s' = s ∧ ∀ t, x = .ok t → t.Inside within name)
        (.ofAction ((Table.confined_load h.layout h.declares).mono fun _ _ _ loaded =>
          ⟨rfl, loaded⟩)) ?_ fun _ _ _ _ ⟨same, _⟩ => ⟨.of_eq same, nofun⟩
      rintro t _ own' d' ⟨rfl, loaded⟩
      have inside := loaded t rfl
      exact .bind_set (.pure ⟨(SameBut.refl name _).keep inside.named,
        fun t' same => Except.ok.inj same ▸ inside⟩)

/-- So does an update of a table that keeps to it. -/
theorem Ready.confined_onTable (h : s.Ready within name disk) {u : Update Table α}
    (keeps : u.KeepsTo within (Table.Inside within name) fun _ => True) :
    (onTable name u).Confined within (fun _ s' _ _ => SameBut name s s') s own disk := by
  refine .bind h.confined_openTable (fun t s' own' d' ⟨same, inside⟩ => ?_)
    fun _ _ _ _ opened => opened.1
  exact .onPart ((keeps t own' d' (inside t rfl)).mono fun _ _ _ _ updated =>
    same.keep updated.1.named)

theorem Ready.confined_createTable (h : s.Ready within name disk) {d : Definition}
    (proper : d.Proper) (named : d.name = name) :
    (createTable d).Confined within (fun _ s' _ _ => SameBut name s s') s own disk := by
  subst named
  refine .bind_get (.bind (Q := fun x s' _ _ => s' = s ∧ ∀ t, x = .ok t →
    t.Inside within d.name) (.ofAction ((Table.confined_create h.hidden h.layout h.free
      fun disk' => h.made d disk' proper rfl).mono fun _ _ _ made => ⟨rfl, made⟩)) ?_
        fun _ _ _ _ ⟨same, _⟩ => .of_eq same)
  rintro t _ own' d' ⟨rfl, made⟩
  exact .bind_set (.pure ((SameBut.refl _ _).keep (made t rfl).named))

/-- Dropping a table removes its directory, whether or not the table was open. -/
theorem Ready.confined_dropTable (h : s.Ready within name disk) :
    (dropTable name).Confined within (fun _ s' _ _ => SameBut name s s') s own disk := by
  have taken : (takeTable name).Confined within (fun x s' _ _ => SameBut name s s' ∧
      ∀ t, x = .ok t → t.Inside within name) s own disk := by
    refine .bind_get ?_
    cases found : s.table? name with
    | some t =>
        exact .bind_set (.pure ⟨s.sameBut_forget name, fun t' same =>
          Except.ok.inj same ▸ h.opened t found⟩)
    | none =>
        exact .ofAction ((Table.confined_load h.layout h.declares).mono fun _ _ _ loaded =>
          ⟨.refl name s, loaded⟩)
  refine .bind taken (fun t s' own' d' ⟨same, inside⟩ => ?_) fun _ _ _ _ taken => taken.1
  exact .ofAction (((inside t rfl).keepsTo_drop own' d').mono fun _ _ _ _ => same)

/-- Listing the tables only reads. -/
theorem keepsTo_tableNames (s : Session) : s.tableNames.KeepsTo within fun _ => True := by
  refine .bind (.call (c := .list s.root) fun _ => trivial) fun names _ =>
    .bind (.filterM fun entry => ?_) fun _ _ => .pure trivial
  unfold isTable
  split
  · exact .pure trivial
  · exact .bind (Action.keepsTo_kind _) fun _ _ => .pure trivial

end Session

/-! ## Statements -/

namespace Statement

open Session

variable {s : Statement} {session : Session}

/-- What is answered about an open table changes no other. -/
theorem confined_answer {β : Type} (h : session.Ready within name disk)
    {answer : Table → Action β} (reads : ∀ t, (answer t).KeepsTo within fun _ => True) :
    Update.Confined within (do answer (← openTable name))
      (fun _ s' _ _ => SameBut name session s') session own disk :=
  .bind h.confined_openTable (fun t _ own' d' opened =>
    .ofAction ((reads t own' d').mono fun _ _ _ _ => opened.1)) fun _ _ _ _ opened => opened.1

theorem confined_makeTable (h : session.Ready within name disk) (columns : List Declaration) :
    (makeTable name columns).Confined within (fun _ s' _ _ => SameBut name session s') session
      own disk := by
  refine .bind (Q := fun x s' _ d => s' = session ∧ d = disk ∧
    ∀ v, x = .ok v → Identifier.check name = .ok v) (.ofAction ⟨rfl, rfl, fun _ same => same⟩) ?_
      fun _ _ _ _ ⟨same, _⟩ => .of_eq same
  rintro _ _ own' _ ⟨rfl, rfl, valid⟩
  refine .bind (Q := fun x s' _ d => s' = _ ∧ d = _ ∧
    ∀ v, x = .ok v → Schema.ofDeclarations? name columns = .ok v)
      (.ofAction ⟨rfl, rfl, fun _ same => same⟩) ?_ fun _ _ _ _ ⟨same, _⟩ => .of_eq same
  rintro schema _ own' _ ⟨rfl, rfl, declared⟩
  have proper : (Definition.ofSchema name schema).Proper :=
    ⟨Identifier.check_eq_ok.1 (valid _ rfl), .of_ofDeclarations? (declared _ rfl)⟩
  exact .bind (h.confined_createTable proper rfl) (fun _ _ _ _ same => .pure same)
    fun _ _ _ _ same => same

/-- A statement about a table keeps to its directory and the hidden one, and leaves every
other table as open as it is. -/
theorem confined_execute (h : session.Ready within name disk) (about : s.table? = some name) :
    s.execute.Confined within (fun _ s' _ _ => SameBut name session s') session own disk := by
  cases s with
  | createTable table columns =>
      cases about
      exact confined_makeTable h columns
  | insert table columns values =>
      cases about
      exact h.confined_onTable (keepsTo_insertInto columns values)
  | select table items filter =>
      cases about
      exact confined_answer h fun t => keepsTo_selectFrom t items filter
  | update table assignments filter =>
      cases about
      exact h.confined_onTable (keepsTo_updateRows assignments filter)
  | delete table filter =>
      cases about
      exact h.confined_onTable (keepsTo_deleteRows filter)
  | createIndex table index columns =>
      cases about
      exact h.confined_onTable (keepsTo_makeIndex _ index columns)
  | dropTable table =>
      cases about
      exact .bind h.confined_dropTable (fun _ _ _ _ same => .pure same) fun _ _ _ _ same => same
  | describe table =>
      cases about
      exact .bind h.confined_openTable (fun _ _ _ _ opened => .pure opened.1)
        fun _ _ _ _ opened => opened.1
  | showTables => cases about

/-- The statement that is about no table changes nothing. -/
theorem confined_showTables :
    showTables.execute.Confined within (fun _ s' _ _ => s' = session) session own disk := by
  refine .bind_get (.bind (Q := fun _ s' _ _ => s' = session) (.ofAction
    ((session.keepsTo_tableNames own disk).mono fun _ _ _ _ => rfl))
      (fun _ _ _ _ same => .pure same) fun _ _ _ _ same => same)

end Statement

end FlatDB
