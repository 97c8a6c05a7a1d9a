/-
# Refused statements

A statement that is refused by validation is as good as never executed: the disk
is what it was, every open table stays open as it was, and whatever is executed
later answers the same.  All that a refused statement can leave behind is that
its own table is now open.

Two facts meet here.  What a statement does to the files is read off the catalog,
which a failing statement leaves alone.  Which tables are open is read off the
program: an update of a table never changes the table's definition, so a session
keeps it under the name it was opened by.
-/

import FlatDB.Proofs.Query.Rows
import FlatDB.Proofs.Schema.Reading
import FlatDB.Proofs.Session.Reopening

namespace FlatDB

/-! ## Catalogs -/

namespace Catalog

variable {root : Path} {cat : Catalog} {name : String} {e : Error}

/-- Where a failing operation leaves the contents of a table alone, it leaves the catalog alone. -/
theorem onTable_eq_self_of_error {f : Contents → Except Error Answer × Contents}
    (failed : (cat.onTable name f).1 = .error e)
    (leaves : ∀ c, (∃ e, f c = (.error e, c)) ∨ ∃ answer c', f c = (.ok answer, c')) :
    (cat.onTable name f).2 = cat := by
  unfold onTable at failed ⊢
  cases found : cat.find name with
  | error e' => rfl
  | ok c =>
      rw [found] at failed
      rcases leaves c with ⟨e', refused⟩ | ⟨answer, c', accepted⟩
      · simp only [refused]
        exact insert_eq_self (find_eq_ok.1 found).2.1
      · simp only [accepted] at failed
        cases failed

/-- A table is made whenever making it fails only in reading its header back. -/
theorem makeTable_eq_self_of_error {columns : List Declaration}
    (failed : (cat.makeTable root name columns).1 = .error e)
    (readable : ∀ table damage, e ≠ .unreadableHeader table damage) :
    (cat.makeTable root name columns).2 = cat := by
  unfold makeTable at failed ⊢
  cases checked : Identifier.check name >>= fun _ => Schema.ofDeclarations? name columns with
  | error e' => rfl
  | ok schema =>
      obtain ⟨_, valid, declared⟩ := Result.bind_eq_ok.1 checked
      have proper : (Definition.ofSchema name schema).Proper :=
        ⟨Identifier.check_eq_ok.1 valid, .of_ofDeclarations? declared⟩
      simp only [checked] at failed
      dsimp only
      by_cases present : cat[name]?.isSome = true
      · rw [if_pos present]
      by_cases room : root.RoomFor name
      · rw [if_neg present, if_pos room] at failed
        by_cases fits : Header.Fits (Definition.ofSchema name schema)
        · rw [Header.reread_of_fits proper fits] at failed
          cases failed
        · obtain ⟨damage, unread⟩ := Header.reread_of_not_fits proper fits
          rw [unread] at failed
          cases failed
          exact absurd rfl (readable _ damage)
      · rw [if_neg present, if_neg room]

/-- A statement that fails leaves the catalog as it was, unless it has made a table that cannot
be read back. -/
theorem execute_eq_self_of_error {s : Statement} (failed : (cat.execute root s).1 = .error e)
    (readable : ∀ table damage, e ≠ .unreadableHeader table damage) :
    (cat.execute root s).2 = cat := by
  cases s with
  | createTable table columns => exact makeTable_eq_self_of_error failed readable
  | insert table columns values =>
      refine onTable_eq_self_of_error failed fun c => ?_
      rcases c.insertInto_cases columns values with refused | ⟨texts, -, -, accepted⟩
      · exact .inl refused
      · exact .inr ⟨_, _, accepted⟩
  | select table items filter => rfl
  | update table assignments filter =>
      refine onTable_eq_self_of_error failed fun c => ?_
      rcases c.updateRows_cases assignments filter with refused | ⟨_, _, _, _, _, -, -, -, -, accepted⟩
      · exact .inl refused
      · exact .inr ⟨_, _, accepted⟩
  | delete table filter =>
      refine onTable_eq_self_of_error failed fun c => ?_
      rcases c.deleteRows_cases filter with refused | ⟨_, _, -, accepted⟩
      · exact .inl refused
      · exact .inr ⟨_, _, accepted⟩
  | createIndex table index columns =>
      refine onTable_eq_self_of_error failed fun c => ?_
      rcases c.makeIndex_cases root index columns with refused | ⟨_, _, _, -, -, -, accepted⟩
      · exact .inl refused
      · exact .inr ⟨_, _, accepted⟩
  | dropTable table =>
      have dropped : (cat.dropTable table).1 = .error e := failed
      show (cat.dropTable table).2 = cat
      unfold dropTable at dropped ⊢
      cases found : cat.find table with
      | error e' => rfl
      | ok c =>
          rw [found] at dropped
          cases dropped
  | describe table => rfl
  | showTables => rfl

end Catalog

/-! ## What an update leaves alone -/

/-- An update that leaves a part of the value it works on as it was, failure or not. -/
def Update.Preserves {σ τ α : Type} (part : σ → τ) (u : Update σ α) : Prop :=
  ∀ (d : Disk) (s : σ), part (d.update s u).2.1 = part s

namespace Update.Preserves

variable {σ τ ρ α β : Type} {part : σ → τ}

theorem pure (a : α) : (Pure.pure a : Update σ α).Preserves part :=
  fun _ _ => rfl

theorem throw (e : Error) : (MonadExcept.throw e : Update σ α).Preserves part :=
  fun _ _ => rfl

theorem get : (MonadState.get : Update σ σ).Preserves part :=
  fun _ _ => rfl

theorem ofAction (a : Action α) : (liftM a : Update σ α).Preserves part := by
  intro d s
  rw [Disk.update_liftM]

theorem bind {u : Update σ α} {f : α → Update σ β} (first : u.Preserves part)
    (next : ∀ a, (f a).Preserves part) : (u >>= f).Preserves part := by
  intro d s
  have before := first d s
  rw [Disk.update_bind]
  generalize d.update s u = done at before ⊢
  obtain ⟨e | a, s', d'⟩ := done
  · exact before
  · exact (next a d' s').trans before

theorem onPart {inner : σ → ρ} {replace : ρ → σ → σ} (u : Update ρ α)
    (apart : ∀ p s, part (replace p s) = part s) : (u.onPart inner replace).Preserves part := by
  intro d s
  rw [Disk.update_onPart]
  exact apart _ s

end Update.Preserves

namespace Table

open Update

theorem preserves_onRecords {α : Type} (u : Update RecordFile α) :
    (onRecords u).Preserves definition :=
  .onPart u fun _ _ => rfl

theorem preserves_onIndexes {α : Type} (u : Update TableIndexes α) :
    (onIndexes u).Preserves definition :=
  .onPart u fun _ _ => rfl

theorem preserves_createIndex (column : String) : (createIndex column).Preserves definition :=
  .bind .get fun _ => preserves_onIndexes _

theorem preserves_insert (record : Record) : (insert record).Preserves definition :=
  .bind (preserves_onRecords _) fun _ => .bind (preserves_onIndexes _) fun _ => .pure _

theorem preserves_updateWhere (accepts : Record → Bool) (column value : String) :
    (updateWhere accepts column value).Preserves definition :=
  .bind .get fun _ => .bind (.ofAction _) fun _ => .bind (.ofAction _) fun _ =>
    .bind (preserves_onIndexes _) fun _ => .pure _

theorem preserves_deleteWhere (accepts : Record → Bool) :
    (deleteWhere accepts).Preserves definition :=
  .bind .get fun _ => .bind (.ofAction _) fun _ => .bind (preserves_onIndexes _) fun _ => .pure _

theorem preserves_deleteAll : deleteAll.Preserves definition :=
  .bind .get fun _ => .bind (.ofAction _) fun _ => .bind (.ofAction _) fun _ =>
    .bind (preserves_onIndexes _) fun _ => .pure _

end Table

namespace Statement

open Table

theorem preserves_insertInto (columns : Option (List String)) (values : List Expr) :
    (insertInto columns values).Preserves definition :=
  .bind .get fun _ => .bind (.ofAction _) fun _ => .bind (preserves_insert _) fun _ => .pure _

theorem preserves_updateRows (assignments : List Assignment) (filter : Option Expr) :
    (updateRows assignments filter).Preserves definition :=
  .bind .get fun _ => .bind (.ofAction _) fun _ => .bind (.ofAction _) fun _ =>
    .bind (preserves_updateWhere _ _ _) fun _ => .pure _

theorem preserves_deleteRows (filter : Option Expr) :
    (deleteRows filter).Preserves definition := by
  refine .bind .get fun _ => .bind (.ofAction _) fun checked => ?_
  cases checked with
  | none => exact .bind preserves_deleteAll fun _ => .pure _
  | some predicate => exact .bind (preserves_deleteWhere predicate.accepts) fun _ => .pure _

theorem preserves_makeIndex (table index : String) (columns : List String) :
    (makeIndex table index columns).Preserves definition := by
  match columns with
  | [] => exact .throw _
  | [column] => exact .bind (preserves_createIndex column) fun _ => .pure _
  | _ :: _ :: _ => exact .throw _

end Statement

/-! ## Which tables are open -/

/-- A table is opened under the name it has. -/
theorem Table.name_of_load {d : Disk} {root : Path} {name : String} {sync : Bool} {t : Table}
    (h : (d.perform (load root name sync)).1 = .ok t) : t.name = name := by
  unfold load at h
  obtain ⟨_, -, h⟩ := Disk.perform_bind_eq_ok h
  obtain ⟨kind, -, h⟩ := Disk.perform_bind_eq_ok h
  by_cases directory : kind = some .directory
  · simp only [directory, ne_eq, not_true_eq_false, if_false] at h
    obtain ⟨definition, read, h⟩ := Disk.perform_bind_eq_ok h
    obtain ⟨records, -, h⟩ := Disk.perform_bind_eq_ok h
    obtain ⟨indexes, -, h⟩ := Disk.perform_bind_eq_ok h
    cases h
    unfold readHeader at read
    obtain ⟨reply, -, read⟩ := Disk.perform_bind_eq_ok read
    cases reply with
    | ok source => exact Header.name_of_parse read
    | error fault => cases read
  · simp only [directory, ne_eq, not_false_eq_true, if_true] at h
    obtain ⟨_, thrown, -⟩ := Disk.perform_bind_eq_ok h
    cases thrown

namespace Session

/-- What a statement that keeps tables open makes of a session: all open tables are still
open, and at most the one it is about is newly open. -/
structure Opens (table : Option String) (s s' : Session) : Prop where
  stay : ∀ name, (s.table? name).isSome → (s'.table? name).isSome
  fresh : ∀ name, (s'.table? name).isSome → (s.table? name).isSome ∨ table = some name

theorem Opens.refl (table : Option String) (s : Session) : Opens table s s :=
  ⟨fun _ opened => opened, fun _ opened => .inl opened⟩

theorem Opens.trans {table : Option String} {s s' s'' : Session} (h : Opens table s s')
    (h' : Opens table s' s'') : Opens table s s'' :=
  ⟨fun name opened => h'.stay name (h.stay name opened), fun name opened =>
    (h'.fresh name opened).elim (h.fresh name) .inr⟩

theorem opens_of_eq {table : Option String} {s s' : Session} (same : s' = s) : Opens table s s' :=
  same ▸ .refl table s

theorem opens_keep (s : Session) (t : Table) : Opens (some t.name) s (s.keep t) := by
  have kept (name : String) : ((s.keep t).table? name).isSome =
      (decide (t.name = name) || (s.table? name).isSome) := by
    rw [table?_keep]
    by_cases same : t.name = name <;> simp [same]
  refine ⟨fun name opened => ?_, fun name opened => ?_⟩
  · rw [kept, opened, Bool.or_true]
  · rw [kept, Bool.or_eq_true, decide_eq_true_eq] at opened
    exact opened.elim (fun same => .inr (congrArg some same)) .inl

variable {α : Type} {d : Disk} {s : Session} {name : String}

/-- Opening a table keeps it open under its name. -/
theorem opens_openTable (named : ∀ t, s.table? name = some t → t.name = name) :
    Opens (some name) s (d.update s (openTable name)).2.1 ∧
      ∀ t, (d.update s (openTable name)).1 = .ok t → t.name = name := by
  rw [openTable, Disk.update_bind, Disk.update_get]
  dsimp only
  cases opened : s.table? name with
  | some t =>
      refine ⟨.refl _ s, fun t' same => ?_⟩
      cases same
      exact named t opened
  | none =>
      have loaded (t : Table)
          (loads : (d.perform (Table.load s.root name s.sync)).1 = .ok t) : t.name = name :=
        Table.name_of_load loads
      simp only [Disk.update_bind, Disk.update_liftM]
      generalize d.perform (Table.load s.root name s.sync) = done at loaded ⊢
      obtain ⟨e | t, d'⟩ := done
      · exact ⟨.refl _ s, fun t same => by cases same⟩
      · obtain rfl : t.name = name := loaded t rfl
        refine ⟨opens_keep s t, fun t' same => ?_⟩
        cases same
        rfl

/-- What follows the opening of a table leaves all other tables as open as they are. -/
theorem opens_openTable_bind (named : ∀ t, s.table? name = some t → t.name = name)
    {k : Table → Update Session α}
    (after : ∀ t : Table, t.name = name → ∀ (d : Disk) (s : Session),
      Opens (some name) s (d.update s (k t)).2.1) :
    Opens (some name) s (d.update s (openTable name >>= k)).2.1 := by
  obtain ⟨opens, same⟩ := opens_openTable (d := d) named
  rw [Disk.update_bind]
  generalize d.update s (openTable name) = done at opens same ⊢
  obtain ⟨e | t, s', d'⟩ := done
  · exact opens
  · exact opens.trans (after t (same t rfl) d' s')

/-- An update of a table that leaves its definition alone keeps the table open. -/
theorem opens_onTable (named : ∀ t, s.table? name = some t → t.name = name) {u : Update Table α}
    (preserves : u.Preserves Table.definition) :
    Opens (some name) s (d.update s (onTable name u)).2.1 := by
  refine opens_openTable_bind named fun t same d' s' => ?_
  have definition := preserves d' t
  rw [Disk.update_onPart]
  dsimp only
  generalize d'.update t u = done at definition ⊢
  obtain ⟨result, t', d''⟩ := done
  have kept : t'.name = name := (congrArg Definition.name definition).trans same
  exact kept ▸ opens_keep s' t'

/-- A table that was not made is not open. -/
theorem session_makeTable_of_error {columns : List Declaration} {e : Error}
    (failed : (d.update s (Statement.makeTable name columns)).1 = .error e) :
    (d.update s (Statement.makeTable name columns)).2.1 = s := by
  simp only [Statement.makeTable, createTable, Disk.update_bind, Disk.update_liftM,
    Disk.perform_ofResult, Disk.update_get] at failed ⊢
  cases valid : Identifier.check name with
  | error e' => rfl
  | ok _ =>
      cases declared : Schema.ofDeclarations? name columns with
      | error e' => rfl
      | ok schema =>
          rw [valid, declared] at failed
          dsimp only at failed ⊢
          generalize d.perform (Table.create s.root (.ofSchema name schema) s.sync) = done
            at failed ⊢
          obtain ⟨e' | t, d'⟩ := done
          · rfl
          · cases failed

/-- Trying to drop a table that is not open opens none. -/
theorem session_dropTable_of_closed (closed : s.table? name = none) :
    (d.update s (Statement.dropTable name).execute).2.1 = s := by
  simp only [Statement.execute, dropTable, takeTable, Disk.update_bind, Disk.update_get, closed,
    Disk.update_liftM]
  generalize d.perform (Table.load s.root name s.sync) = done
  obtain ⟨e | t, d'⟩ := done
  · rfl
  · dsimp only
    generalize d'.perform t.drop = dropped
    obtain ⟨e | _, d''⟩ := dropped <;> rfl

end Session

namespace Service

namespace Agrees

variable {t₀ : FileTree} {root : Path} {r : Place} {sync : Bool} {cat : Catalog} {v w : Service}

/-- A table is open under the name it has. -/
theorem name_of_table? (h : v.Agrees t₀ root r sync cat) {name : String} {t : Table}
    (opened : v.session.table? name = some t) : t.name = name := by
  obtain ⟨c, found, rfl⟩ := h.handles name t opened
  exact (h.depicts.sound name c (Catalog.find_eq_ok.1 found).2.1).named

/-- A statement that fails closes no table and opens none but its own. -/
theorem opens_of_error (h : v.Agrees t₀ root r sync cat) (empty : t₀.EmptyRoot root r)
    {s : Statement} {e : Error} (failed : (v.execute s).1 = .error e) :
    Session.Opens s.table? v.session (v.execute s).2.session := by
  have named (name : String) (t : Table) (opened : v.session.table? name = some t) :
      t.name = name := h.name_of_table? opened
  show Session.Opens s.table? v.session (v.disk.update v.session s.execute).2.1
  cases s with
  | createTable table columns =>
      exact Session.opens_of_eq (Session.session_makeTable_of_error failed)
  | insert table columns values =>
      exact Session.opens_onTable (named table) (Statement.preserves_insertInto columns values)
  | select table items filter =>
      refine Session.opens_openTable_bind (named table) fun t _ d s => ?_
      rw [Disk.update_liftM]
      exact .refl _ s
  | update table assignments filter =>
      exact Session.opens_onTable (named table) (Statement.preserves_updateRows assignments filter)
  | delete table filter =>
      exact Session.opens_onTable (named table) (Statement.preserves_deleteRows filter)
  | createIndex table index columns =>
      exact Session.opens_onTable (named table) (Statement.preserves_makeIndex table index columns)
  | dropTable table =>
      -- A table that is open can be dropped.
      cases opened : v.session.table? table with
      | none => exact Session.opens_of_eq (Session.session_dropTable_of_closed opened)
      | some t =>
          obtain ⟨c, found, -⟩ := h.handles table t opened
          have answer := (h.execute_eq empty (.dropTable table)).symm.trans failed
          rw [Catalog.execute, Catalog.dropTable, found] at answer
          cases answer
  | describe table => exact Session.opens_openTable_bind (named table) fun t _ d s => .refl _ s
  | showTables =>
      have preserves : Update.Preserves id Statement.showTables.execute :=
        .bind .get fun _ => .bind (.ofAction _) fun _ => .pure _
      exact Session.opens_of_eq (preserves v.disk v.session)

/-- A table is open in one service as it is in any other that agrees with the same catalog. -/
theorem table?_eq (h : v.Agrees t₀ root r sync cat) (h' : w.Agrees t₀ root r sync cat)
    {name : String} {t t' : Table} (opened : v.session.table? name = some t)
    (opened' : w.session.table? name = some t') : t = t' := by
  obtain ⟨c, found, rfl⟩ := h.handles name t opened
  obtain ⟨c', found', rfl⟩ := h'.handles name t' opened'
  rw [Except.ok.inj (found.symm.trans found')]

end Agrees

/-- A statement that is refused by validation, executed at any time after starting from an
empty storage root, leaves the disk as it was and every open table open as it was.  If it
opens a table, that is its own, as it would be opened anyway.  Whatever happens later has
the same answers, and comes to the same disk, as if the statement had not been executed. -/
theorem refusal_transparent {d : Disk} {root : Path} (empty : d.EmptyAt root) (sync : Bool)
    (events : List Event) (s : Statement) {e : Error}
    (refused : (((start root sync d).run events).execute s).1 = .error e)
    (validation : e.isValidation = true) :
    let v := (start root sync d).run events
    let w := (v.execute s).2
    v.disk.tree.Same w.disk.tree ∧
      (∀ name t, v.session.table? name = some t → w.session.table? name = some t) ∧
      (∀ name t, w.session.table? name = some t → v.session.table? name = some t ∨
        s.table? = some name ∧ v.openTable name = .ok t) ∧
      ∀ later, w.answers later = v.answers later ∧
        (v.run later).disk.tree.Same (w.run later).disk.tree := by
  obtain ⟨r, empty⟩ := empty
  intro v w
  have agrees : v.Agrees d.tree root r sync _ := (empty.agrees sync).run empty events
  have executed := agrees.execute empty s
  have opens := agrees.opens_of_error empty refused
  -- The refused statement leaves the catalog as it was.
  rw [Catalog.execute_eq_self_of_error ((agrees.execute_eq empty s).symm.trans refused)
    fun table damage same => by rw [same] at validation; cases validation] at executed
  refine ⟨agrees.depicts.same_of_depicts executed.depicts, fun name t opened => ?_,
    fun name t opened => ?_, fun later => ⟨?_, ?_⟩⟩
  · obtain ⟨t', opened'⟩ := Option.isSome_iff_exists.1 (opens.stay name (opened ▸ rfl))
    rw [agrees.table?_eq executed opened opened']
    exact opened'
  · rcases opens.fresh name (opened ▸ rfl) with already | own
    · obtain ⟨t', opened'⟩ := Option.isSome_iff_exists.1 already
      rw [executed.table?_eq agrees opened opened']
      exact .inl opened'
    · obtain ⟨c, found, rfl⟩ := executed.handles name t opened
      exact .inr ⟨own, agrees.openTable_eq empty found⟩
  · exact (executed.answers_eq agrees empty later).trans
      (agrees.answers_eq agrees empty later).symm
  · exact (agrees.run empty later).depicts.same_of_depicts (executed.run empty later).depicts

theorem refusal_transparent_sample :
    let v := (start ⟨"db"⟩ true .prepared).run Event.sample
    let s : Statement := .insert "points" none [.literal (.text "seven")]
    let w := (v.execute s).2
    (v.execute s).1 = .error (.typeMismatch "points" "x") ∧ v.disk.tree.Same w.disk.tree ∧
      (∃ t, v.session.table? "points" = some t ∧ w.session.table? "points" = some t) ∧
      ∀ later, w.answers later = v.answers later := by
  have refused : (((start ⟨"db"⟩ true .prepared).run Event.sample).execute
      (.insert "points" none [.literal (.text "seven")])).1 =
        .error (.typeMismatch "points" "x") := by
    decide +kernel
  obtain ⟨t, opened, -⟩ := (Option.any_eq_true _ _).1 any_table?_sample
  obtain ⟨tree, stay, -, later⟩ :=
    refusal_transparent Disk.emptyAt_prepared true Event.sample _ refused rfl
  exact ⟨refused, tree, ⟨t, opened, stay "points" t opened⟩, fun events => (later events).1⟩

end Service

end FlatDB
