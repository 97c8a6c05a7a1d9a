/-
# Execution against a catalog

What a statement answers and what it makes of the tables is a function of the
catalog alone.  The theorem of this module is the step of the simulation behind
everything that is said of runs: a session that agrees with a catalog executes a
statement with exactly the answer the catalog gives, faults of the file system
included, and agrees with the new catalog afterwards.
-/

import FlatDB.Proofs.Query.Contents
import FlatDB.Proofs.Session.Listing

namespace FlatDB

/-! ## Execution on catalogs -/

namespace Catalog

/-- The contents of a table that can be opened. -/
def find (cat : Catalog) (name : String) : Except Error Contents := do
  Identifier.check name
  match cat[name]? with
  | none => throw (.tableNotFound name)
  | some c =>
    let _ ← Header.reread c.definition
    return c

/-- Do something to the contents of a table. -/
def onTable (cat : Catalog) (name : String) (f : Contents → Except Error Answer × Contents) :
    Except Error Answer × Catalog :=
  match cat.find name with
  | .error e => (.error e, cat)
  | .ok c => ((f c).1, cat.insert name (f c).2)

/-- Make a table.  It is there even if its definition cannot be read back. -/
def makeTable (root : Path) (cat : Catalog) (name : String) (columns : List Declaration) :
    Except Error Answer × Catalog :=
  match Identifier.check name >>= fun _ => Schema.ofDeclarations? name columns with
  | .error e => (.error e, cat)
  | .ok schema =>
    let d := Definition.ofSchema name schema
    if cat[name]?.isSome then (.error (.tableExists name), cat)
    else if root.RoomFor name then
      (Header.reread d >>= fun _ => .ok (.ofMessage ("Table '" ++ name ++ "' created")),
        cat.insert name (.new d))
    else (.error (.storage .nameTooLong), cat)

/-- Drop a table. -/
def dropTable (cat : Catalog) (name : String) : Except Error Answer × Catalog :=
  match cat.find name with
  | .error e => (.error e, cat)
  | .ok _ => (.ok (.ofMessage ("Table '" ++ name ++ "' dropped")), cat.erase name)

/-- Execute a statement. -/
def execute (root : Path) (cat : Catalog) : Statement → Except Error Answer × Catalog
  | .createTable table columns => cat.makeTable root table columns
  | .insert table columns values => cat.onTable table fun c => c.insertInto columns values
  | .select table items filter => (cat.find table >>= fun c => c.selectFrom items filter, cat)
  | .update table assignments filter => cat.onTable table fun c => c.updateRows assignments filter
  | .delete table filter => cat.onTable table fun c => c.deleteRows filter
  | .createIndex table index columns => cat.onTable table fun c => c.makeIndex root index columns
  | .dropTable table => cat.dropTable table
  | .describe table => (cat.find table >>= fun c => .ok c.describe, cat)
  | .showTables => (.ok (.ofRows ["Tables"] (cat.keys.map ([·]))), cat)

variable {cat : Catalog} {name other : String} {c c' : Contents}

/-- The tables that can be opened. -/
theorem find_eq_ok : cat.find name = .ok c ↔
    Identifier.isValid name = true ∧ cat[name]? = some c ∧
      ∃ d, Header.reread c.definition = .ok d := by
  rw [find]
  rw [Result.bind_eq_ok]
  cases known : cat[name]? with
  | none => simp
  | some c' =>
      constructor
      · rintro ⟨_, valid, opened⟩
        obtain ⟨d, read, same⟩ := Result.bind_eq_ok.1 opened
        cases same
        exact ⟨Identifier.check_eq_ok.1 valid, rfl, d, read⟩
      · rintro ⟨valid, same, d, read⟩
        cases same
        exact ⟨(), Identifier.check_eq_ok.2 valid, by simp only [read]; rfl⟩

theorem onTable_of_find (found : cat.find name = .ok c)
    (f : Contents → Except Error Answer × Contents) :
    cat.onTable name f = ((f c).1, cat.insert name (f c).2) := by
  rw [onTable, found]

/-- What is done to a table is accepted only if the table can be opened and its contents accept
it. -/
theorem onTable_eq_of_ok {f : Contents → Except Error Answer × Contents} {a : Answer}
    (accepted : (cat.onTable name f).1 = .ok a) :
    ∃ c, cat.find name = .ok c ∧ (f c).1 = .ok a ∧
      (cat.onTable name f).2 = cat.insert name (f c).2 := by
  unfold onTable at accepted ⊢
  cases found : cat.find name with
  | error e =>
      rw [found] at accepted
      cases accepted
  | ok c =>
      rw [found] at accepted
      exact ⟨c, rfl, accepted, rfl⟩

theorem insert_eq_self (known : cat[name]? = some c) : cat.insert name c = cat := by
  apply Std.ExtTreeMap.ext_getElem?
  intro other
  rw [Std.ExtTreeMap.getElem?_insert]
  split
  · next same => rw [← Std.LawfulEqCmp.eq_of_compare same, known]
  · rfl

/-- A table stays open when what is done to it leaves its definition alone. -/
theorem find_insert_self (h : cat.find name = .ok c) (same : c'.definition = c.definition) :
    find (cat.insert name c') name = .ok c' := by
  obtain ⟨valid, -, read⟩ := find_eq_ok.1 h
  exact find_eq_ok.2 ⟨valid, by simp, same ▸ read⟩

theorem getElem?_insert_of_ne (ne : name ≠ other) (c : Contents) :
    (cat.insert name c)[other]? = cat[other]? := by
  rw [Std.ExtTreeMap.getElem?_insert, if_neg fun e => ne (Std.LawfulEqCmp.eq_of_compare e)]

theorem getElem?_erase_of_ne (ne : name ≠ other) : (cat.erase name)[other]? = cat[other]? := by
  rw [Std.ExtTreeMap.getElem?_erase, if_neg fun e => ne (Std.LawfulEqCmp.eq_of_compare e)]

/-- Whether a table is open depends on what the catalog has under its name. -/
theorem find_congr {cat' : Catalog} (same : cat'[name]? = cat[name]?) :
    cat'.find name = cat.find name := by
  rw [find, find, same]

theorem find_insert_of_ne (h : cat.find other = .ok c) (ne : name ≠ other) (c' : Contents) :
    find (cat.insert name c') other = .ok c :=
  (find_congr (getElem?_insert_of_ne ne c')).trans h

theorem find_erase_of_ne (h : cat.find other = .ok c) (ne : name ≠ other) :
    find (cat.erase name) other = .ok c :=
  (find_congr (getElem?_erase_of_ne ne)).trans h

end Catalog

/-! ## Keeping and forgetting tables -/

namespace Session

variable {s : Session} {name : String}

theorem table?_keep (s : Session) (t : Table) (name : String) :
    (s.keep t).table? name = if t.name = name then some t else s.table? name := by
  rw [table?, keep, Std.ExtTreeMap.getElem?_insert]
  by_cases same : t.name = name
  · simp [same]
  · simp [same, table?]

/-- Keeping a table that is open as it is. -/
theorem keep_eq_self {t : Table} (opened : s.table? t.name = some t) : s.keep t = s := by
  have tables : s.tables.insert t.name t = s.tables := by
    ext other : 1
    rw [Std.ExtTreeMap.getElem?_insert]
    split
    · next same =>
      rw [← Std.LawfulEqCmp.eq_of_compare same]
      exact opened.symm
    · rfl
  rw [keep, tables]

theorem table?_forget_of_ne {other : String} (ne : name ≠ other) :
    (s.forget name).table? other = s.table? other := by
  rw [table?, forget, Std.ExtTreeMap.getElem?_erase,
    if_neg fun same => ne (Std.LawfulEqCmp.eq_of_compare same), table?]

theorem of_table?_forget {other : String} {table : Table}
    (h : (s.forget name).table? other = some table) :
    name ≠ other ∧ s.table? other = some table := by
  rw [table?, forget, Std.ExtTreeMap.getElem?_erase] at h
  split at h
  · cases h
  · next elsewhere =>
    refine ⟨?_, h⟩
    rintro rfl
    exact elsewhere Std.ReflCmp.compare_self

/-- There is nothing to forget of a table that is not open. -/
theorem forget_of_closed (closed : s.table? name = none) : s.forget name = s := by
  have tables : s.tables.erase name = s.tables := by
    ext other : 1
    rw [Std.ExtTreeMap.getElem?_erase]
    split
    · next same =>
      rw [← Std.LawfulEqCmp.eq_of_compare same]
      exact closed.symm
    · rfl
  rw [forget, tables]

end Session

/-! ## Sessions that agree with a catalog -/

namespace FileTree

variable {t₀ t t' : FileTree} {root : Path} {r : Place} {cat : Catalog} {name : String}
  {c : Contents} {sync : Bool} {s : Session}

/-- Opening a table yields what is in the catalog. -/
theorem Depicts.runs_load (h : t₀.Depicts root r cat t) (empty : t₀.EmptyRoot root r)
    (name : String) (sync : Bool) :
    (Table.load root name sync).Runs t (cat.find name >>= fun c => .ok (c.handle root sync)) t := by
  rw [Catalog.find]
  cases valid : Identifier.isValid name with
  | false =>
      rw [Identifier.check, if_neg (by simp [valid])]
      exact runs_load_of_not_isValid t root valid sync
  | true =>
      rw [Identifier.check_eq_ok.2 valid]
      cases known : cat[name]? with
      | none => exact (h.leads empty).runs_load_of_absent valid (h.vacant known []) sync
      | some c =>
          have loaded := (h.stores empty known).runs_load sync
          rw [(h.sound name c known).named] at loaded
          cases read : Header.reread c.definition with
          | ok d =>
              rw [read] at loaded
              simpa [read] using loaded
          | error e =>
              rw [read] at loaded
              simpa [read] using loaded

/-- A session and a tree that agree with a catalog: the tree depicts it, and every open
table is what opening it again would yield. -/
structure Mirrors (t₀ : FileTree) (root : Path) (r : Place) (sync : Bool) (cat : Catalog)
    (s : Session) (t : FileTree) : Prop where
  depicts : t₀.Depicts root r cat t
  atRoot : s.root = root
  syncs : s.sync = sync
  handles : ∀ name table, s.table? name = some table →
    ∃ c, cat.find name = .ok c ∧ table = c.handle root sync

theorem EmptyRoot.mirrors (h : t₀.EmptyRoot root r) (sync : Bool) :
    t₀.Mirrors root r sync ∅ (.start root sync) t₀ := by
  refine ⟨h.depicts, rfl, rfl, fun name table opened => ?_⟩
  simp [Session.table?, Session.start] at opened

namespace Mirrors

/-- A session that has forgotten all tables still agrees. -/
theorem start (h : t₀.Mirrors root r sync cat s t) :
    t₀.Mirrors root r sync cat (.start s.root s.sync) t := by
  refine ⟨h.depicts, h.atRoot, h.syncs, fun name table opened => ?_⟩
  simp [Session.table?, Session.start] at opened

/-- Once a table has turned into another that is kept open, the session agrees with the new
catalog. -/
theorem turn {c : Contents} {t' : FileTree} (h : t₀.Mirrors root r sync cat s t)
    (named : c.name = name) (opens : Catalog.find (cat.insert name c) name = .ok c)
    (turns : t.Turns root r c t') :
    t₀.Mirrors root r sync (cat.insert name c) (s.keep (c.handle root sync)) t' := by
  have depicts := h.depicts.insert turns
  rw [named] at depicts
  refine ⟨depicts, h.atRoot, h.syncs, fun other table opened => ?_⟩
  rw [Session.table?, Session.keep, Std.ExtTreeMap.getElem?_insert,
    show (c.handle root sync).name = name from named] at opened
  split at opened
  · next this =>
    obtain rfl : name = other := Std.LawfulEqCmp.eq_of_compare this
    cases opened
    exact ⟨c, opens, rfl⟩
  · next elsewhere =>
    obtain ⟨c', found, rfl⟩ := h.handles other table opened
    have ne : name ≠ other := by
      rintro rfl
      exact elsewhere Std.ReflCmp.compare_self
    exact ⟨c', Catalog.find_insert_of_ne found ne c, rfl⟩

/-- The session agrees with a tree that has the same everywhere. -/
theorem same (h : t₀.Mirrors root r sync cat s t) (same : t.Same t') :
    t₀.Mirrors root r sync cat s t' :=
  ⟨h.depicts.same same, h.atRoot, h.syncs, h.handles⟩

/-- Keeping a table open that is in the catalog. -/
theorem keep (h : t₀.Mirrors root r sync cat s t) (empty : t₀.EmptyRoot root r)
    (found : cat.find name = .ok c) :
    t₀.Mirrors root r sync cat (s.keep (c.handle root sync)) t := by
  have known := (Catalog.find_eq_ok.1 found).2.1
  have kept := h.turn (h.depicts.sound name c known).named (Catalog.find_insert_self found rfl)
    (h.depicts.stores empty known).turns
  rwa [Catalog.insert_eq_self known] at kept

/-! ## Tables that are opened -/

/-- A table that is open is in the catalog, and any other is loaded as the catalog has it. -/
theorem table?_cases (h : t₀.Mirrors root r sync cat s t) (empty : t₀.EmptyRoot root r)
    (name : String) :
    (∃ c, s.table? name = some (c.handle root sync) ∧ cat.find name = .ok c) ∨
      s.table? name = none ∧ (Table.load s.root name s.sync).Runs t
        (cat.find name >>= fun c => .ok (c.handle root sync)) t := by
  cases opened : s.table? name with
  | some table =>
      obtain ⟨c, found, rfl⟩ := h.handles name table opened
      exact .inl ⟨c, rfl, found⟩
  | none =>
      rw [h.atRoot, h.syncs]
      exact .inr ⟨rfl, h.depicts.runs_load empty name sync⟩

theorem runs_openTable (h : t₀.Mirrors root r sync cat s t) (empty : t₀.EmptyRoot root r)
    (name : String) :
    ∃ s', (Session.openTable name).Runs s t
        (cat.find name >>= fun c => .ok (c.handle root sync)) s' t ∧
      t₀.Mirrors root r sync cat s' t := by
  rw [Session.openTable]
  rcases h.table?_cases empty name with ⟨c, opened, found⟩ | ⟨closed, loaded⟩
  · rw [found]
    refine ⟨s, .bind_get ?_, h⟩
    simp only [opened]
    exact .pure _ s t
  · cases found : cat.find name with
    | ok c =>
        rw [found] at loaded
        refine ⟨s.keep (c.handle root sync), .bind_get ?_, h.keep empty found⟩
        simp only [closed]
        exact .bind (.ofAction loaded s) (.bind_set (.pure _ _ t))
    | error e =>
        rw [found] at loaded
        refine ⟨s, .bind_get ?_, h⟩
        simp only [closed]
        exact .bind_error (.ofAction loaded s)

/-- What is answered about an open table is answered about its contents. -/
theorem runs_openTable_bind (h : t₀.Mirrors root r sync cat s t) (empty : t₀.EmptyRoot root r)
    (name : String) {k : Table → Update Session Answer} {f : Contents → Except Error Answer}
    (answers : ∀ c, t.Stores root r c → ∀ s', (k (c.handle root sync)).Runs s' t (f c) s' t) :
    ∃ s', (Session.openTable name >>= k).Runs s t (cat.find name >>= f) s' t ∧
      t₀.Mirrors root r sync cat s' t := by
  obtain ⟨s', opened, mirrors⟩ := h.runs_openTable empty name
  cases found : cat.find name with
  | error e =>
      rw [found] at opened
      exact ⟨s', .bind_error opened, mirrors⟩
  | ok c =>
      rw [found] at opened
      have stores := h.depicts.stores empty (Catalog.find_eq_ok.1 found).2.1
      exact ⟨s', .bind opened (answers c stores s'), mirrors⟩

/-- What an update does to a table's contents it does in the catalog. -/
theorem runs_onTable (h : t₀.Mirrors root r sync cat s t) (empty : t₀.EmptyRoot root r)
    {u : Update Table Answer} {f : Contents → Except Error Answer × Contents}
    (does : ∀ c, c.name = name → t.Stores root r c →
      (f c).2.definition = c.definition ∧
        ∃ t', u.Runs (c.handle root sync) t (f c).1 ((f c).2.handle root sync) t' ∧
          t.Turns root r (f c).2 t') :
    ∃ s' t', (Session.onTable name u).Runs s t (cat.onTable name f).1 s' t' ∧
      t₀.Mirrors root r sync (cat.onTable name f).2 s' t' := by
  unfold Catalog.onTable Session.onTable
  obtain ⟨s', opened, mirrors⟩ := h.runs_openTable empty name
  cases found : cat.find name with
  | error e =>
      rw [found] at opened
      exact ⟨s', t, .bind_error opened, mirrors⟩
  | ok c =>
      rw [found] at opened
      have known := (Catalog.find_eq_ok.1 found).2.1
      obtain ⟨same, t', done, turns⟩ := does c (h.depicts.sound name c known).named
        (h.depicts.stores empty known)
      have named : (f c).2.name = name :=
        (congrArg Definition.name same).trans (h.depicts.sound name c known).named
      exact ⟨_, t', .bind opened (.onPart done),
        mirrors.turn named (Catalog.find_insert_self found same) turns⟩

/-! ## Tables that are made and dropped -/

/-- Taking a table out of the session leaves it not open. -/
theorem runs_takeTable (h : t₀.Mirrors root r sync cat s t) (empty : t₀.EmptyRoot root r)
    (name : String) :
    (Session.takeTable name).Runs s t (cat.find name >>= fun c => .ok (c.handle root sync))
      (s.forget name) t := by
  rw [Session.takeTable]
  rcases h.table?_cases empty name with ⟨c, opened, found⟩ | ⟨closed, loaded⟩
  · rw [found]
    apply Update.Runs.bind_get
    simp only [opened]
    exact .bind_set (.pure _ _ t)
  · rw [Session.forget_of_closed closed]
    apply Update.Runs.bind_get
    simp only [closed]
    exact .ofAction loaded s

theorem forget (h : t₀.Mirrors root r sync cat s t) (name : String) :
    t₀.Mirrors root r sync cat (s.forget name) t :=
  ⟨h.depicts, h.atRoot, h.syncs, fun other table opened =>
    h.handles other table (Session.of_table?_forget opened).2⟩

/-- A table that was dropped and forgotten. -/
theorem drop {t' : FileTree} (h : t₀.Mirrors root r sync cat s t) (name : String)
    (same : SameOutside (name :: r) t t') (gone : t'.Vacant (name :: r)) :
    t₀.Mirrors root r sync (cat.erase name) (s.forget name) t' := by
  refine ⟨h.depicts.erase name same gone, h.atRoot, h.syncs, fun other table opened => ?_⟩
  obtain ⟨ne, opened⟩ := Session.of_table?_forget opened
  obtain ⟨c, found, rfl⟩ := h.handles other table opened
  exact ⟨c, Catalog.find_erase_of_ne found ne, rfl⟩

theorem runs_dropTable (h : t₀.Mirrors root r sync cat s t) (empty : t₀.EmptyRoot root r)
    (name : String) :
    ∃ s' t', (Statement.dropTable name).execute.Runs s t (cat.dropTable name).1 s' t' ∧
      t₀.Mirrors root r sync (cat.dropTable name).2 s' t' := by
  unfold Statement.execute Session.dropTable Catalog.dropTable
  have taken := h.runs_takeTable empty name
  cases found : cat.find name with
  | error e =>
      rw [found] at taken
      exact ⟨s.forget name, t, .bind_error (.bind_error taken), h.forget name⟩
  | ok c =>
      rw [found] at taken
      have known := (Catalog.find_eq_ok.1 found).2.1
      have stores := h.depicts.stores empty known
      have named := (h.depicts.sound name c known).named
      have same := sameOutside_prune t (c.name :: r)
      have stays : (t.prune (c.name :: r)).Leads root r :=
        empty.leads_of_outside (same.here.trans h.depicts.here) fun p away =>
          (same.outside p (away c.name)).trans (h.depicts.outside p away)
      obtain ⟨dropped, gone⟩ := stores.runs_drop stays sync
      rw [named] at same gone dropped
      exact ⟨_, _, .bind (.bind taken (.ofAction dropped _)) (.pure _ _ _), h.drop name same gone⟩

/-- A table that was made but cannot be opened. -/
theorem makeUnreadable {t' : FileTree} {c : Contents} (h : t₀.Mirrors root r sync cat s t)
    (absent : cat[name]? = none) (named : c.name = name) (turns : t.Turns root r c t') :
    t₀.Mirrors root r sync (cat.insert name c) s t' := by
  have depicts := h.depicts.insert turns
  rw [named] at depicts
  refine ⟨depicts, h.atRoot, h.syncs, fun other table opened => ?_⟩
  obtain ⟨c', found, rfl⟩ := h.handles other table opened
  have ne : name ≠ other := by
    rintro rfl
    rw [(Catalog.find_eq_ok.1 found).2.1] at absent
    cases absent
  exact ⟨c', Catalog.find_insert_of_ne found ne c, rfl⟩

/-- A checked definition is made into a table where there is room for one. -/
theorem runs_createTable (h : t₀.Mirrors root r sync cat s t) (empty : t₀.EmptyRoot root r)
    {d : Definition} (proper : d.Proper) (absent : cat[d.name]? = none) (room : root.RoomFor d.name)
      :
    ∃ s' t', (Session.createTable d).Runs s t
        (Header.reread d >>= fun _ => .ok ((Contents.new d).handle root sync)) s' t' ∧
      t₀.Mirrors root r sync (cat.insert d.name (.new d)) s' t' := by
  obtain ⟨t', created, turns⟩ := (h.depicts.leads empty).runs_create proper room
    (h.depicts.vacant_staging d.name) (h.depicts.vacant absent) sync
  rw [Session.createTable]
  cases read : Header.reread d with
  | ok d' =>
      rw [read] at created
      have opens : Catalog.find (cat.insert d.name (.new d)) d.name = .ok (.new d) :=
        Catalog.find_eq_ok.2 ⟨proper.name, by simp, d', read⟩
      refine ⟨_, t', .bind_get ?_, h.turn rfl opens turns⟩
      rw [h.atRoot, h.syncs]
      exact .bind (.ofAction created s) (.bind_set (.pure _ _ t'))
  | error e =>
      rw [read] at created
      refine ⟨s, t', .bind_get ?_, h.makeUnreadable absent rfl turns⟩
      rw [h.atRoot, h.syncs]
      exact .bind_error (.ofAction created s)

/-- A statement that makes a table checks the name and the columns first. -/
theorem runs_makeTable_of_error {columns : List Declaration} {e : Error}
    (refused : (Identifier.check name >>= fun _ => Schema.ofDeclarations? name columns) = .error e)
    (s : Session) (t : FileTree) : (Statement.makeTable name columns).Runs s t (.error e) s t := by
  rw [Statement.makeTable]
  cases valid : Identifier.check name with
  | error e' =>
      rw [valid] at refused
      cases refused
      exact .bind_error (.ofAction (.ofResult _ t) s)
  | ok _ =>
      rw [valid] at refused
      exact .bind (.ofAction (.ofResult _ t) s)
        (.bind_error (.ofAction (.ofResult_of_eq refused t) s))

theorem runs_makeTable_of_ok {columns : List Declaration} {schema : Schema}
    (checked : (Identifier.check name >>= fun _ => Schema.ofDeclarations? name columns) =
      .ok schema)
    {result : Except Error Table} {s' : Session} {t' : FileTree}
    (made : (Session.createTable (.ofSchema name schema)).Runs s t result s' t') :
    (Statement.makeTable name columns).Runs s t
      (result >>= fun _ => .ok (.ofMessage ("Table '" ++ name ++ "' created"))) s' t' := by
  obtain ⟨_, valid, declared⟩ := Result.bind_eq_ok.1 checked
  refine .bind (.ofAction (.ofResult_of_eq valid t) s)
    (.bind (.ofAction (.ofResult_of_eq declared t) s) ?_)
  cases result with
  | ok table => exact .bind made (.pure _ _ _)
  | error e => exact .bind_error made

theorem runs_makeTable (h : t₀.Mirrors root r sync cat s t) (empty : t₀.EmptyRoot root r)
    (name : String) (columns : List Declaration) :
    ∃ s' t', (Statement.makeTable name columns).Runs s t (cat.makeTable root name columns).1 s' t' ∧
      t₀.Mirrors root r sync (cat.makeTable root name columns).2 s' t' := by
  have leads := h.depicts.leads empty
  rw [Catalog.makeTable]
  cases checked : Identifier.check name >>= fun _ => Schema.ofDeclarations? name columns with
  | error e => exact ⟨s, t, runs_makeTable_of_error checked s t, h⟩
  | ok schema =>
      obtain ⟨_, valid, declared⟩ := Result.bind_eq_ok.1 checked
      have proper : (Definition.ofSchema name schema).Proper :=
        ⟨Identifier.check_eq_ok.1 valid, .of_ofDeclarations? declared⟩
      -- What fails in making the table fails the statement.
      have refused {e : Error} {t' : FileTree}
          (created : (Table.create root (.ofSchema name schema) sync).Runs t (.error e) t') :
          (Session.createTable (.ofSchema name schema)).Runs s t (.error e) s t' := by
        refine .bind_get ?_
        rw [h.atRoot, h.syncs]
        exact .bind_error (.ofAction created s)
      cases known : cat[name]? with
      | some c =>
          have stores := h.depicts.stores empty known
          obtain ⟨named, -, room, -⟩ := h.depicts.sound name c known
          have present : t.at? (name :: r) = some .directory := named ▸ stores.houses.holds []
          have admits := room.admits (isStep_of_isValid proper.name) leads.ne_nil
          exact ⟨s, t, runs_makeTable_of_ok checked
            (refused (leads.runs_create_of_present proper.name admits present sync)), h⟩
      | none =>
          by_cases room : root.RoomFor name
          · obtain ⟨s', t', created, mirrors⟩ := h.runs_createTable empty proper known room
            have made := runs_makeTable_of_ok checked created
            simp only [Option.isSome_none, Bool.false_eq_true, if_false, if_pos room]
            refine ⟨s', t', ?_, mirrors⟩
            cases read : Header.reread (Definition.ofSchema name schema) with
            | ok d =>
                rw [read] at made
                exact made
            | error e =>
                rw [read] at made
                exact made
          · obtain ⟨t', created, same⟩ := leads.runs_create_of_no_room proper.name room
              (h.depicts.vacant_staging name) (h.depicts.vacant known) sync
            simp only [Option.isSome_none, Bool.false_eq_true, if_false, if_neg room]
            exact ⟨s, t', runs_makeTable_of_ok checked (refused created), h.same same⟩

/-! ## The step of the simulation -/

/-- A session that agrees with a catalog executes every statement with the answer the catalog
gives, and agrees with the new catalog afterwards. -/
theorem runs_execute (h : t₀.Mirrors root r sync cat s t) (empty : t₀.EmptyRoot root r)
    (statement : Statement) :
    ∃ s' t', statement.execute.Runs s t (cat.execute root statement).1 s' t' ∧
      t₀.Mirrors root r sync (cat.execute root statement).2 s' t' := by
  cases statement with
  | createTable table columns => exact h.runs_makeTable empty table columns
  | insert table columns values =>
      exact h.runs_onTable empty fun c _ stores =>
        ⟨c.definition_insertInto columns values, stores.runs_insertInto sync columns values⟩
  | select table items filter =>
      obtain ⟨s', answered, mirrors⟩ := h.runs_openTable_bind empty table
        (k := fun table => liftM (Statement.selectFrom table items filter))
        (f := fun c => c.selectFrom items filter)
        fun c stores s' => .ofAction (stores.runs_selectFrom sync items filter) s'
      exact ⟨s', t, answered, mirrors⟩
  | update table assignments filter =>
      exact h.runs_onTable empty fun c _ stores =>
        ⟨c.definition_updateRows assignments filter, stores.runs_updateRows sync assignments filter⟩
  | delete table filter =>
      exact h.runs_onTable empty fun c _ stores =>
        ⟨c.definition_deleteRows filter, stores.runs_deleteRows sync filter⟩
  | createIndex table index columns =>
      refine h.runs_onTable empty fun c named stores =>
        ⟨c.definition_makeIndex root index columns, ?_⟩
      rw [← named]
      exact stores.runs_makeIndex sync index columns
  | dropTable table => exact h.runs_dropTable empty table
  | describe table =>
      obtain ⟨s', answered, mirrors⟩ := h.runs_openTable_bind empty table
        (k := fun table => pure (Statement.describeTable table)) (f := fun c => .ok c.describe)
        fun c _ s' => c.describeTable_handle root sync ▸ .pure _ s' t
      exact ⟨s', t, answered, mirrors⟩
  | showTables =>
      exact ⟨s, t, .bind_get (.bind (.ofAction (h.depicts.runs_tableNames empty h.atRoot) s)
        (.pure _ s t)), h⟩

end Mirrors

end FileTree

end FlatDB
