/-
# Stored fields have the type of their column

Whatever statements have been executed, every record of every table has exactly
one field for each column, and the field is a text that the column admits.  So no
comparison meets a text without a value, and no statement finds anything stored
damaged or missing.

There is one exception, which is stated and not assumed away.  A header is read
into machine words, so a table can be declared whose header is written but cannot
be read: one with more columns, or a longer text, than a word can count.
-/

import FlatDB.Proofs.Query.Checks
import FlatDB.Proofs.Query.Comparing
import FlatDB.Proofs.Session.Running

namespace FlatDB

/-! ## Errors -/

/-- Whether an error reports that something stored is damaged or missing. -/
def Error.reportsDamage : Error → Bool
  | .unreadableHeader .. | .foreignHeader .. | .damagedIndex .. | .missingRecords _
  | .damagedRecord .. => true
  | _ => false

/-- What is done to a table never reports damage. -/
theorem Result.OnlyFails.reportsDamage {α : Type} {x : Except Error α} (h : OnlyFails x)
    {e : Error} (failed : x = .error e) : e.reportsDamage = false := by
  rcases h e failed with refusal | ⟨fault, rfl⟩
  · cases e <;> first | rfl | cases refusal
  · rfl

/-- Neither does a check. -/
theorem Result.OnlyRefuses.reportsDamage {α : Type} {x : Except Error α} (h : OnlyRefuses x)
    {e : Error} (failed : x = .error e) : e.reportsDamage = false :=
  h.onlyFails.reportsDamage failed

/-! ## Declarations -/

/-- Among some events a table is declared whose header cannot be read. -/
def Event.DeclareOversized (events : List Event) (table : String) : Prop :=
  ∃ columns, .statement (.createTable table columns) ∈ events ∧ Declaration.Oversized columns

/-! ## Records -/

/-- A record as a table's definition promises it. -/
structure Record.WellTyped (d : Definition) (r : Record) : Prop where
  /-- There is one field for each column, and the column admits it. -/
  typed : r.Typed d.schema
  /-- What a checked filter compares is there and has a value. -/
  comparable : ∀ filter p, Predicate.ofExpr d filter = .ok p →
    ∃ text, r.get? p.position = some text ∧ (p.operand.order? text).isSome = true

theorem Record.Typed.wellTyped {d : Definition} {r : Record} (proper : d.schema.Proper)
    (typed : r.Typed d.schema) : r.WellTyped d := by
  refine ⟨typed, fun filter p checked => ?_⟩
  obtain ⟨_, _, _, column, _, _, -, known, -, made, rfl⟩ := Predicate.ofExpr_eq_ok checked
  obtain ⟨text, field, admits⟩ := typed.get? proper (Schema.mem_of_column? known)
  obtain ⟨o, ordered, -⟩ := Column.orders_of_admits made admits
  exact ⟨text, field, Option.isSome_of_eq_some ordered⟩

/-- An open table all of whose records can be read and are well typed. -/
def Table.WellTyped (t : Table) (d : Disk) : Prop :=
  ∃ stored : List Stored, (d.perform t.scan).1 = .ok (stored.map .ok) ∧
    ∀ s ∈ stored, s.2.WellTyped t.definition

/-! ## Catalogs -/

/-- One of some events made the table. -/
def Contents.MadeBy (events : List Event) (name : String) (c : Contents) : Prop :=
  ∃ columns schema, .statement (.createTable name columns) ∈ events ∧
    Schema.ofDeclarations? name columns = .ok schema ∧ c.definition = .ofSchema name schema

namespace Catalog

/-- Every table of the catalog was made by one of some events. -/
def MadeBy (events : List Event) (cat : Catalog) : Prop :=
  ∀ (name : String) (c : Contents), cat[name]? = some c → c.MadeBy events name

variable {root : Path} {cat : Catalog} {events : List Event} {name : String} {e : Error}

namespace MadeBy

theorem mono {events' : List Event} (h : cat.MadeBy events) (sub : ∀ e ∈ events, e ∈ events') :
    cat.MadeBy events' := by
  intro name c known
  obtain ⟨columns, schema, made, declared, same⟩ := h name c known
  exact ⟨columns, schema, sub _ made, declared, same⟩

/-- Replacing the contents of a table leaves the catalog what it was made by. -/
theorem insert (h : cat.MadeBy events) {c : Contents} (made : c.MadeBy events name) :
    MadeBy events (cat.insert name c) := by
  intro other c' known
  rw [Std.ExtTreeMap.getElem?_insert] at known
  split at known
  · next same =>
    cases known
    rwa [← Std.LawfulEqCmp.eq_of_compare same]
  · exact h other c' known

theorem erase (h : cat.MadeBy events) (name : String) : MadeBy events (cat.erase name) := by
  intro other c known
  rw [Std.ExtTreeMap.getElem?_erase] at known
  split at known
  · cases known
  · exact h other c known

theorem onTable (h : cat.MadeBy events) (name : String)
    {f : Contents → Except Error Answer × Contents}
    (keeps : ∀ c, (f c).2.definition = c.definition) : (cat.onTable name f).2.MadeBy events := by
  unfold Catalog.onTable
  cases found : cat.find name with
  | error e => exact h
  | ok c =>
      obtain ⟨columns, schema, made, declared, same⟩ := h name c (find_eq_ok.1 found).2.1
      exact h.insert ⟨columns, schema, made, declared, (keeps c).trans same⟩

/-- What a statement makes of the catalog is made by the statement too. -/
theorem execute (h : cat.MadeBy events) (root : Path) (s : Statement) :
    (cat.execute root s).2.MadeBy (events ++ [.statement s]) := by
  have before : cat.MadeBy (events ++ [.statement s]) :=
    h.mono fun _ mem => List.mem_append_left _ mem
  cases s with
  | createTable table columns =>
      show (cat.makeTable root table columns).2.MadeBy _
      unfold makeTable
      cases checked : Identifier.check table >>= fun _ => Schema.ofDeclarations? table columns with
      | error e => exact before
      | ok schema =>
          obtain ⟨_, -, declared⟩ := Result.bind_eq_ok.1 checked
          dsimp only
          split
          · exact before
          split
          · exact before.insert ⟨columns, schema, by simp, declared, rfl⟩
          · exact before
  | insert table columns values =>
      exact before.onTable table fun c => c.definition_insertInto columns values
  | select table items filter => exact before
  | update table assignments filter =>
      exact before.onTable table fun c => c.definition_updateRows assignments filter
  | delete table filter => exact before.onTable table fun c => c.definition_deleteRows filter
  | createIndex table index columns =>
      exact before.onTable table fun c => c.definition_makeIndex root index columns
  | dropTable table =>
      show (cat.dropTable table).2.MadeBy _
      unfold dropTable
      cases cat.find table with
      | error e => exact before
      | ok c => exact before.erase table
  | describe table => exact before
  | showTables => exact before

theorem run (h : cat.MadeBy events) (root : Path) (later : List Event) :
    (cat.run root later).MadeBy (events ++ later) := by
  induction later generalizing cat events with
  | nil => exact (List.append_nil events).symm ▸ h
  | cons e later ih =>
      have after : (cat.after root e).MadeBy (events ++ [e]) := by
        cases e with
        | statement s => exact h.execute root s
        | reopening => exact h.mono fun _ mem => List.mem_append_left _ mem
      rw [List.append_cons]
      exact ih after

/-- A table of the catalog can be opened, or its declarations were oversized. -/
theorem find_cases (h : cat.MadeBy events) {c : Contents} (known : cat[name]? = some c)
    (valid : Identifier.isValid name = true) :
    cat.find name = .ok c ∨ ∃ damage, cat.find name = .error (.unreadableHeader name damage) ∧
      Event.DeclareOversized events name := by
  obtain ⟨columns, schema, made, declared, same⟩ := h name c known
  cases read : Header.reread c.definition with
  | ok d => exact .inl (find_eq_ok.2 ⟨valid, known, d, read⟩)
  | error e =>
      have checked := Identifier.check_eq_ok.2 valid
      have unread := same ▸ read
      obtain ⟨damage, rfl, oversized⟩ := Header.reread_of_declared checked declared unread
      refine .inr ⟨damage, ?_, columns, made, oversized⟩
      simp [find, checked, known, read]

/-- A table that cannot be opened because of what is stored was declared oversized. -/
theorem oversized_of_find (h : cat.MadeBy events) (failed : cat.find name = .error e)
    (damaged : e.reportsDamage = true) :
    ∃ damage, e = .unreadableHeader name damage ∧ Event.DeclareOversized events name := by
  cases checked : Identifier.check name with
  | error e' =>
      rw [find, checked] at failed
      cases failed
      rw [(Identifier.onlyRefuses_check name).reportsDamage checked] at damaged
      cases damaged
  | ok _ =>
      cases known : cat[name]? with
      | none =>
          simp only [find, checked, known] at failed
          cases failed
          cases damaged
      | some c =>
          rcases h.find_cases known (Identifier.check_eq_ok.1 checked) with
            found | ⟨damage, unread, oversized⟩
          · cases found.symm.trans failed
          · exact ⟨damage, Except.error.inj (failed.symm.trans unread), oversized⟩

end MadeBy

/-- What is answered about a table is damage only if the table cannot be opened. -/
theorem find_of_bind {α : Type} {f : Contents → Except Error α}
    (checks : ∀ c, Result.OnlyRefuses (f c)) (failed : cat.find name >>= f = .error e)
    (damaged : e.reportsDamage = true) : cat.find name = .error e := by
  cases found : cat.find name with
  | error e' =>
      rw [found] at failed
      cases failed
      rfl
  | ok c =>
      rw [found] at failed
      rw [(checks c).reportsDamage failed] at damaged
      cases damaged

/-- What is done to a table fails with damage only if the table cannot be opened. -/
theorem find_of_onTable {f : Contents → Except Error Answer × Contents}
    (checks : ∀ c, Result.OnlyFails (f c).1)
    (failed : (cat.onTable name f).1 = .error e) (damaged : e.reportsDamage = true) :
    cat.find name = .error e := by
  unfold onTable at failed
  cases found : cat.find name with
  | error e' =>
      rw [found] at failed
      cases failed
      rfl
  | ok c =>
      rw [found] at failed
      rw [(checks c).reportsDamage failed] at damaged
      cases damaged

/-- Making a table fails with damage only if its declarations are oversized. -/
theorem oversized_of_makeTable {columns : List Declaration}
    (failed : (cat.makeTable root name columns).1 = .error e) (damaged : e.reportsDamage = true) :
    ∃ damage, e = .unreadableHeader name damage ∧ Declaration.Oversized columns := by
  unfold makeTable at failed
  cases checked : Identifier.check name >>= fun _ => Schema.ofDeclarations? name columns with
  | error e' =>
      have checks := Result.OnlyRefuses.bind (Identifier.onlyRefuses_check name) fun _ =>
        Schema.onlyRefuses_ofDeclarations? name columns
      rw [checked] at failed
      cases failed
      rw [checks.reportsDamage checked] at damaged
      cases damaged
  | ok schema =>
      obtain ⟨_, valid, declared⟩ := Result.bind_eq_ok.1 checked
      simp only [checked] at failed
      split at failed
      · cases failed
        cases damaged
      split at failed
      · cases read : Header.reread (.ofSchema name schema) with
        | ok d =>
            rw [read] at failed
            cases failed
        | error e' =>
            rw [read] at failed
            cases failed
            exact Header.reread_of_declared valid declared read
      · cases failed
        cases damaged

/-- Dropping a table fails only if the table cannot be opened. -/
theorem find_of_dropTable (failed : (cat.dropTable name).1 = .error e) :
    cat.find name = .error e := by
  unfold dropTable at failed
  cases found : cat.find name with
  | error e' =>
      rw [found] at failed
      cases failed
      rfl
  | ok c =>
      rw [found] at failed
      cases failed

end Catalog

/-- A statement answers damage only if a table's declarations were oversized. -/
theorem Catalog.MadeBy.oversized_of_execute {root : Path} {cat : Catalog} {events : List Event}
    (h : cat.MadeBy events) {s : Statement} {e : Error}
    (failed : (cat.execute root s).1 = .error e) (damaged : e.reportsDamage = true) :
    ∃ table damage, e = .unreadableHeader table damage ∧
      Event.DeclareOversized (events ++ [.statement s]) table := by
  have before : cat.MadeBy (events ++ [.statement s]) :=
    h.mono fun _ mem => List.mem_append_left _ mem
  have unopened {table : String} (failed : cat.find table = .error e) :=
    (⟨table, before.oversized_of_find failed damaged⟩ : ∃ table damage,
      e = .unreadableHeader table damage ∧
        Event.DeclareOversized (events ++ [.statement s]) table)
  cases s with
  | createTable table columns =>
      obtain ⟨damage, unread, oversized⟩ := oversized_of_makeTable failed damaged
      exact ⟨table, damage, unread, columns, by simp, oversized⟩
  | insert table columns values =>
      exact unopened (find_of_onTable (fun c => c.onlyFails_insertInto columns values) failed damaged)
  | select table items filter =>
      exact unopened (find_of_bind (fun c => c.onlyRefuses_selectFrom items filter) failed damaged)
  | update table assignments filter =>
      exact unopened (find_of_onTable (fun c => c.onlyFails_updateRows assignments filter) failed damaged)
  | delete table filter =>
      exact unopened (find_of_onTable (fun c => c.onlyFails_deleteRows filter) failed damaged)
  | createIndex table index columns =>
      exact unopened (find_of_onTable (fun c => c.onlyFails_makeIndex root index columns) failed damaged)
  | dropTable table => exact unopened (find_of_dropTable failed)
  | describe table => exact unopened (find_of_bind (fun _ => .ok _) failed damaged)
  | showTables => cases failed

/-! ## Services -/

namespace Service

/-- From an empty storage root, whatever is executed, all records of every table that can be
opened are well typed.  Every table can be opened, and no statement answers that something
stored is damaged or missing, unless a table was declared whose header cannot be read. -/
theorem fields_well_typed {d : Disk} {root : Path} (empty : d.EmptyAt root) (sync : Bool)
    (events : List Event) :
    let v := (start root sync d).run events
    (∀ name t, v.openTable name = .ok t → t.WellTyped v.disk) ∧
      (∃ names, (v.disk.perform v.session.tableNames).1 = .ok names ∧ ∀ name ∈ names,
        (∃ t, v.openTable name = .ok t) ∨ Event.DeclareOversized events name) ∧
      ∀ s e, (v.execute s).1 = .error e → e.reportsDamage = true →
        ∃ name damage, e = .unreadableHeader name damage ∧
          Event.DeclareOversized (events ++ [.statement s]) name := by
  obtain ⟨r, empty⟩ := empty
  intro v
  have agrees : v.Agrees d.tree root r sync _ := (empty.agrees sync).run empty events
  have nothing : Catalog.MadeBy [] ∅ := fun name c known => by simp at known
  have made : Catalog.MadeBy events _ := nothing.run root events
  refine ⟨fun name t opened => ?_, ⟨_, (Agrees.perform_eq
    (agrees.depicts.runs_tableNames empty agrees.atRoot)).1, fun name listed => ?_⟩,
    fun s e failed => made.oversized_of_execute ((agrees.execute_eq empty s).symm.trans failed)⟩
  · obtain ⟨c, found, rfl⟩ := agrees.find_of_openTable empty opened
    have stores := agrees.depicts.stores empty (Catalog.find_eq_ok.1 found).2.1
    exact ⟨c.stored, (Agrees.perform_eq (stores.runs_scan sync)).1, fun s mem =>
      (stores.proper.typed s mem).wellTyped stores.proper.definition.schema⟩
  · obtain ⟨c, known⟩ := Option.isSome_iff_exists.1
      (Std.ExtTreeMap.mem_iff_isSome_getElem?.1 (Std.ExtTreeMap.mem_keys.1 listed))
    have belongs := agrees.depicts.sound name c known
    rcases made.find_cases known (belongs.named ▸ belongs.proper.definition.name) with
      found | ⟨_, -, oversized⟩
    · exact .inl ⟨_, agrees.openTable_eq empty found⟩
    · exact .inr oversized

theorem fields_well_typed_sample :
    let v := (start ⟨"db"⟩ true .prepared).run Event.sample
    ∃ t, v.openTable "points" = .ok t ∧ t.WellTyped v.disk ∧
      (v.disk.perform t.scan).1 = .ok [.ok (1, ⟨["7"]⟩)] := by
  have filled : (((start ⟨"db"⟩ true .prepared).run Event.sample).openTable
      "points").toOption.any (fun t =>
        (((start ⟨"db"⟩ true .prepared).run Event.sample).disk.perform t.scan).1 =
          .ok [.ok (1, ⟨["7"]⟩)]) = true := by
    decide +kernel
  obtain ⟨t, opened, scanned⟩ := Result.exists_of_any filled
  obtain ⟨typed, -⟩ := fields_well_typed Disk.emptyAt_prepared true Event.sample
  exact ⟨t, opened, typed "points" t opened, of_decide_eq_true scanned⟩

end Service

end FlatDB
