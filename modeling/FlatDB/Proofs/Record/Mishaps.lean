/-
# Records under mishaps

What the operations on a record file do when calls fail on the way.  The data file
always holds some records: those it should, or those it held, and never anything
between.  The counter is advanced before a record is written, so an addition that
fails may leave an id unused.

Three things are asked of the file system.  What is reported not to have been
moved has not been moved; a record that could not be added at the end of the data
file is not there in part; and a file that is there is not reported to be missing.
-/

import FlatDB.Proofs.Disk.Sites
import FlatDB.Proofs.Record.RoundTrip
import FlatDB.Record.File

namespace FlatDB

open FileTree

/-- A tolerance that leaves no file half written and does not deny that a file is there. -/
structure Tolerance.Contained (F : Tolerance) : Prop where
  moves : NoLateMoves F
  appends : ∀ path content sync m, F (.append path content sync) m →
    ∀ bytes, m.extent ≠ .partly bytes
  reads : ∀ path m, F (.read path) m → m.fault ≠ .notFound

/-- The places of a data file and of a counter, and of what may be prepared beside them. -/
structure Lodging where
  data : Place
  besideData : Place
  counter : Place
  besideCounter : Place
  apart : Apart data counter
  apart_beside : Apart data besideCounter
  beside_apart : Apart besideData counter
  beside_apart_beside : Apart besideData besideCounter

namespace Lodging

/-- Two trees that differ at most in the files of a store and in what is beside them. -/
structure Stirs (l : Lodging) (t t' : FileTree) : Prop where
  keeps : t.Keeps t'
  elsewhere : ∀ p, p ≠ l.data → p ≠ l.besideData → p ≠ l.counter → p ≠ l.besideCounter →
    t'.at? p = t.at? p

/-- The counter in the file of a tree. -/
def Counts (l : Lodging) (id : RecordId) (t : FileTree) : Prop :=
  t.at? l.counter = some (.file (Utf8.encode (Numeral.ofUInt64 id)))

variable {l : Lodging} {t t' t'' : FileTree}

theorem Stirs.refl (l : Lodging) (t : FileTree) : l.Stirs t t :=
  ⟨.refl t, fun _ _ _ _ _ => rfl⟩

theorem Stirs.trans (h : l.Stirs t t') (h' : l.Stirs t' t'') : l.Stirs t t'' :=
  ⟨h.keeps.trans h'.keeps, fun p a b c e => (h'.elsewhere p a b c e).trans (h.elsewhere p a b c e)⟩

/-- Changing the data file leaves the counter alone. -/
theorem same_counter (stirs : FileTree.Stirs l.data l.besideData t t') :
    t'.at? l.counter = t.at? l.counter :=
  stirs.elsewhere l.counter l.apart.symm.ne l.beside_apart.symm.ne

/-- A place apart from all those of a store. -/
structure Away (l : Lodging) (p : Place) : Prop where
  data : Apart l.data p
  besideData : Apart l.besideData p
  counter : Apart l.counter p
  besideCounter : Apart l.besideCounter p

theorem Stirs.away (h : l.Stirs t t') {p : Place} (away : l.Away p) : t'.at? p = t.at? p :=
  h.elsewhere p away.data.ne.symm away.besideData.ne.symm away.counter.ne.symm
    away.besideCounter.ne.symm

/-- A file counts to one number. -/
theorem Counts.unique {id id' : RecordId} (h : l.Counts id t) (h' : l.Counts id' t) : id = id' := by
  have same : Utf8.encode (Numeral.ofUInt64 id) = Utf8.encode (Numeral.ofUInt64 id') :=
    Entry.file.inj (Option.some.inj (h.symm.trans h'))
  have numerals := congrArg Utf8.decode? same
  rw [Utf8.decode?_encode, Utf8.decode?_encode] at numerals
  have ids := congrArg Numeral.uint64? (Option.some.inj numerals)
  rwa [Numeral.uint64?_ofUInt64, Numeral.uint64?_ofUInt64, Option.some.injEq] at ids

end Lodging

/-- A site apart from a store is there whatever is done to the store. -/
theorem FileTree.Site.away {l : Lodging} {t t' : FileTree} {path : Path} {target beside : Place}
    (h : t.Site path target beside) (stirs : l.Stirs t t') (away : l.Away target)
    (awayBeside : l.Away beside) : t'.Site path target beside := by
  have childless {p : Place} (away : l.Away p) (childless : t.Childless p) : t'.Childless p :=
    fun inner ne => (stirs.elsewhere _ (away.data.symm.append_ne inner)
      (away.besideData.symm.append_ne inner) (away.counter.symm.append_ne inner)
      (away.besideCounter.symm.append_ne inner)).trans (childless inner ne)
  exact { h with
    place := place_keeps stirs.keeps h.place
    placeStaged := place_keeps stirs.keeps h.placeStaged
    notDirectory := stirs.away away ▸ h.notDirectory
    childless := childless away h.childless
    childlessBeside := fun other =>
      childless awayBeside (h.childlessBeside (stirs.away awayBeside ▸ other)) }

namespace RecordFile

/-- A tree that has the files of a store at certain places, with certain records. -/
structure Holds (s : RecordFile) (l : Lodging) (stored : List Stored) (t : FileTree) : Prop where
  dataSite : t.Site s.data l.data l.besideData
  counterSite : t.Site s.counter l.counter l.besideCounter
  data : t.at? l.data = some (.file (Utf8.encode (Entries.text stored)))
  arity : ∀ r ∈ stored, r.2.arity = s.arity

variable {F : Tolerance} {d : Disk} {t t' : FileTree} {s : RecordFile} {l : Lodging}
  {stored stored' : List Stored}

/-- A scan yields the entries of what is read, and changes nothing. -/
theorem perform_scan_eq {source : Source} (read : (d.step (.read s.data)).1 = .ok source) :
    d.perform s.scan = (.ok (Entries.ofSource s.table s.arity source), d) := by
  rw [scan, Disk.perform_bind, Disk.perform_read read]
  rfl

theorem perform_scan_of_read {source : Source} (read : (d.step (.read s.data)).1 = .ok source) :
    (d.perform s.scan).1 = .ok (Entries.ofSource s.table s.arity source) := by
  rw [perform_scan_eq read]

namespace Holds

/-- Other records in the data file. -/
theorem rewrite (h : s.Holds l stored t) (stirs : Stirs l.data l.besideData t t')
    (data : t'.at? l.data = some (.file (Utf8.encode (Entries.text stored'))))
    (arity : ∀ r ∈ stored', r.2.arity = s.arity) : s.Holds l stored' t' :=
  ⟨h.dataSite.stirs stirs, h.counterSite.apart_stirs stirs (h.dataSite.keeps stirs) l.apart.symm
    l.beside_apart.symm l.apart_beside.symm l.beside_apart_beside.symm, data, arity⟩

/-- Another counter. -/
theorem count (h : s.Holds l stored t) (stirs : Stirs l.counter l.besideCounter t t')
    (lastId : RecordId) : { s with lastId }.Holds l stored t' :=
  ⟨h.dataSite.apart_stirs stirs (h.counterSite.keeps stirs) l.apart l.apart_beside l.beside_apart
    l.beside_apart_beside, h.counterSite.stirs stirs,
    (stirs.elsewhere l.data l.apart.ne l.apart_beside.ne).trans h.data, h.arity⟩

theorem stirs_data (h : s.Holds l stored t) (stirs : Stirs l.data l.besideData t t') :
    l.Stirs t t' :=
  ⟨h.dataSite.keeps stirs, fun p hp hq _ _ => stirs.elsewhere p hp hq⟩

theorem stirs_counter (h : s.Holds l stored t) (stirs : Stirs l.counter l.besideCounter t t') :
    l.Stirs t t' :=
  ⟨h.counterSite.keeps stirs, fun p _ _ hp hq => stirs.elsewhere p hp hq⟩

/-- A change of another file. -/
theorem away {target beside : Place} (h : s.Holds l stored t) (stirs : Stirs target beside t t')
    (keeps : t.Keeps t') (away : l.Away target) (awayBeside : l.Away beside) :
    s.Holds l stored t' :=
  ⟨h.dataSite.apart_stirs stirs keeps away.data awayBeside.data away.besideData
      awayBeside.besideData,
    h.counterSite.apart_stirs stirs keeps away.counter awayBeside.counter away.besideCounter
      awayBeside.besideCounter,
    (stirs.elsewhere l.data away.data.ne awayBeside.data.ne).trans h.data, h.arity⟩

/-! ## Reading -/

/-- Opening the data file. -/
theorem step_read (h : s.Holds l stored d.tree) :
    (d.step (.read s.data)).1 = .ok (.content (Utf8.encode (Entries.text stored))) := by
  rw [h.dataSite.step_read, h.data]

/-- When all goes well a scan finds the records. -/
theorem perform_scan (h : s.Holds l stored d.tree) :
    (d.perform s.scan).1 = .ok (stored.map .ok) := by
  rw [perform_scan_of_read h.step_read, Entries.ofSource_text h.arity]

/-- A scan finds the records, unless it fails. -/
theorem ensures_scan (h : s.Holds l stored d.tree) :
    s.scan.Ensures F (fun x d' => d' = d ∧ ∀ entries, x = .ok entries → entries = stored.map .ok)
      d := by
  rw [scan, Action.read]
  refine .bind (Q := fun x d' => d' = d ∧ ∀ source, x = .ok source →
    source = .content (Utf8.encode (Entries.text stored))) (.call_read ?_ fun m _ => ?_) ?_ ?_
  · rw [h.step_read]
    exact .pure ⟨rfl, fun source same => (Except.ok.inj same).symm⟩
  · exact .throw ⟨rfl, fun _ impossible => by cases impossible⟩
  · rintro source _ ⟨rfl, read⟩
    rw [read source rfl]
    exact .pure ⟨rfl, fun entries same => (Except.ok.inj same).symm.trans
      (Entries.ofSource_text h.arity)⟩
  · rintro e _ ⟨rfl, -⟩
    exact ⟨rfl, fun _ impossible => by cases impossible⟩

theorem ensures_records (h : s.Holds l stored d.tree) :
    s.records.Ensures F (fun x d' => d' = d ∧ ∀ found, x = .ok found → found = stored) d := by
  rw [records]
  refine .bind h.ensures_scan ?_ ?_
  · rintro entries _ ⟨rfl, read⟩
    rw [read entries rfl, Entries.all_map_ok]
    exact .ofResult ⟨rfl, fun found same => (Except.ok.inj same).symm⟩
  · rintro e _ ⟨rfl, -⟩
    exact ⟨rfl, nofun⟩

theorem ensures_size (h : s.Holds l stored d.tree) : s.size.Ensures F (fun _ d' => d' = d) d := by
  rw [size, Action.read]
  refine .bind (Q := fun _ d' => d' = d) (.call_read ?_ fun m _ => .throw rfl) ?_ fun _ _ same => same
  · rw [h.step_read]
    exact .pure rfl
  · rintro source _ rfl
    exact .ofResult rfl

/-! ## The counter -/

/-- The last id is told by the counter, or if there is none by the records. -/
theorem ensures_loadCounter (contained : F.Contained) (h : s.Holds l stored d.tree)
    (counter : d.tree.at? l.counter = none ∨ ∃ id, l.Counts id d.tree) :
    s.loadCounter.Ensures F (fun x d' => d' = d ∧ ∀ id, x = .ok id →
      d.tree.at? l.counter = none ∧ id = Entries.greatestId stored ∨ l.Counts id d.tree) d := by
  rw [loadCounter]
  refine .call_read ?_ fun m befalls => ?_
  · rw [h.counterSite.step_read]
    rcases counter with none | ⟨id, counts⟩
    · rw [none]
      refine .bind h.ensures_records ?_ ?_
      · rintro found _ ⟨rfl, read⟩
        rw [read found rfl]
        exact .pure ⟨rfl, fun id same => .inl ⟨rfl, (Except.ok.inj same).symm⟩⟩
      · rintro e _ ⟨rfl, -⟩
        exact ⟨rfl, nofun⟩
    · have content : d.tree.at? l.counter = some (.file (Utf8.encode (Numeral.ofUInt64 id))) :=
        counts
      rw [content]
      dsimp only
      rw [Source.text_encode]
      refine Action.Ensures.bind
        (Q := fun x d' => d' = d ∧ x = .ok (Numeral.ofUInt64 id)) ⟨rfl, rfl⟩ ?_ ?_
      · rintro _ _ ⟨rfl, ⟨⟩⟩
        rw [counterOfText_ofUInt64]
        exact .ofResult ⟨rfl, fun id' same => .inr (Except.ok.inj same ▸ counts)⟩
      · rintro e _ ⟨rfl, impossible⟩
        cases impossible
  · have present := contained.reads s.counter m befalls
    split
    · next impossible => cases impossible
    · next missing => exact absurd (Except.error.inj missing) present
    · exact .throw ⟨rfl, nofun⟩

/-- Opening a store yields it as it was, up to its counter. -/
theorem ensures_load (contained : F.Contained) (h : s.Holds l stored d.tree)
    (counter : d.tree.at? l.counter = none ∨ ∃ id, l.Counts id d.tree) :
    (load s.table s.data s.counter s.arity s.sync).Ensures F
      (fun x d' => d' = d ∧ ∀ s', x = .ok s' → ∃ id, s' = { s with lastId := id } ∧
        (d.tree.at? l.counter = none ∧ id = Entries.greatestId stored ∨ l.Counts id d.tree)) d := by
  rw [load]
  refine .bind (Q := fun _ d' => d' = d) (.kind fun _ => rfl) ?_ ?_
  · rintro kind d' rfl
    have reset : { s with lastId := 0 }.Holds l stored d'.tree :=
      ⟨h.dataSite, h.counterSite, h.data, h.arity⟩
    split
    · exact .throw ⟨rfl, nofun⟩
    · refine .bind (reset.ensures_loadCounter contained counter) ?_ ?_
      · rintro id _ ⟨rfl, told⟩
        exact .pure ⟨rfl, fun s' same => ⟨id, (Except.ok.inj same).symm, told id rfl⟩⟩
      · rintro e _ ⟨rfl, -⟩
        exact ⟨rfl, nofun⟩
  · rintro e _ rfl
    exact ⟨rfl, nofun⟩

/-! ## Writing -/

/-- Either all records are replaced or none. -/
theorem ensures_replaceAll (contained : F.Contained) (h : s.Holds l stored d.tree)
    (arity : ∀ r ∈ stored', r.2.arity = s.arity) :
    (s.replaceAll stored').Ensures F
      (fun x d' => Stirs l.data l.besideData d.tree d'.tree ∧
        match x with
        | .ok _ => s.Holds l stored' d'.tree
        | .error _ => s.Holds l stored d'.tree) d := by
  refine (h.dataSite.ensures_replace contained.moves _ s.sync).mono fun x d' ⟨stirs, there⟩ => ?_
  cases x with
  | ok _ => exact ⟨stirs, h.rewrite stirs there arity⟩
  | error e => exact ⟨stirs, h.rewrite stirs (there.trans h.data) h.arity⟩

/-- An update that fails changes no record. -/
theorem ensures_updateWhere (contained : F.Contained) (h : s.Holds l stored d.tree)
    (accepts : Record → Bool) (position : Nat) (value : String) :
    (s.updateWhere accepts position value).Ensures F
      (fun x d' => Stirs l.data l.besideData d.tree d'.tree ∧
        match x with
        | .ok changes => changes = stored.filterMap (Entries.change? accepts position value) ∧
            (s.Holds l (stored.map (Entries.assign accepts position value)) d'.tree ∨
              (changes.any fun c => c.old ≠ c.new) = false ∧ s.Holds l stored d'.tree)
        | .error _ => s.Holds l stored d'.tree) d := by
  rw [updateWhere]
  refine .bind h.ensures_records ?_ ?_
  · rintro found _ ⟨rfl, read⟩
    obtain rfl := read found rfl
    dsimp only
    split
    · refine .bind (h.ensures_replaceAll contained ?_) ?_ ?_
      · intro r mem
        obtain ⟨r', mem', rfl⟩ := List.mem_map.1 mem
        rw [← h.arity r' mem']
        unfold Entries.assign
        split <;> simp
      · exact fun _ d' ⟨stirs, holds⟩ => .pure ⟨stirs, rfl, .inl holds⟩
      · exact fun e d' ⟨stirs, holds⟩ => ⟨stirs, holds⟩
    · next unchanged =>
      exact .pure ⟨h.dataSite.refl, rfl, .inr ⟨Bool.eq_false_iff.2 unchanged, h⟩⟩
  · rintro e _ ⟨rfl, -⟩
    exact ⟨h.dataSite.refl, h⟩

/-- A deletion that fails removes no record. -/
theorem ensures_deleteWhere (contained : F.Contained) (h : s.Holds l stored d.tree)
    (accepts : Record → Bool) :
    (s.deleteWhere accepts).Ensures F
      (fun x d' => Stirs l.data l.besideData d.tree d'.tree ∧
        match x with
        | .ok removed => removed = stored.filter (fun r => accepts r.2) ∧
            s.Holds l (stored.filter fun r => !accepts r.2) d'.tree
        | .error _ => s.Holds l stored d'.tree) d := by
  rw [deleteWhere]
  refine .bind h.ensures_records ?_ ?_
  · rintro found _ ⟨rfl, read⟩
    obtain rfl := read found rfl
    dsimp only
    split
    · refine .bind (h.ensures_replaceAll contained fun r mem => h.arity r (List.mem_filter.1 mem).1)
        ?_ ?_
      · exact fun _ d' ⟨stirs, holds⟩ => .pure ⟨stirs, rfl, holds⟩
      · exact fun e d' ⟨stirs, holds⟩ => ⟨stirs, holds⟩
    · next none =>
      have all : found.filter (fun r => !accepts r.2) = found := by
        rw [List.filter_eq_self]
        simpa using none
      exact .pure ⟨h.dataSite.refl, rfl, all.symm ▸ h⟩
  · rintro e _ ⟨rfl, -⟩
    exact ⟨h.dataSite.refl, h⟩

/-- All records are removed at once.  Where that fails, it may have been done. -/
theorem ensures_truncate (h : s.Holds l stored d.tree) :
    s.truncate.Ensures F
      (fun x d' => Stirs l.data l.besideData d.tree d'.tree ∧
        match x with
        | .ok _ => s.Holds l [] d'.tree
        | .error _ => s.Holds l stored d'.tree ∨
            (∃ m, F (.truncate s.data s.sync) m ∧ m.extent = .everything) ∧
              s.Holds l [] d'.tree) d := by
  refine (h.dataSite.ensures_truncate h.data s.sync).mono fun x d' ⟨stirs, there⟩ => ?_
  have emptied (empty : d'.tree.at? l.data = some (.file [])) : s.Holds l [] d'.tree :=
    h.rewrite stirs empty (by simp)
  cases x with
  | ok _ => exact ⟨stirs, emptied there⟩
  | error e =>
      exact ⟨stirs, there.imp (h.rewrite stirs · h.arity) fun ⟨late, empty⟩ =>
        ⟨late, emptied empty⟩⟩

/-- What an addition comes to, when the counter was advanced to an id or not at all. -/
theorem ensures_append (contained : F.Contained) (h : s.Holds l stored d.tree) {record : Record}
    (arity : record.arity = s.arity) :
    (append record).Ensures F
      (fun x s' d' => l.Stirs d.tree d'.tree ∧
        ((∃ e, x = .error e ∧ s' = s ∧ s.Holds l stored d'.tree ∧
          d'.tree.at? l.counter = d.tree.at? l.counter) ∨
        s.lastId.toNat + 1 ≠ UInt64.size ∧ s' = { s with lastId := s.lastId + 1 } ∧
          l.Counts s'.lastId d'.tree ∧
          ((x = .ok s'.lastId ∧ s'.Holds l (stored ++ [(s'.lastId, record)]) d'.tree) ∨
          ∃ e, x = .error e ∧ (s'.Holds l stored d'.tree ∨
            (∃ path content sync m, F (.append path content sync) m ∧ m.extent = .everything) ∧
              s'.Holds l (stored ++ [(s'.lastId, record)]) d'.tree)))) s d := by
  rw [append]
  refine .bind_get ?_
  dsimp only
  by_cases exhausted : s.lastId.toNat + 1 = UInt64.size
  · rw [if_pos exhausted]
    exact .throw ⟨.refl l d.tree, .inl ⟨_, rfl, rfl, h, rfl⟩⟩
  rw [if_neg exhausted]
  refine .bind (Q := fun x s' d' => s' = s ∧ Stirs l.counter l.besideCounter d.tree d'.tree ∧
    match x with
    | .ok _ => l.Counts (s.lastId + 1) d'.tree
    | .error _ => d'.tree.at? l.counter = d.tree.at? l.counter) (.ofAction ?_) ?_ ?_
  · refine (h.counterSite.ensures_replace contained.moves _ s.sync).mono fun x d' counted => ?_
    cases x <;> exact ⟨rfl, counted⟩
  · rintro _ s' d' ⟨rfl, stirs, counted⟩
    have counts := h.count stirs (s'.lastId + 1)
    -- The line of the new record follows those that are there.
    have added (d'' : Disk) (written : Stirs l.data l.besideData d'.tree d''.tree)
        (data : d''.tree.at? l.data = some (.file (Utf8.encode (Entries.text stored) ++
          Utf8.encode (record.line (s'.lastId + 1))))) :
        { s' with lastId := s'.lastId + 1 }.Holds l (stored ++ [(s'.lastId + 1, record)])
          d''.tree := by
      refine counts.rewrite written ?_ ?_
      · rw [data, Entries.text_append, Entries.text_singleton, Utf8.encode_append]
      · intro r mem
        rcases List.mem_append.1 mem with mem | mem
        · exact h.arity r mem
        · rw [List.mem_singleton.1 mem]
          exact arity
    refine .bind_set (.bind (Q := fun x s'' d'' => s'' = { s' with lastId := s'.lastId + 1 } ∧
      Stirs l.data l.besideData d'.tree d''.tree ∧
      match x with
      | .ok _ => s''.Holds l (stored ++ [(s'.lastId + 1, record)]) d''.tree
      | .error _ => s''.Holds l stored d''.tree ∨
          (∃ path content sync m, F (.append path content sync) m ∧ m.extent = .everything) ∧
            s''.Holds l (stored ++ [(s'.lastId + 1, record)]) d''.tree) (.ofAction ?_) ?_ ?_)
    · refine (counts.dataSite.ensures_append counts.data _ s'.sync
        (contained.appends _ _ _)).mono fun x d'' ⟨written, there⟩ => ⟨rfl, written, ?_⟩
      cases x with
      | ok _ => exact added d'' written there
      | error e =>
          exact there.imp (counts.rewrite written · h.arity) fun ⟨⟨m, late⟩, data⟩ =>
            ⟨⟨_, _, _, m, late⟩, added d'' written data⟩
    · rintro _ _ d'' ⟨rfl, written, holds⟩
      exact .pure ⟨(h.stirs_counter stirs).trans (counts.stirs_data written),
        .inr ⟨exhausted, rfl, (Lodging.same_counter written).trans counted, .inl ⟨rfl, holds⟩⟩⟩
    · rintro e _ d'' ⟨rfl, written, holds⟩
      exact ⟨(h.stirs_counter stirs).trans (counts.stirs_data written),
        .inr ⟨exhausted, rfl, (Lodging.same_counter written).trans counted, .inr ⟨e, rfl, holds⟩⟩⟩
  · rintro e s' d' ⟨rfl, stirs, same⟩
    exact ⟨h.stirs_counter stirs, .inl ⟨e, rfl, rfl, h.count stirs s'.lastId, same⟩⟩

end Holds

/-- A store is made without records and with a counter, or making it fails. -/
theorem ensures_create (contained : F.Contained) {data counter : Path}
    (dataSite : d.tree.Site data l.data l.besideData)
    (counterSite : d.tree.Site counter l.counter l.besideCounter) (table : String) (arity : Nat)
    (sync : Bool) :
    (create table data counter arity sync).Ensures F
      (fun x d' => l.Stirs d.tree d'.tree ∧ ∀ s, x = .ok s →
        s = ⟨table, data, counter, arity, 0, sync⟩ ∧ s.Holds l [] d'.tree ∧ l.Counts 0 d'.tree)
      d := by
  have away {t t' : FileTree} (keeps : t.Keeps t') (stirs : Stirs l.data l.besideData t t') :
      l.Stirs t t' :=
    ⟨keeps, fun p hp hq _ _ => stirs.elsewhere p hp hq⟩
  rw [create]
  refine .bind dataSite.ensures_create_target ?_ ?_
  · rintro handle d' ⟨stirs, emptied⟩
    have keeps := dataSite.keeps stirs
    have made : (⟨table, data, counter, arity, 0, sync⟩ : RecordFile).Holds l [] d'.tree :=
      ⟨dataSite.stirs stirs, counterSite.apart_stirs stirs keeps l.apart.symm l.beside_apart.symm
        l.apart_beside.symm l.beside_apart_beside.symm, emptied handle rfl, by simp⟩
    refine .bind (made.counterSite.ensures_replace contained.moves _ sync) ?_ ?_
    · rintro _ d'' ⟨stirs', counted⟩
      refine .pure ⟨(away keeps stirs).trans (made.stirs_counter stirs'), fun s same => ?_⟩
      obtain rfl := Except.ok.inj same
      exact ⟨rfl, made.count stirs' 0, counted⟩
    · rintro e d'' ⟨stirs', -⟩
      exact ⟨(away keeps stirs).trans (made.stirs_counter stirs'), nofun⟩
  · exact fun e d' ⟨stirs, _⟩ => ⟨away (dataSite.keeps stirs) stirs, nofun⟩

end RecordFile

end FlatDB
