/-
# Ids are handed out once

A store is followed from its making through everything that is done with it: records
are added, changed and removed, the store is opened anew, its counter gets lost, and
any of this may fail on the way.  At all times the records have ascending ids, the
last of them at most the store's last id, which is what the counter says if there is
one.  Each id that is handed out is greater than those before it.

The step that may break this is opening a store whose counter is lost, since the ids
of removed records are then forgotten.  From there on, as long as it does not happen
again, ids ascend and are greater than those that were stored at that time.
-/

import FlatDB.Proofs.Record.Ids
import FlatDB.Proofs.Record.Mishaps
import Mathlib.Data.List.Basic

namespace FlatDB

open FileTree RecordFile Entries

/-- A mishap that leaves no file half written and does not deny that a file is there:
a file that is not reported to have been moved is not moved, and what is written at the
end of a file is written as a whole or not at all. -/
def Mishap.Contained : Tolerance
  | .read _, m => m.fault ≠ .notFound
  | .append _ _ _, m => ∀ bytes, m.extent ≠ .partly bytes
  | .rename _ _, m => m.extent ≠ .everything
  | _, _ => True

theorem Mishap.contained : Tolerance.Contained Mishap.Contained :=
  ⟨fun _ _ _ h => h, fun _ _ _ _ h => h, fun _ _ h => h⟩

/-! ## A store in use -/

/-- A store in use. -/
structure Custody where
  file : RecordFile
  disk : Disk
  /-- The ids of the additions that succeeded, in order. -/
  handedOut : List RecordId

namespace Custody

/-- What may be done with a store, or happen to it. -/
inductive Operation where
  | append (record : Record)
  | updateWhere (accepts : Record → Bool) (position : Nat) (value : String)
  | deleteWhere (accepts : Record → Bool)
  | truncate
  /-- The store is opened anew. -/
  | reopen
  /-- The counter is removed from outside. -/
  | loseCounter

/-- An operation, with the outlooks under which its calls are made. -/
structure Event where
  operation : Operation
  outlooks : List Outlook

/-- Whether an event is one to be reckoned with in a store for records of some arity. -/
structure Event.Fits (arity : Nat) (e : Event) : Prop where
  within : ∀ o ∈ e.outlooks, o.Within Mishap.Contained
  arity : ∀ record, e.operation = .append record → record.arity = arity

/-- One operation on the store in use.  When it cannot be opened anew, it goes on as it was. -/
def step (c : Custody) (e : Event) : Custody :=
  match e.operation with
  | .append record =>
    match c.disk.updateUnder e.outlooks c.file (RecordFile.append record) with
    | (.ok id, file, disk) => ⟨file, disk, c.handedOut ++ [id]⟩
    | (.error _, file, disk) => ⟨file, disk, c.handedOut⟩
  | .updateWhere accepts position value =>
    { c with disk := (c.disk.performUnder e.outlooks (c.file.updateWhere accepts position value)).2 }
  | .deleteWhere accepts =>
    { c with disk := (c.disk.performUnder e.outlooks (c.file.deleteWhere accepts)).2 }
  | .truncate => { c with disk := (c.disk.performUnder e.outlooks c.file.truncate).2 }
  | .reopen =>
    match c.disk.performUnder e.outlooks
        (load c.file.table c.file.data c.file.counter c.file.arity c.file.sync) with
    | (.ok file, disk) => ⟨file, disk, c.handedOut⟩
    | (.error _, disk) => { c with disk }
  | .loseCounter =>
    { c with disk := (c.disk.performUnder e.outlooks (Action.remove c.file.counter)).2 }

/-- The store after a run of events. -/
def run (c : Custody) (events : List Event) : Custody :=
  events.foldl step c

/-- Whether the data file has these records. -/
def Reads (c : Custody) (stored : List Stored) : Prop :=
  (c.disk.perform c.file.scan).1 = .ok (stored.map .ok)

/-- What the file of the counter has. -/
def counter (c : Custody) : Except Fault Source :=
  (c.disk.step (.read c.file.counter)).1

/-- Whether the counter is there each time the store is opened anew. -/
def Steady (c : Custody) : List Event → Prop
  | [] => True
  | e :: events =>
    (e.operation = .reopen → c.counter ≠ .error .notFound) ∧ (c.step e).Steady events

/-! ## What is preserved -/

/-- A store whose files are as they should be. -/
structure Kept (l : Lodging) (c : Custody) (stored : List Stored) : Prop where
  holds : c.file.Holds l stored c.disk.tree
  issued : Issued stored c.file.lastId
  /-- The counter is lost, or it is the last id. -/
  counted : c.disk.tree.at? l.counter = none ∨ l.Counts c.file.lastId c.disk.tree

/-- Ids are handed out, each greater than the last one before it. -/
structure Advances (c c' : Custody) (ids : List RecordId) : Prop where
  handedOut : c'.handedOut = c.handedOut ++ ids
  ascending : ids.Pairwise (· < ·)
  above : ∀ id ∈ ids, c.file.lastId < id
  below : ∀ id ∈ ids, id ≤ c'.file.lastId
  lastId : c.file.lastId ≤ c'.file.lastId

/-- What an event does to a store whose files are as they should be. -/
structure Passes (l : Lodging) (c : Custody) (e : Event) (c' : Custody) : Prop where
  kept : ∃ stored, c'.Kept l stored
  arity : c'.file.arity = c.file.arity
  advances : (e.operation = .reopen → c.counter ≠ .error .notFound) → ∃ ids, c.Advances c' ids
  counter : e.operation ≠ .loseCounter → c.counter ≠ .error .notFound →
    c'.counter ≠ .error .notFound

variable {l : Lodging} {c c' c'' : Custody} {e : Event} {stored : List Stored}

/-- No id is handed out. -/
theorem advances_of_le (handedOut : c'.handedOut = c.handedOut)
    (lastId : c.file.lastId ≤ c'.file.lastId) : c.Advances c' [] :=
  ⟨by rw [handedOut, List.append_nil], by simp, by simp, by simp, lastId⟩

/-- Ids go on ascending. -/
theorem Advances.trans {ids ids' : List RecordId} (h : c.Advances c' ids)
    (h' : c'.Advances c'' ids') : c.Advances c'' (ids ++ ids') := by
  refine ⟨?_, ?_, ?_, ?_, UInt64.le_trans h.lastId h'.lastId⟩
  · rw [h'.handedOut, h.handedOut, List.append_assoc]
  · rw [List.pairwise_append]
    exact ⟨h.ascending, h'.ascending, fun id mem id' mem' =>
      UInt64.lt_of_le_of_lt (h.below id mem) (h'.above id' mem')⟩
  · rw [List.forall_mem_append]
    exact ⟨h.above, fun id mem => UInt64.lt_of_le_of_lt h.lastId (h'.above id mem)⟩
  · rw [List.forall_mem_append]
    exact ⟨fun id mem => UInt64.le_trans (h.below id mem) h'.lastId, h'.below⟩

namespace Kept

theorem reads (h : c.Kept l stored) : c.Reads stored :=
  h.holds.perform_scan

theorem counter_eq (h : c.Kept l stored) :
    c.counter = .error .notFound ∨
      c.counter = .ok (.content (Utf8.encode (Numeral.ofUInt64 c.file.lastId))) := by
  rw [counter, h.holds.counterSite.step_read]
  rcases h.counted with none | counts
  · rw [none]
    exact .inl rfl
  · rw [Lodging.Counts] at counts
    rw [counts]
    exact .inr rfl

theorem counter_lost_iff (h : c.Kept l stored) :
    c.counter = .error .notFound ↔ c.disk.tree.at? l.counter = none := by
  rw [counter, h.holds.counterSite.step_read]
  rcases h.counted with none | counts
  · simp only [none]
  · rw [Lodging.Counts] at counts
    simp [counts]

/-- A store that is kept at a counter is there. -/
theorem counter_of_counts (h : c.Kept l stored) (counts : l.Counts c.file.lastId c.disk.tree) :
    c.counter ≠ .error .notFound := by
  rw [Ne, h.counter_lost_iff, show c.disk.tree.at? l.counter = _ from counts]
  simp

/-- An operation on the data file. -/
theorem passes {stored' : List Stored} {d' : Disk} (h : c.Kept l stored)
    (holds : c.file.Holds l stored' d'.tree) (issued : Issued stored' c.file.lastId)
    (same : d'.tree.at? l.counter = c.disk.tree.at? l.counter) :
    c.Passes l e { c with disk := d' } := by
  have kept : Kept l { c with disk := d' } stored' :=
    ⟨holds, issued, h.counted.imp same.trans same.trans⟩
  refine ⟨⟨stored', kept⟩, rfl, fun _ => ⟨[], advances_of_le rfl (UInt64.le_refl _)⟩,
    fun _ there => ?_⟩
  rwa [Ne, kept.counter_lost_iff, same, ← h.counter_lost_iff]

/-- An operation that advances the counter, and may hand out the id. -/
theorem passes_next {stored' : List Stored} {d' : Disk} {handedOut : List RecordId}
    (left : c.file.lastId.toNat + 1 ≠ UInt64.size)
    (holds : { c.file with lastId := c.file.lastId + 1 }.Holds l stored' d'.tree)
    (issued : Issued stored' (c.file.lastId + 1)) (counts : l.Counts (c.file.lastId + 1) d'.tree)
    (log : handedOut = c.handedOut ∨ handedOut = c.handedOut ++ [c.file.lastId + 1]) :
    c.Passes l e ⟨{ c.file with lastId := c.file.lastId + 1 }, d', handedOut⟩ := by
  have next : c.file.lastId < c.file.lastId + 1 := RecordId.lt_next left
  have kept : Kept l ⟨{ c.file with lastId := c.file.lastId + 1 }, d', handedOut⟩ stored' :=
    ⟨holds, issued, .inr counts⟩
  refine ⟨⟨stored', kept⟩, rfl, fun _ => ?_, fun _ _ => kept.counter_of_counts counts⟩
  rcases log with same | more
  · exact ⟨[], advances_of_le same (UInt64.le_of_lt next)⟩
  · exact ⟨[c.file.lastId + 1], more, by simp, by simpa using next, by simp, UInt64.le_of_lt next⟩

/-- An addition hands out the next id, or fails. -/
theorem passes_append (h : c.Kept l stored) {outlooks : List Outlook}
    (within : ∀ o ∈ outlooks, o.Within Mishap.Contained) {record : Record}
    (arity : record.arity = c.file.arity) :
    c.Passes l e (c.step ⟨.append record, outlooks⟩) := by
  have ensured := (h.holds.ensures_append Mishap.contained arity).updateUnder within
  unfold step
  dsimp only
  generalize c.disk.updateUnder outlooks c.file (RecordFile.append record) = result at ensured ⊢
  obtain ⟨x, file, disk⟩ := result
  dsimp only at ensured
  obtain ⟨-, ⟨e, rfl, rfl, holds, same⟩ | ⟨left, rfl, counts, outcome⟩⟩ := ensured
  · exact h.passes holds h.issued same
  have skipped : Issued stored (c.file.lastId + 1) :=
    h.issued.mono (UInt64.le_of_lt (RecordId.lt_next left))
  obtain ⟨rfl, holds⟩ | ⟨e, rfl, holds | ⟨-, holds⟩⟩ := outcome
  · exact passes_next left holds (h.issued.concat left record) counts (.inr rfl)
  · exact passes_next left holds skipped counts (.inl rfl)
  · exact passes_next left holds (h.issued.concat left record) counts (.inl rfl)

theorem passes_updateWhere (h : c.Kept l stored) {outlooks : List Outlook}
    (within : ∀ o ∈ outlooks, o.Within Mishap.Contained) (accepts : Record → Bool) (position : Nat)
    (value : String) : c.Passes l e (c.step ⟨.updateWhere accepts position value, outlooks⟩) := by
  have ensured := (h.holds.ensures_updateWhere Mishap.contained accepts position
    value).performUnder within
  unfold step
  dsimp only
  generalize c.disk.performUnder outlooks (c.file.updateWhere accepts position value) = result
    at ensured ⊢
  obtain ⟨x | changes, disk⟩ := result
  · exact h.passes ensured.2 h.issued (Lodging.same_counter ensured.1)
  · obtain ⟨stirs, -, holds | ⟨-, holds⟩⟩ := ensured
    · exact h.passes holds (h.issued.assign accepts position value) (Lodging.same_counter stirs)
    · exact h.passes holds h.issued (Lodging.same_counter stirs)

theorem passes_deleteWhere (h : c.Kept l stored) {outlooks : List Outlook}
    (within : ∀ o ∈ outlooks, o.Within Mishap.Contained) (accepts : Record → Bool) :
    c.Passes l e (c.step ⟨.deleteWhere accepts, outlooks⟩) := by
  have ensured := (h.holds.ensures_deleteWhere Mishap.contained accepts).performUnder within
  unfold step
  dsimp only
  generalize c.disk.performUnder outlooks (c.file.deleteWhere accepts) = result at ensured ⊢
  obtain ⟨x | removed, disk⟩ := result
  · exact h.passes ensured.2 h.issued (Lodging.same_counter ensured.1)
  · exact h.passes ensured.2.2 (h.issued.filter _) (Lodging.same_counter ensured.1)

theorem passes_truncate (h : c.Kept l stored) {outlooks : List Outlook}
    (within : ∀ o ∈ outlooks, o.Within Mishap.Contained) :
    c.Passes l e (c.step ⟨.truncate, outlooks⟩) := by
  have ensured := h.holds.ensures_truncate.performUnder within
  unfold step
  dsimp only
  generalize c.disk.performUnder outlooks c.file.truncate = result at ensured ⊢
  obtain ⟨x | _, disk⟩ := result
  · obtain ⟨stirs, holds | ⟨-, holds⟩⟩ := ensured
    · exact h.passes holds h.issued (Lodging.same_counter stirs)
    · exact h.passes holds (.nil _) (Lodging.same_counter stirs)
  · exact h.passes ensured.2 (.nil _) (Lodging.same_counter ensured.1)

/-- Opening the store anew takes its last id from the counter, or from the records. -/
theorem passes_reopen (h : c.Kept l stored) {outlooks : List Outlook}
    (within : ∀ o ∈ outlooks, o.Within Mishap.Contained) :
    c.Passes l ⟨.reopen, outlooks⟩ (c.step ⟨.reopen, outlooks⟩) := by
  have ensured := (h.holds.ensures_load Mishap.contained
    (h.counted.imp_right fun counts => ⟨_, counts⟩)).performUnder within
  unfold step
  dsimp only
  generalize c.disk.performUnder outlooks (load c.file.table c.file.data c.file.counter
    c.file.arity c.file.sync) = result at ensured ⊢
  obtain ⟨x | file, disk⟩ := result
  · obtain ⟨rfl, -⟩ := ensured
    exact h.passes h.holds h.issued rfl
  · obtain ⟨rfl, opened⟩ := ensured
    obtain ⟨id, rfl, told⟩ := opened file rfl
    have holds : { c.file with lastId := id }.Holds l stored c.disk.tree :=
      ⟨h.holds.dataSite, h.holds.counterSite, h.holds.data, h.holds.arity⟩
    rcases told with ⟨lost, rfl⟩ | counts
    · have missing := h.counter_lost_iff.2 lost
      exact ⟨⟨stored, holds, h.issued.greatest, .inl lost⟩, rfl,
        fun steady => absurd missing (steady rfl), fun _ there => absurd missing there⟩
    · obtain rfl : id = c.file.lastId := by
        rcases h.counted with lost | counts'
        · rw [Lodging.Counts, lost] at counts
          cases counts
        · exact counts.unique counts'
      exact h.passes h.holds h.issued rfl

theorem passes_loseCounter (h : c.Kept l stored) {outlooks : List Outlook}
    (within : ∀ o ∈ outlooks, o.Within Mishap.Contained) :
    c.Passes l ⟨.loseCounter, outlooks⟩ (c.step ⟨.loseCounter, outlooks⟩) := by
  have ensured := h.holds.counterSite.ensures_remove.performUnder within
  unfold step
  dsimp only
  generalize c.disk.performUnder outlooks (Action.remove c.file.counter) = result at ensured ⊢
  obtain ⟨x, disk⟩ := result
  obtain ⟨stirs, left⟩ := ensured
  have kept : Kept l { c with disk } stored := by
    refine ⟨h.holds.count stirs c.file.lastId, h.issued, ?_⟩
    rcases left with none | ⟨-, same⟩
    · exact .inl none
    · exact h.counted.imp same.trans same.trans
  exact ⟨⟨stored, kept⟩, rfl, fun _ => ⟨[], advances_of_le rfl (UInt64.le_refl _)⟩,
    fun other => absurd rfl other⟩

/-- Whatever is done, the files stay as they should be. -/
theorem step (h : c.Kept l stored) (fits : e.Fits c.file.arity) : c.Passes l e (c.step e) := by
  obtain ⟨operation, outlooks⟩ := e
  cases operation with
  | append record => exact h.passes_append fits.within (fits.arity record rfl)
  | updateWhere accepts position value =>
      exact h.passes_updateWhere fits.within accepts position value
  | deleteWhere accepts => exact h.passes_deleteWhere fits.within accepts
  | truncate => exact h.passes_truncate fits.within
  | reopen => exact h.passes_reopen fits.within
  | loseCounter => exact h.passes_loseCounter fits.within

end Kept

/-! ## Runs -/

variable {events : List Event}

/-- What fits a store still fits it later. -/
theorem Passes.fits (h : c.Passes l e c') (fits : ∀ e' ∈ e :: events, e'.Fits c.file.arity) :
    ∀ e' ∈ events, e'.Fits c'.file.arity :=
  fun e' mem => h.arity.symm ▸ fits e' (List.mem_cons_of_mem e mem)

/-- In every run the files stay as they should be. -/
theorem Kept.run (h : c.Kept l stored) (fits : ∀ e ∈ events, e.Fits c.file.arity) :
    (∃ stored', (c.run events).Kept l stored') ∧ (c.run events).file.arity = c.file.arity := by
  induction events generalizing c stored with
  | nil => exact ⟨⟨stored, h⟩, rfl⟩
  | cons e events ih =>
      have passes := h.step (fits e List.mem_cons_self)
      obtain ⟨stored', kept⟩ := passes.kept
      obtain ⟨still, arity⟩ := ih kept (passes.fits fits)
      exact ⟨still, arity.trans passes.arity⟩

/-- As long as no last id is forgotten, ids go on ascending. -/
theorem Kept.advances_run (h : c.Kept l stored) (fits : ∀ e ∈ events, e.Fits c.file.arity)
    (steady : c.Steady events) : ∃ ids, c.Advances (c.run events) ids := by
  induction events generalizing c stored with
  | nil => exact ⟨[], advances_of_le rfl (UInt64.le_refl _)⟩
  | cons e events ih =>
      have passes := h.step (fits e List.mem_cons_self)
      obtain ⟨stored', kept⟩ := passes.kept
      obtain ⟨ids, first⟩ := passes.advances steady.1
      obtain ⟨ids', more⟩ := ih kept (passes.fits fits) steady.2
      exact ⟨ids ++ ids', first.trans more⟩

/-- A counter that nobody takes away is there. -/
theorem Kept.steady (h : c.Kept l stored) (fits : ∀ e ∈ events, e.Fits c.file.arity)
    (there : c.counter ≠ .error .notFound) (kept : ∀ e ∈ events, e.operation ≠ .loseCounter) :
    c.Steady events := by
  induction events generalizing c stored with
  | nil => trivial
  | cons e events ih =>
      have passes := h.step (fits e List.mem_cons_self)
      obtain ⟨stored', still⟩ := passes.kept
      exact ⟨fun _ => there, ih still (passes.fits fits)
        (passes.counter (kept e List.mem_cons_self) there)
        fun e' mem => kept e' (List.mem_cons_of_mem e mem)⟩

theorem run_append (c : Custody) (before after : List Event) :
    c.run (before ++ after) = (c.run before).run after :=
  List.foldl_append

/-- A store that has just been made. -/
def start (file : RecordFile) (d : Disk) : Custody :=
  ⟨file, d, []⟩

/-- A store that has just been made has its counter. -/
theorem kept_start {d d' : Disk} {data counter : Path}
    (dataSite : d.tree.Site data l.data l.besideData)
    (counterSite : d.tree.Site counter l.counter l.besideCounter) {table : String} {arity : Nat}
    {sync : Bool} {outlooks : List Outlook} {file : RecordFile}
    (within : ∀ o ∈ outlooks, o.Within Mishap.Contained)
    (made : d.performUnder outlooks (create table data counter arity sync) = (.ok file, d')) :
    (start file d').Kept l [] ∧ (start file d').counter ≠ .error .notFound ∧ file.arity = arity := by
  have ensured := (ensures_create Mishap.contained dataSite counterSite table arity
    sync).performUnder within
  rw [made] at ensured
  obtain ⟨rfl, holds, counts⟩ := ensured.2 file rfl
  have kept : (start ⟨table, data, counter, arity, 0, sync⟩ d').Kept l [] :=
    ⟨holds, .nil 0, .inr counts⟩
  exact ⟨kept, kept.counter_of_counts counts, rfl⟩

/-- However a store is used and whatever fails, its records have ascending ids up to its
last id, which is what the counter tells if there is one.  Unless the counter is taken
away, each id handed out is greater than all ids handed out before.  In any case the ids
handed out from some time on ascend and are greater than the ids stored at that time, as
long as the counter is there when the store is opened anew. -/
theorem ids_ascend {d d' : Disk} {data counter : Path}
    (dataSite : d.tree.Site data l.data l.besideData)
    (counterSite : d.tree.Site counter l.counter l.besideCounter) {table : String} {arity : Nat}
    {sync : Bool} {outlooks : List Outlook} {file : RecordFile}
    (within : ∀ o ∈ outlooks, o.Within Mishap.Contained)
    (made : d.performUnder outlooks (create table data counter arity sync) = (.ok file, d'))
    (fits : ∀ e ∈ events, e.Fits arity) :
    let c := start file d'
    (∃ stored, (c.run events).Reads stored ∧ Issued stored (c.run events).file.lastId) ∧
    ((c.run events).counter = .error .notFound ∨ (c.run events).counter =
      .ok (.content (Utf8.encode (Numeral.ofUInt64 (c.run events).file.lastId)))) ∧
    ((∀ e ∈ events, e.operation ≠ .loseCounter) → (c.run events).handedOut.Pairwise (· < ·)) ∧
    ∀ before after, events = before ++ after → (c.run before).Steady after →
      ∃ ids, (c.run events).handedOut = (c.run before).handedOut ++ ids ∧
        ids.Pairwise (· < ·) ∧
        ∀ stored, (c.run before).Reads stored → ∀ s ∈ stored, ∀ id ∈ ids, s.1 < id := by
  obtain ⟨begun, there, rfl⟩ := kept_start dataSite counterSite within made
  obtain ⟨⟨stored, kept⟩, -⟩ := begun.run fits
  refine ⟨⟨stored, kept.reads, kept.issued⟩, kept.counter_eq, fun untouched => ?_, ?_⟩
  · obtain ⟨ids, advances⟩ := begun.advances_run fits (begun.steady fits there untouched)
    rw [advances.handedOut]
    exact advances.ascending
  · rintro before after rfl steady
    rw [List.forall_mem_append] at fits
    obtain ⟨⟨stored', kept'⟩, arity⟩ := begun.run fits.1
    obtain ⟨ids, advances⟩ := kept'.advances_run (fun e mem => arity.symm ▸ fits.2 e mem) steady
    refine ⟨ids, ?_, advances.ascending, fun stored'' reads s mem id handed => ?_⟩
    · rw [run_append]
      exact advances.handedOut
    · obtain rfl : stored' = stored'' := by
        have same := kept'.reads.symm.trans reads
        exact List.map_injective_iff.2 (fun _ _ e => Except.ok.inj e) (Except.ok.inj same)
      exact UInt64.lt_of_le_of_lt (kept'.issued.bounded s mem) (advances.above id handed)

/-! ## A store with mishaps -/

/-- A data file and a counter in the outermost directory. -/
def outermost : Lodging where
  data := ["data"]
  besideData := ["data.swp"]
  counter := ["counter"]
  besideCounter := ["counter.swp"]
  apart := apart_of_length_eq rfl (by decide)
  apart_beside := apart_of_length_eq rfl (by decide)
  beside_apart := apart_of_length_eq rfl (by decide)
  beside_apart_beside := apart_of_length_eq rfl (by decide)

/-- Nothing can be written at the end of a file. -/
def fullMedium : Outlook
  | .append _ _ _ => some ⟨.busy, .nothing⟩
  | _ => none

theorem within_fullMedium : fullMedium.Within Mishap.Contained := by
  intro c m befalls
  cases c <;> cases befalls
  exact fun bytes impossible => nomatch impossible

/-- A record cannot be written although its id is taken, the last one is removed, and
then the counter is lost. -/
def sample : List Event :=
  [⟨.append ⟨["a"]⟩, []⟩, ⟨.append ⟨["b"]⟩, List.replicate 4 fullMedium⟩, ⟨.reopen, []⟩,
    ⟨.append ⟨["c"]⟩, []⟩, ⟨.deleteWhere fun r => r.get? 0 = some "c", []⟩, ⟨.loseCounter, []⟩,
    ⟨.reopen, []⟩]

theorem fits_sample : ∀ e ∈ sample ++ [⟨.append ⟨["d"]⟩, []⟩], e.Fits 1 := by
  have added (field : String) : Event.Fits 1 ⟨.append ⟨[field]⟩, []⟩ :=
    ⟨by simp, fun _ same => Operation.append.inj same ▸ rfl⟩
  have other {operation : Operation} (h : ∀ record, operation ≠ .append record) :
      Event.Fits 1 ⟨operation, []⟩ :=
    ⟨by simp, fun record same => absurd same (h record)⟩
  have refused : Event.Fits 1 ⟨.append ⟨["b"]⟩, List.replicate 4 fullMedium⟩ :=
    ⟨fun o mem => List.eq_of_mem_replicate mem ▸ within_fullMedium,
      fun _ same => Operation.append.inj same ▸ rfl⟩
  simp only [sample, List.cons_append, List.nil_append, List.forall_mem_cons]
  exact ⟨added "a", refused, other nofun, added "c", other nofun, other nofun, other nofun,
    added "d", by simp⟩

theorem site_empty {path : Path} {name : String} (place : FileTree.empty.place path = .ok [name])
    (placeStaged : FileTree.empty.place path.staged = .ok [stagedName name])
    (noSlash : path.endsInSlash = false) (noSlashStaged : path.staged.endsInSlash = false)
    (noDots : Disk.endsInDots path = false) (noDotsStaged : Disk.endsInDots path.staged = false) :
    FileTree.empty.Site path [name] [stagedName name] :=
  have vacant (inner : Place) (name : String) : FileTree.empty.at? (inner ++ [name]) = none := by
    simp [FileTree.at?, FileTree.empty]
  { place, placeStaged, noSlash, noSlashStaged, noDots, noDotsStaged
    ne_nil := List.cons_ne_nil _ _
    ne_nil_beside := List.cons_ne_nil _ _
    apart := apart_of_length_eq rfl (by simp [stagedName_ne])
    notDirectory := by simp [show FileTree.empty.at? [name] = none from vacant [] name]
    childless := fun inner _ => vacant inner name
    childlessBeside := fun _ inner _ => vacant inner (stagedName name) }

/-- Nothing is in the way of a data file and a counter. -/
theorem sites_put (data counter : Bytes) :
    let t := (FileTree.empty.put ["data"] (.file data)).put ["counter"] (.file counter)
    t.Site ⟨"data"⟩ outermost.data outermost.besideData ∧
      t.Site ⟨"counter"⟩ outermost.counter outermost.besideCounter := by
  let l := outermost
  have dataSite : FileTree.empty.Site ⟨"data"⟩ l.data l.besideData :=
    site_empty (by decide) (by decide) (by decide) (by decide) (by decide) (by decide)
  have counterSite : FileTree.empty.Site ⟨"counter"⟩ l.counter l.besideCounter :=
    site_empty (by decide) (by decide) (by decide) (by decide) (by decide) (by decide)
  obtain ⟨written, -⟩ := dataSite.stirs_put data
  have counterSite' := counterSite.apart_stirs written (dataSite.keeps written) l.apart.symm
    l.beside_apart.symm l.apart_beside.symm l.beside_apart_beside.symm
  obtain ⟨counted, -⟩ := counterSite'.stirs_put counter
  exact ⟨(dataSite.stirs written).apart_stirs counted (counterSite'.keeps counted) l.apart
    l.apart_beside l.beside_apart l.beside_apart_beside, counterSite'.stirs counted⟩

/-- The id of the record that was removed is handed out again, but not that of the one
that stayed. -/
theorem ids_ascend_sample :
    let file : RecordFile := ⟨"letters", ⟨"data"⟩, ⟨"counter"⟩, 1, 0, true⟩
    let made := (Disk.mk .empty []).performUnder [] (create "letters" ⟨"data"⟩ ⟨"counter"⟩ 1 true)
    let c := start file made.2
    made.1 = .ok file ∧ (c.run sample).handedOut = [1, 3] ∧
      (c.run (sample ++ [⟨.append ⟨["d"]⟩, []⟩])).handedOut = [1, 3, 2] ∧
      ∃ ids, [1, 3, 2] = [1, 3] ++ ids ∧
        ∀ stored, (c.run sample).Reads stored → ∀ s ∈ stored, ∀ id ∈ ids, s.1 < id := by
  intro file made c
  have dataSite : FileTree.empty.Site ⟨"data"⟩ ["data"] ["data.swp"] :=
    site_empty (by decide) (by decide) (by decide) (by decide) (by decide) (by decide)
  have counterSite : FileTree.empty.Site ⟨"counter"⟩ ["counter"] ["counter.swp"] :=
    site_empty (by decide) (by decide) (by decide) (by decide) (by decide) (by decide)
  have begins : made.1 = .ok file := by decide +kernel
  have earlier : (c.run sample).handedOut = [1, 3] := by decide +kernel
  have later : (c.run (sample ++ [⟨.append ⟨["d"]⟩, []⟩])).handedOut = [1, 3, 2] := by
    decide +kernel
  obtain ⟨-, -, -, ascend⟩ := ids_ascend (l := outermost) dataSite counterSite (by simp)
    (Prod.ext begins rfl) fits_sample
  obtain ⟨ids, more, -, above⟩ := ascend sample _ rfl ⟨nofun, trivial⟩
  refine ⟨begins, earlier, later, ids, ?_, above⟩
  exact later.symm.trans (more.trans (congrArg (· ++ ids) earlier))

/-- Opening a store does not bring its lost counter back.  When the record with the
greatest id is removed after that, and the store is opened once more before another record
is added, that id is handed out again. -/
theorem stored_id_handed_out_again :
    let file : RecordFile := ⟨"letters", ⟨"data"⟩, ⟨"counter"⟩, 1, 0, true⟩
    let made := (Disk.mk .empty []).performUnder [] (create "letters" ⟨"data"⟩ ⟨"counter"⟩ 1 true)
    let c := start file made.2
    let before : List Event :=
      [⟨.append ⟨["a"]⟩, []⟩, ⟨.append ⟨["b"]⟩, []⟩, ⟨.loseCounter, []⟩, ⟨.reopen, []⟩]
    let after : List Event :=
      [⟨.deleteWhere fun r => r.get? 0 = some "b", []⟩, ⟨.reopen, []⟩, ⟨.append ⟨["c"]⟩, []⟩]
    made.1 = .ok file ∧ (c.run before).Reads [(1, ⟨["a"]⟩), (2, ⟨["b"]⟩)] ∧
      (c.run before).handedOut = [1, 2] ∧ (c.run (before ++ after)).handedOut = [1, 2, 2] ∧
      ¬ ∃ ids, (c.run (before ++ after)).handedOut = (c.run before).handedOut ++ ids ∧
        ∀ stored, (c.run before).Reads stored → ∀ s ∈ stored, ∀ id ∈ ids, s.1 < id := by
  intro file made c before after
  have begins : made.1 = .ok file := by decide +kernel
  have reads : (c.run before).Reads [(1, ⟨["a"]⟩), (2, ⟨["b"]⟩)] := by
    unfold Reads
    decide +kernel
  have earlier : (c.run before).handedOut = [1, 2] := by decide +kernel
  have later : (c.run (before ++ after)).handedOut = [1, 2] ++ [2] := by decide +kernel
  refine ⟨begins, reads, earlier, later, fun ⟨ids, more, above⟩ => ?_⟩
  rw [earlier, later] at more
  obtain rfl := List.append_cancel_left more
  have greater : (2 : RecordId) < 2 := above _ reads (2, ⟨["b"]⟩) (by simp) 2 (by simp)
  exact absurd greater (by decide)

end Custody

end FlatDB
