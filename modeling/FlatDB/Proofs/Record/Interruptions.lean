/-
# A store that is interrupted

A change of the records of a store may be stopped anywhere, and is never found half
made when the store is opened anew: its records are all as they were, or all as the
change leaves them.  Records are added in two steps, and in this order: first the
counter is advanced, then the line of the record is written.  Hence an interruption
between them skips an id, and the counter is at no time behind the records.
-/

import FlatDB.Proofs.Disk.Interruptions
import FlatDB.Proofs.Disk.Runs
import FlatDB.Proofs.Record.Framing

namespace FlatDB

open FileTree

namespace RecordFile

variable {d d' : Disk} {t t' : FileTree} {s : RecordFile} {l : Lodging}
  {stored stored' : List Stored} {content : Bytes} {id : RecordId} {α : Type}

/-! ## Opening -/

theorem onlyReads_scan (s : RecordFile) : s.scan.OnlyReads :=
  .bind (.read s.data) fun _ => .pure _

theorem onlyReads_records (s : RecordFile) : s.records.OnlyReads :=
  .bind s.onlyReads_scan fun _ => .ofResult _

theorem onlyReads_load (table : String) (data counter : Path) (arity : Nat) (sync : Bool) :
    (load table data counter arity sync).OnlyReads := by
  refine .bind (.kind data) fun kind => ?_
  split
  · exact .throw _
  refine .bind (.bind (.ask_read counter) fun reply => ?_) fun _ => .pure _
  split
  · exact .bind (.ofReply _) fun _ => .ofResult _
  · exact .bind (onlyReads_records _) fun _ => .pure _
  · exact .throw _

theorem runs_scan_of_file (site : t.Site s.data l.data l.besideData)
    (file : t.at? l.data = some (.file content)) :
    s.scan.Runs t (.ok (Entries.ofSource s.table s.arity (.content content))) t := by
  refine fun waiting => ⟨waiting, Prod.ext (perform_scan_of_read ?_)
    (s.onlyReads_scan.eq_of_interrupted (Action.interrupted_end _ _))⟩
  rw [Site.step_read (d := ⟨t, waiting⟩) site, file]

theorem runs_read_counter (site : t.Site s.counter l.counter l.besideCounter) :
    (Action.ask (.read s.counter)).Runs t
      (.ok (match t.at? l.counter with
        | some (.file bytes) => .ok (.content bytes)
        | _ => .error .notFound)) t :=
  fun waiting => ⟨waiting, Disk.perform_ask_read (Site.step_read (d := ⟨t, waiting⟩) site)⟩

theorem runs_loadCounter_of_counts (site : t.Site s.counter l.counter l.besideCounter)
    (counts : l.Counts id t) : s.loadCounter.Runs t (.ok id) t := by
  have asked := runs_read_counter site
  rw [show t.at? l.counter = _ from counts] at asked
  refine .bind asked ?_
  dsimp only
  rw [Source.text_encode]
  refine .bind (.ofReply_ok _ t) ?_
  rw [counterOfText_ofUInt64]
  exact .ofResult _ t

/-- Where there is a data file, opening the store takes no more than finding out the last
id. -/
theorem runs_load_of_file (site : t.Site s.data l.data l.besideData)
    (file : t.at? l.data = some (.file content))
    (told : (loadCounter ⟨s.table, s.data, s.counter, s.arity, 0, s.sync⟩).Runs t (.ok id) t) :
    (load s.table s.data s.counter s.arity s.sync).Runs t (.ok { s with lastId := id }) t := by
  have there : (Action.kind s.data).Runs t (.ok (some .file)) t := by
    refine .ask fun waiting => ?_
    simp only [Disk.step, look_of_place site.place site.noSlash, file]
    rfl
  refine .bind there ?_
  rw [if_neg (by simp)]
  exact .bind told (.pure _ t)

/-- All records are read. -/
theorem Holds.perform_records (h : s.Holds l stored d.tree) :
    d.perform s.records = (.ok stored, d) := by
  have scanned : d.perform s.scan = (.ok (stored.map .ok), d) :=
    Prod.ext h.perform_scan (s.onlyReads_scan.eq_of_interrupted (Action.interrupted_end _ _))
  rw [records, Disk.perform_bind, scanned]
  simp only [Disk.perform_ofResult, Entries.all_map_ok]

theorem Holds.runs_loadCounter_of_lost (h : s.Holds l stored t) (lost : t.at? l.counter = none) :
    s.loadCounter.Runs t (.ok (Entries.greatestId stored)) t := by
  have asked := runs_read_counter h.counterSite
  rw [lost] at asked
  have read : s.records.Runs t (.ok stored) t :=
    fun waiting => ⟨waiting, perform_records (d := ⟨t, waiting⟩) h⟩
  exact .bind asked (.bind read (.pure _ t))

/-- Whether a store that is opened in a tree is found to have these entries, and counts on
from an id that is none before those of its records. -/
def Reopens (s : RecordFile) (entries : List (Except Error Stored)) (t : FileTree) : Prop :=
  ∃ lastId, (load s.table s.data s.counter s.arity s.sync).Runs t (.ok { s with lastId }) t ∧
    ({ s with lastId } : RecordFile).scan.Runs t (.ok entries) t ∧
    ∀ r, .ok r ∈ entries → r.1 ≤ lastId

/-! ## Stores as they should be -/

/-- A tree with the files of a store as they should be: all ids up to the last one, which
is what the counter tells if there is one. -/
structure Sound (s : RecordFile) (l : Lodging) (stored : List Stored) (t : FileTree) : Prop extends
    s.Holds l stored t where
  bounded : ∀ r ∈ stored, r.1 ≤ s.lastId
  counted : t.at? l.counter = none ∨ l.Counts s.lastId t

namespace Sound

/-- Opening a store yields it with all its records and a last id that none is greater
than. -/
theorem reopens {lastId : RecordId} (h : { s with lastId }.Sound l stored t) :
    s.Reopens (stored.map .ok) t := by
  have found {id : RecordId}
      (told : (loadCounter ⟨s.table, s.data, s.counter, s.arity, 0, s.sync⟩).Runs t (.ok id) t)
      (bounded : ∀ r ∈ stored, r.1 ≤ id) : s.Reopens (stored.map .ok) t := by
    refine ⟨id, runs_load_of_file h.dataSite h.data told, ?_, fun r mem => ?_⟩
    · have scanned := runs_scan_of_file (s := s) h.dataSite h.data
      rwa [Entries.ofSource_text h.arity] at scanned
    · obtain ⟨r', mem', same⟩ := List.mem_map.1 mem
      exact Except.ok.inj same ▸ bounded r' mem'
  have reset : { s with lastId := 0 }.Holds l stored t :=
    ⟨h.dataSite, h.counterSite, h.data, h.arity⟩
  rcases h.counted with lost | counts
  · exact found (reset.runs_loadCounter_of_lost lost)
      (Entries.greatestId_le_iff.1 (UInt64.le_refl _))
  · exact found (runs_loadCounter_of_counts reset.counterSite counts) h.bounded

/-! ## Replacing the data file -/

/-- The data file has other records. -/
theorem rewrite (h : s.Sound l stored t) (stirs : Stirs l.data l.besideData t t')
    (holds : s.Holds l stored' t') (bounded : ∀ r ∈ stored', r.1 ≤ s.lastId) :
    s.Sound l stored' t' :=
  ⟨holds, bounded, h.counted.imp (Lodging.same_counter stirs).trans
    (Lodging.same_counter stirs).trans⟩

/-- What is beside the data file is of no account. -/
theorem spares (h : s.Sound l stored t) (spares : Spares l.data l.besideData t t') :
    s.Sound l stored t' :=
  h.rewrite spares.toStirs
    (h.toHolds.rewrite spares.toStirs (spares.same.trans h.data) h.arity) h.bounded

/-- Where the data file is replaced it is as it was until all is done. -/
theorem of_interrupted_replaceAll (h : s.Sound l stored d.tree) {x : α}
    (stopped : (s.replaceAll stored' >>= fun _ => pure x).Interrupted d d') :
    s.Sound l stored d'.tree ∨ d' = (d.perform (s.replaceAll stored' >>= fun _ => pure x)).2 := by
  rcases h.dataSite.of_interrupted_replace stopped.of_bind_pure with spares | done
  · exact .inl (h.spares spares)
  · right
    rw [Disk.perform_bind, show d.perform (s.replaceAll stored') = _ from done]
    rfl

/-- All records are read, and then perhaps they are replaced. -/
theorem of_interrupted_records (h : s.Sound l stored d.tree) {f : List Stored → Action α}
    (stopped : (s.records >>= f).Interrupted d d')
    (replaced : (f stored).Interrupted d d' →
      s.Sound l stored d'.tree ∨ d' = (d.perform (f stored)).2) :
    s.Sound l stored d'.tree ∨ d' = (d.perform (s.records >>= f)).2 := by
  have read := h.perform_records
  rw [Disk.perform_bind, read]
  rcases stopped.of_bind with stopped | ⟨_, _, performed, stopped⟩
  · exact .inl (s.onlyReads_records.eq_of_interrupted stopped ▸ h)
  · rw [read] at performed
    cases performed
    exact replaced stopped

theorem of_interrupted_updateWhere (h : s.Sound l stored d.tree) {accepts : Record → Bool}
    {position : Nat} {value : String}
    (stopped : (s.updateWhere accepts position value).Interrupted d d') :
    s.Sound l stored d'.tree ∨ d' = (d.perform (s.updateWhere accepts position value)).2 := by
  rw [updateWhere] at stopped ⊢
  refine h.of_interrupted_records stopped fun stopped => ?_
  dsimp only at stopped ⊢
  split at stopped
  · next changed =>
    rw [if_pos changed]
    exact h.of_interrupted_replaceAll stopped
  · exact .inl (stopped.of_pure ▸ h)

theorem of_interrupted_deleteWhere (h : s.Sound l stored d.tree) {accepts : Record → Bool}
    (stopped : (s.deleteWhere accepts).Interrupted d d') :
    s.Sound l stored d'.tree ∨ d' = (d.perform (s.deleteWhere accepts)).2 := by
  rw [deleteWhere] at stopped ⊢
  refine h.of_interrupted_records stopped fun stopped => ?_
  dsimp only at stopped ⊢
  split at stopped
  · next some =>
    rw [if_pos some]
    exact h.of_interrupted_replaceAll stopped
  · exact .inl (stopped.of_pure ▸ h)

theorem of_interrupted_truncate (h : s.Sound l stored d.tree)
    (stopped : s.truncate.Interrupted d d') :
    s.Sound l stored d'.tree ∨ d' = (d.perform s.truncate).2 := by
  rcases stopped.of_call with rfl | impossible | rfl
  · exact .inl h
  · exact impossible.elim
  · exact .inr (d.perform_call_snd _ _).symm

/-! ## Adding a record -/

/-- The counter says another number. -/
theorem count (h : s.Sound l stored t) (stirs : Stirs l.counter l.besideCounter t t')
    {lastId : RecordId} (later : s.lastId ≤ lastId) (counts : l.Counts lastId t') :
    { s with lastId }.Sound l stored t' :=
  ⟨h.toHolds.count stirs lastId, fun r mem => UInt64.le_trans (h.bounded r mem) later,
    .inr counts⟩

/-- What is beside the counter is of no account. -/
theorem spares_counter (h : s.Sound l stored t)
    (spares : Spares l.counter l.besideCounter t t') : s.Sound l stored t' :=
  ⟨h.toHolds.count spares.toStirs s.lastId, h.bounded,
    h.counted.imp spares.same.trans spares.same.trans⟩

/-- An addition is found as it was left by advancing the counter or by nothing, or else it
is done, and the line of the record is at the end of the data file. -/
theorem of_interrupted_append (h : s.Sound l stored d.tree) {record : Record}
    (stopped : (append record).Interrupted s d d') :
    (∃ lastId, { s with lastId }.Sound l stored d'.tree) ∨
      ∃ d₁ : Disk, { s with lastId := s.lastId + 1 }.Sound l stored d₁.tree ∧
        l.Counts (s.lastId + 1) d₁.tree ∧
        d' = d₁.put l.data (.file (Utf8.encode (Entries.text stored) ++
          Utf8.encode (record.line (s.lastId + 1)))) ∧
        (d.update s (append record)).2 = ({ s with lastId := s.lastId + 1 }, d') := by
  rw [append] at stopped ⊢
  replace stopped := stopped.of_bind_get
  dsimp only at stopped
  by_cases exhausted : s.lastId.toNat + 1 = UInt64.size
  · rw [if_pos exhausted] at stopped
    exact .inl ⟨s.lastId, stopped.of_throw ▸ h⟩
  rw [if_neg exhausted] at stopped
  -- Once the counter is advanced the records are still those that were there.
  have counted {d₁ : Disk} (done : d.perform (Replacement.replace s.counter
      (Utf8.encode (Numeral.ofUInt64 (s.lastId + 1))) s.sync) = (.ok (), d₁)) :
      { s with lastId := s.lastId + 1 }.Sound l stored d₁.tree ∧
        l.Counts (s.lastId + 1) d₁.tree := by
    obtain ⟨stirs, counts⟩ := h.counterSite.stirs_of_perform_replace done
    exact ⟨h.count stirs (UInt64.le_of_lt (RecordId.lt_next exhausted)) counts, counts⟩
  rcases stopped.of_liftM_bind with stopped | ⟨_, d₁, done, stopped⟩
  · rcases h.counterSite.of_interrupted_replace stopped with spares | done
    · exact .inl ⟨s.lastId, h.spares_counter spares⟩
    · exact .inl ⟨_, (counted done).1⟩
  obtain ⟨sound, counts⟩ := counted done
  have step := sound.dataSite.step_append sound.data
    (Utf8.encode (record.line (s.lastId + 1))) s.sync
  -- After the line is written nothing is left to do.
  have written : d₁.perform (Action.append s.data (Utf8.encode (record.line (s.lastId + 1)))
      s.sync) = (.ok (), d₁.put l.data (.file (Utf8.encode (Entries.text stored) ++
        Utf8.encode (record.line (s.lastId + 1))))) := by
    rw [Action.append, Disk.perform_bind, Disk.perform_ask, step]
    rfl
  have finished : (d.update s (append record)).2 = ({ s with lastId := s.lastId + 1 },
      d₁.put l.data (.file (Utf8.encode (Entries.text stored) ++
        Utf8.encode (record.line (s.lastId + 1))))) := by
    simp only [append, Disk.update_bind, Disk.update_get, if_neg exhausted, Disk.update_liftM, done,
      Disk.update_set, written]
    rfl
  rw [append] at finished
  rcases stopped.of_bind_set.of_liftM_bind with stopped | ⟨_, d₂, performed, rfl⟩
  · rcases stopped.of_call with rfl | impossible | rfl
    · exact .inl ⟨_, sound⟩
    · exact impossible.elim
    · exact .inr ⟨d₁, sound, counts, congrArg Prod.snd step,
        finished.trans (congrArg (Prod.mk _) (congrArg Prod.snd step).symm)⟩
  · cases written.symm.trans performed
    exact .inr ⟨d₁, sound, counts, rfl, finished⟩

/-- The line of a record makes one more entry, which is the record if it has as many fields
as all others. -/
theorem reopens_put (h : s.Sound l stored t) (counts : l.Counts s.lastId t) (record : Record) :
    ∃ entries, s.Reopens entries (t.put l.data (.file (Utf8.encode (Entries.text stored) ++
        Utf8.encode (record.line s.lastId)))) ∧
      (record.arity = s.arity → entries = (stored ++ [(s.lastId, record)]).map .ok) := by
  obtain ⟨stirs, file⟩ := h.dataSite.stirs_put (Utf8.encode (Entries.text stored) ++
    Utf8.encode (record.line s.lastId))
  have site := h.counterSite.apart_stirs stirs (h.dataSite.keeps stirs) l.apart.symm
    l.beside_apart.symm l.apart_beside.symm l.beside_apart_beside.symm
  have told := runs_loadCounter_of_counts (s := ⟨s.table, s.data, s.counter, s.arity, 0, s.sync⟩)
    site ((Lodging.same_counter stirs).trans counts)
  rw [← Utf8.encode_append, ← Entries.text_singleton (s.lastId, record), ← Entries.text_append] at *
  refine ⟨_, ⟨s.lastId, runs_load_of_file (h.dataSite.stirs stirs) file told,
    runs_scan_of_file (h.dataSite.stirs stirs) file, fun r mem => ?_⟩, fun arity => ?_⟩
  · have left := Entries.mem_of_ok_mem_ofSource_text mem
    rcases List.mem_append.1 left with old | new
    · exact h.bounded r old
    · exact List.mem_singleton.1 new ▸ UInt64.le_refl _
  · refine Entries.ofSource_text (List.forall_mem_append.2 ⟨h.arity, ?_⟩)
    simpa using arity

/-- Wherever an addition is stopped, opening the store again finds the entries that were
there, or it is done. -/
theorem reopens_of_interrupted_append (h : s.Sound l stored d.tree) {record : Record}
    (stopped : (append record).Interrupted s d d') :
    ∃ entries, s.Reopens entries d'.tree ∧ (entries = stored.map .ok ∨
      (d.update s (append record)).2 = ({ s with lastId := s.lastId + 1 }, d') ∧
        (record.arity = s.arity → entries = (stored ++ [(s.lastId + 1, record)]).map .ok)) := by
  rcases h.of_interrupted_append stopped with ⟨lastId, sound⟩ | ⟨d₁, sound, counts, rfl, done⟩
  · exact ⟨_, sound.reopens, .inl rfl⟩
  · obtain ⟨entries, reopens, fits⟩ := sound.reopens_put counts record
    exact ⟨entries, reopens, .inr ⟨done, fits⟩⟩

end Sound

/-! ## Changes -/

/-- A change of the records. -/
inductive Change where
  | append (record : Record)
  | updateWhere (accepts : Record → Bool) (position : Nat) (value : String)
  | deleteWhere (accepts : Record → Bool)
  | truncate

namespace Change

/-- The operation that makes the change. -/
def update : Change → Update RecordFile Unit
  | .append record => do
    let _ ← RecordFile.append record
  | .updateWhere accepts position value => do
    let s ← get
    let _ ← s.updateWhere accepts position value
  | .deleteWhere accepts => do
    let s ← get
    let _ ← s.deleteWhere accepts
  | .truncate => do
    let s ← get
    s.truncate

/-- The records of a store after the change. -/
def records (s : RecordFile) (stored : List Stored) : Change → List Stored
  | .append record => stored ++ [(s.lastId + 1, record)]
  | .updateWhere accepts position value => stored.map (Entries.assign accepts position value)
  | .deleteWhere accepts => stored.filter fun r => !accepts r.2
  | .truncate => []

/-- Whether a record that is added has as many fields as all others. -/
def Fits (s : RecordFile) : Change → Prop
  | .append record => record.arity = s.arity
  | _ => True

end Change

/-- A file system on which no call fails without a reason in its tree. -/
theorem contained_of_false : Tolerance.Contained fun _ _ => False :=
  ⟨fun _ _ _ => False.elim, fun _ _ _ _ => False.elim, fun _ _ => False.elim⟩

namespace Sound

/-- A change that leaves the records as they were until it is done is found done or not
at all. -/
theorem reopens_of_done {a : Action α} (stopped : s.Sound l stored d'.tree ∨ d' = (d.perform a).2)
    (done : a.Ensures (fun _ _ => False)
      (fun _ d' => s.Sound l stored d'.tree ∨ s.Sound l stored' d'.tree) d) :
    ∃ entries, s.Reopens entries d'.tree ∧
      (entries = stored.map .ok ∨ d' = (d.perform a).2 ∧ entries = stored'.map .ok) := by
  rcases stopped with sound | rfl
  · exact ⟨_, sound.reopens, .inl rfl⟩
  have performed := done.performUnder (List.forall_mem_nil _)
  rw [Disk.performUnder_nil] at performed
  rcases performed with sound | sound
  · exact ⟨_, sound.reopens, .inl rfl⟩
  · exact ⟨_, sound.reopens, .inr ⟨rfl, rfl⟩⟩

theorem reopens_of_interrupted_updateWhere (h : s.Sound l stored d.tree) {accepts : Record → Bool}
    {position : Nat} {value : String}
    (stopped : (s.updateWhere accepts position value).Interrupted d d') :
    ∃ entries, s.Reopens entries d'.tree ∧ (entries = stored.map .ok ∨
      d' = (d.perform (s.updateWhere accepts position value)).2 ∧
        entries = (stored.map (Entries.assign accepts position value)).map .ok) := by
  refine reopens_of_done (h.of_interrupted_updateWhere stopped)
    ((h.ensures_updateWhere contained_of_false accepts position value).mono ?_)
  have bounded : ∀ r ∈ stored.map (Entries.assign accepts position value), r.1 ≤ s.lastId := by
    rw [List.forall_mem_map]
    exact fun r mem => (Entries.fst_assign accepts position value r).symm ▸ h.bounded r mem
  rintro (e | changes) d' ⟨stirs, left⟩
  · exact .inl (h.rewrite stirs left h.bounded)
  · rcases left.2 with holds | ⟨-, holds⟩
    · exact .inr (h.rewrite stirs holds bounded)
    · exact .inl (h.rewrite stirs holds h.bounded)

theorem reopens_of_interrupted_deleteWhere (h : s.Sound l stored d.tree) {accepts : Record → Bool}
    (stopped : (s.deleteWhere accepts).Interrupted d d') :
    ∃ entries, s.Reopens entries d'.tree ∧ (entries = stored.map .ok ∨
      d' = (d.perform (s.deleteWhere accepts)).2 ∧
        entries = (stored.filter fun r => !accepts r.2).map .ok) := by
  refine reopens_of_done (h.of_interrupted_deleteWhere stopped)
    ((h.ensures_deleteWhere contained_of_false accepts).mono ?_)
  rintro (e | removed) d' ⟨stirs, left⟩
  · exact .inl (h.rewrite stirs left h.bounded)
  · exact .inr (h.rewrite stirs left.2 fun r mem => h.bounded r (List.mem_filter.1 mem).1)

theorem reopens_of_interrupted_truncate (h : s.Sound l stored d.tree)
    (stopped : s.truncate.Interrupted d d') :
    ∃ entries, s.Reopens entries d'.tree ∧ (entries = stored.map .ok ∨
      d' = (d.perform s.truncate).2 ∧ entries = ([] : List Stored).map .ok) := by
  refine reopens_of_done (h.of_interrupted_truncate stopped) (h.ensures_truncate.mono ?_)
  rintro (e | _) d' ⟨stirs, left⟩
  · rcases left with holds | ⟨⟨_, impossible, -⟩, -⟩
    · exact .inl (h.rewrite stirs holds h.bounded)
    · exact impossible.elim
  · exact .inr (h.rewrite stirs left (by simp))

/-- Wherever a change is stopped, opening the store again finds the entries that were there,
or those that the change leaves when it is done. -/
theorem reopens_of_interrupted (h : s.Sound l stored d.tree) {change : Change}
    (stopped : change.update.Interrupted s d d') :
    ∃ entries, s.Reopens entries d'.tree ∧ (entries = stored.map .ok ∨
      ((d.update s change.update).2.2.perform (d.update s change.update).2.1.scan).1 =
          .ok entries ∧
        (change.Fits s → entries = (change.records s stored).map .ok)) := by
  have scan {entries : List (Except Error Stored)} (reopens : s.Reopens entries d'.tree)
      {done : RecordFile × Disk} (lastId : RecordId) (same : done = ({ s with lastId }, d')) :
      (done.2.perform done.1.scan).1 = .ok entries := by
    obtain ⟨_, -, scanned, -⟩ := reopens
    rw [same]
    exact (scanned.of_perform rfl).1
  have lifted {β : Type} (a : Action β) :
      (d.update s (liftM a >>= fun _ => pure ())).2 = (s, (d.perform a).2) := by
    rw [Disk.update_discard, Disk.update_liftM]
  cases change with
  | append record =>
      obtain ⟨entries, reopens, which⟩ := h.reopens_of_interrupted_append stopped.of_bind_pure
      refine ⟨entries, reopens, which.imp_right fun ⟨done, fits⟩ =>
        ⟨scan reopens (s.lastId + 1) ?_, fits⟩⟩
      exact (d.update_discard s (append record)).trans done
  | updateWhere accepts position value =>
      obtain ⟨entries, reopens, which⟩ :=
        h.reopens_of_interrupted_updateWhere stopped.of_bind_get.of_bind_pure.of_liftM
      refine ⟨entries, reopens, which.imp_right fun ⟨done, fits⟩ =>
        ⟨scan reopens s.lastId ?_, fun _ => fits⟩⟩
      rw [done]
      exact lifted (s.updateWhere accepts position value)
  | deleteWhere accepts =>
      obtain ⟨entries, reopens, which⟩ :=
        h.reopens_of_interrupted_deleteWhere stopped.of_bind_get.of_bind_pure.of_liftM
      refine ⟨entries, reopens, which.imp_right fun ⟨done, fits⟩ =>
        ⟨scan reopens s.lastId ?_, fun _ => fits⟩⟩
      rw [done]
      exact lifted (s.deleteWhere accepts)
  | truncate =>
      obtain ⟨entries, reopens, which⟩ :=
        h.reopens_of_interrupted_truncate stopped.of_bind_get.of_liftM
      refine ⟨entries, reopens, which.imp_right fun ⟨done, fits⟩ =>
        ⟨scan reopens s.lastId ?_, fun _ => fits⟩⟩
      rw [done]
      exact congrArg Prod.snd (d.update_liftM s s.truncate)

end Sound

end RecordFile

end FlatDB
