/-
# What an interruption leaves

A disk that an interrupted program leaves was left by one of its parts, and the parts
before that were done.  So it is followed through a program part by part, with what
each part comes to when it is done.  A part of which it does not matter how far it
got needs less: if none of the calls it may make breaks a condition on the disk, the
condition holds wherever it is stopped.

A file that is replaced is found with its old content, until the new one is moved
over it in a single step.
-/

import FlatDB.Disk.Interruption
import FlatDB.Proofs.Disk.Sites

namespace FlatDB

variable {α β σ : Type} {d d' : Disk}

/-! ## Programs -/

namespace Program

variable {p : Program α} {f : α → Program β}

theorem interrupted_start (p : Program α) (d : Disk) : p.Interrupted d d := by
  cases p with
  | done a => rfl
  | call c next => exact .inl rfl

/-- A program that is done may be taken to be stopped at its end. -/
theorem interrupted_end (p : Program α) (d : Disk) : p.Interrupted d (p.run d).2 := by
  induction p generalizing d with
  | done a => rfl
  | call c next ih => exact .inr (.inr (ih _ _))

/-- Of two programs the first is stopped, or the second after the first is done. -/
theorem interrupted_bind : (p >>= f).Interrupted d d' ↔
    p.Interrupted d d' ∨ (f (p.run d).1).Interrupted (p.run d).2 d' := by
  induction p generalizing d with
  | done a =>
      show (f a).Interrupted d d' ↔ d' = d ∨ (f a).Interrupted d d'
      exact (or_iff_right_of_imp fun same => same ▸ interrupted_start (f a) d).symm
  | call c next ih =>
      show _ ∨ _ ∨ (next (d.step c).1 >>= f).Interrupted (d.step c).2 d' ↔ (_ ∨ _ ∨ _) ∨ _
      rw [ih, or_assoc, or_assoc]
      rfl

end Program

/-! ## Actions -/

/-- What a call leaves does not depend on what is made of its reply. -/
theorem Disk.perform_call_snd (d : Disk) (c : Call) (f : c.Reply → Except Fault α) :
    (d.perform (Action.ask c >>= fun reply => Action.ofReply (f reply))).2 = (d.step c).2 := by
  rw [perform_bind, perform_ask]
  show (Disk.perform _ (Action.ofReply (f (d.step c).1))).2 = _
  cases f (d.step c).1 <;> rfl

/-- A call that comes to a value was made. -/
theorem Disk.step_of_perform {c : Call} {f : c.Reply → Except Fault α} {x : α}
    (h : d.perform (Action.ask c >>= fun reply => Action.ofReply (f reply)) = (.ok x, d')) :
    f (d.step c).1 = .ok x ∧ d' = (d.step c).2 := by
  have left := d.perform_call_snd c f
  rw [h] at left
  rw [perform_bind, perform_ask] at h
  dsimp only at h
  cases replied : f (d.step c).1 with
  | error fault =>
      rw [replied] at h
      cases h
  | ok y =>
      rw [replied] at h
      cases h
      exact ⟨rfl, left⟩

namespace Action

variable {a : Action α} {f : α → Action β}

theorem interrupted_start (a : Action α) (d : Disk) : a.Interrupted d d :=
  Program.interrupted_start (ExceptT.run a) d

theorem interrupted_end (a : Action α) (d : Disk) : a.Interrupted d (d.perform a).2 :=
  Program.interrupted_end (ExceptT.run a) d

theorem interrupted_of_perform {x : Except Error α} (performed : d.perform a = (x, d')) :
    a.Interrupted d d' := by
  have finished := interrupted_end a d
  rwa [performed] at finished

/-- Of two actions the first is stopped, or the second where the first has come to a value. -/
theorem interrupted_bind : (a >>= f).Interrupted d d' ↔
    a.Interrupted d d' ∨ ∃ x d₁, d.perform a = (.ok x, d₁) ∧ (f x).Interrupted d₁ d' := by
  have finished := interrupted_end a d
  rw [Action.Interrupted, ExceptT.run_bind, Program.interrupted_bind]
  show a.Interrupted d d' ∨ Program.Interrupted _ (d.perform a).2 d' ↔ _
  rw [show Program.run (ExceptT.run a) d = d.perform a from rfl]
  generalize d.perform a = done at finished ⊢
  obtain ⟨e | x, d₁⟩ := done
  · refine (or_iff_left_of_imp fun same => same ▸ finished).trans (or_iff_left ?_).symm
    rintro ⟨_, _, impossible, -⟩
    cases impossible
  · refine or_congr_right ⟨fun later => ⟨x, d₁, rfl, later⟩, ?_⟩
    rintro ⟨_, _, same, later⟩
    cases same
    exact later

/-- Looking at what an action comes to takes no step. -/
theorem interrupted_outcome : a.outcome.Interrupted d d' ↔ a.Interrupted d d' := by
  rw [Action.Interrupted, Action.outcome, ExceptT.run_lift, ← bind_pure_comp,
    Program.interrupted_bind]
  exact or_iff_left_of_imp fun same => same ▸ interrupted_end a d

namespace Interrupted

theorem of_pure {x : α} (h : (pure x : Action α).Interrupted d d') : d' = d :=
  h

theorem of_throw {e : Error} (h : (throw e : Action α).Interrupted d d') : d' = d :=
  h

theorem of_bind (h : (a >>= f).Interrupted d d') :
    a.Interrupted d d' ∨ ∃ x d₁, d.perform a = (.ok x, d₁) ∧ (f x).Interrupted d₁ d' :=
  interrupted_bind.1 h

/-- Returning a value takes no step. -/
theorem of_bind_pure {g : α → β} (h : (a >>= fun x => pure (g x)).Interrupted d d') :
    a.Interrupted d d' := by
  rcases h.of_bind with stopped | ⟨x, d₁, performed, rfl⟩
  · exact stopped
  · have finished := interrupted_end a d
    rwa [performed] at finished

theorem of_bind_ofResult {result : Except Error α}
    (h : (ofResult result >>= f).Interrupted d d') :
    d' = d ∨ ∃ x, result = .ok x ∧ (f x).Interrupted d d' := by
  rcases h.of_bind with rfl | ⟨x, _, performed, h⟩
  · exact .inl rfl
  · cases performed
    exact .inr ⟨x, rfl, h⟩

/-- Asking what is at a path takes no step that counts. -/
theorem of_bind_kind {path : Path} {f : Option Kind → Action β}
    (h : (kind path >>= f).Interrupted d d') :
    d' = d ∨ (f (d.step (.kind path)).1).Interrupted d d' := by
  have same := d.step_kind_snd path
  rcases h with start | impossible | later
  · exact .inl start
  · exact impossible.elim
  · right
    rwa [same] at later

/-- A call is not made, stopped amid, or made. -/
theorem of_ask {c : Call} (h : (ask c).Interrupted d d') :
    d' = d ∨ d.Amid c d' ∨ d' = (d.step c).2 :=
  h

theorem of_ofReply {reply : Except Fault α} (h : (ofReply reply).Interrupted d d') : d' = d := by
  cases reply with
  | ok x => exact h
  | error fault => exact h

/-- A call whose reply may be a fault. -/
theorem of_call {c : Call} {f : c.Reply → Except Fault α}
    (h : (ask c >>= fun reply => ofReply (f reply)).Interrupted d d') :
    d' = d ∨ d.Amid c d' ∨ d' = (d.step c).2 := by
  rcases h.of_bind with asked | ⟨_, _, performed, replied⟩
  · exact asked.of_ask
  · cases performed
    exact .inr (.inr replied.of_ofReply)

theorem of_outcome (h : a.outcome.Interrupted d d') : a.Interrupted d d' :=
  interrupted_outcome.1 h

/-- An action with a cleanup is stopped, or the cleanup where the action has failed. -/
theorem of_orElse {cleanup : Action Unit} (h : (a.orElse cleanup).Interrupted d d') :
    a.Interrupted d d' ∨
      ∃ e d₁, d.perform a = (.error e, d₁) ∧ cleanup.Interrupted d₁ d' := by
  rw [Action.orElse] at h
  rcases h.of_bind with stopped | ⟨_, _, performed, h⟩
  · exact .inl stopped.of_outcome
  · rw [Disk.perform_outcome] at performed
    cases performed
    have finished := interrupted_end a d
    generalize d.perform a = done at h finished ⊢
    obtain ⟨e | x, d₁⟩ := done
    · refine .inr ⟨e, d₁, rfl, ?_⟩
      rcases h.of_bind with stopped | ⟨_, _, cleaned, thrown⟩
      · exact stopped.of_outcome
      · rw [Disk.perform_outcome] at cleaned
        cases cleaned
        exact thrown.of_throw ▸ interrupted_end cleanup d₁
    · exact .inl (h.of_pure ▸ finished)

end Interrupted

end Action

/-! ## Updates -/

/-- Forgetting what an update has come to changes nothing else. -/
theorem Disk.update_discard (d : Disk) (s : σ) (u : Update σ α) :
    (d.update s (u >>= fun _ => pure ())).2 = (d.update s u).2 := by
  rw [Disk.update_bind]
  generalize d.update s u = done
  obtain ⟨e | x, s', d'⟩ := done <;> rfl

namespace Update

variable {u : Update σ α} {f : α → Update σ β} {s : σ}

theorem interrupted_end (u : Update σ α) (s : σ) (d : Disk) :
    u.Interrupted s d (d.update s u).2.2 :=
  Program.interrupted_end (StateT.run (ExceptT.run u) s) d

/-- Of two updates the first is stopped, or the second where the first has come to a value. -/
theorem interrupted_bind : (u >>= f).Interrupted s d d' ↔
    u.Interrupted s d d' ∨
      ∃ x s₁ d₁, d.update s u = (.ok x, s₁, d₁) ∧ (f x).Interrupted s₁ d₁ d' := by
  have finished := interrupted_end u s d
  rw [Update.Interrupted, ExceptT.run_bind, StateT.run_bind, Program.interrupted_bind]
  show u.Interrupted s d d' ∨ Program.Interrupted _ (d.update s u).2.2 d' ↔ _
  rw [show (Program.run (StateT.run (ExceptT.run u) s) d).1 =
    ((d.update s u).1, (d.update s u).2.1) from rfl]
  generalize d.update s u = done at finished ⊢
  obtain ⟨e | x, s₁, d₁⟩ := done
  · refine (or_iff_left_of_imp fun same => same ▸ finished).trans (or_iff_left ?_).symm
    rintro ⟨_, _, _, impossible, -⟩
    cases impossible
  · refine or_congr_right ⟨fun later => ⟨x, s₁, d₁, rfl, later⟩, ?_⟩
    rintro ⟨_, _, _, same, later⟩
    cases same
    exact later

/-- An action is stopped in the same places as part of an update. -/
theorem interrupted_liftM {a : Action α} :
    (liftM a : Update σ α).Interrupted s d d' ↔ a.Interrupted d d' := by
  show Program.Interrupted (StateT.run (StateT.lift (ExceptT.run a)) s) d d' ↔ _
  rw [StateT.run_lift, Program.interrupted_bind]
  exact or_iff_left_of_imp fun same => same ▸ Action.interrupted_end a d

namespace Interrupted

theorem of_bind (h : (u >>= f).Interrupted s d d') :
    u.Interrupted s d d' ∨
      ∃ x s₁ d₁, d.update s u = (.ok x, s₁, d₁) ∧ (f x).Interrupted s₁ d₁ d' :=
  interrupted_bind.1 h

/-- Returning a value takes no step. -/
theorem of_bind_pure {g : α → β} (h : (u >>= fun x => pure (g x)).Interrupted s d d') :
    u.Interrupted s d d' := by
  rcases h.of_bind with stopped | ⟨x, s₁, d₁, updated, rfl⟩
  · exact stopped
  · have finished := interrupted_end u s d
    rwa [updated] at finished

/-- Getting and setting the value are no steps. -/
theorem of_bind_get {f : σ → Update σ β} (h : (get >>= f : Update σ β).Interrupted s d d') :
    (f s).Interrupted s d d' :=
  h

theorem of_bind_set {f : PUnit → Update σ β} {s' : σ}
    (h : (set s' >>= f : Update σ β).Interrupted s d d') : (f ⟨⟩).Interrupted s' d d' :=
  h

theorem of_throw {e : Error} (h : (throw e : Update σ α).Interrupted s d d') : d' = d :=
  h

theorem of_liftM {a : Action α} (h : (liftM a : Update σ α).Interrupted s d d') :
    a.Interrupted d d' :=
  interrupted_liftM.1 h

theorem of_liftM_bind {a : Action α} {f : α → Update σ β}
    (h : ((liftM a : Update σ α) >>= f).Interrupted s d d') :
    a.Interrupted d d' ∨
      ∃ x d₁, d.perform a = (.ok x, d₁) ∧ (f x).Interrupted s d₁ d' := by
  rcases h.of_bind with stopped | ⟨x, s₁, d₁, updated, later⟩
  · exact .inl stopped.of_liftM
  · rw [Disk.update_liftM] at updated
    generalize d.perform a = done at updated ⊢
    obtain ⟨y, d₂⟩ := done
    cases updated
    exact .inr ⟨x, _, rfl, later⟩

end Interrupted

end Update

/-! ## Conditions that no call breaks -/

/-- Whether a call never breaks a condition, done or not. -/
def Call.Maintains (I : Disk → Prop) (c : Call) : Prop :=
  ∀ d, I d → I (d.step c).2 ∧ ∀ d', d.Amid c d' → I d'

/-- Whether no call that a program may make, whatever the replies, breaks a condition. -/
def Program.Maintains (I : Disk → Prop) : Program α → Prop
  | .done _ => True
  | .call c next => c.Maintains I ∧ ∀ reply, (next reply).Maintains I

namespace Program.Maintains

variable {I : Disk → Prop} {p : Program α}

theorem interrupted (h : p.Maintains I) (holds : I d) (stopped : p.Interrupted d d') : I d' := by
  induction p generalizing d with
  | done a => exact stopped ▸ holds
  | call c next ih =>
      rcases stopped with rfl | amid | later
      · exact holds
      · exact (h.1 d holds).2 d' amid
      · exact ih _ (h.2 _) (h.1 d holds).1 later

theorem bind {f : α → Program β} (first : p.Maintains I) (next : ∀ a, (f a).Maintains I) :
    (p >>= f).Maintains I := by
  induction p with
  | done a => exact next a
  | call c more ih => exact ⟨first.1, fun reply => ih reply (first.2 reply)⟩

end Program.Maintains

/-- Whether no call that an action may make breaks a condition. -/
def Action.Maintains (I : Disk → Prop) (a : Action α) : Prop :=
  Program.Maintains I (ExceptT.run a)

namespace Action.Maintains

variable {I : Disk → Prop} {a : Action α}

theorem interrupted (h : a.Maintains I) (holds : I d) (stopped : a.Interrupted d d') : I d' :=
  Program.Maintains.interrupted h holds stopped

theorem perform (h : a.Maintains I) (holds : I d) : I (d.perform a).2 :=
  h.interrupted holds (interrupted_end a d)

theorem of_perform {x : Except Error α} (h : a.Maintains I) (holds : I d)
    (performed : d.perform a = (x, d')) : I d' := by
  have left := h.perform holds
  rwa [performed] at left

theorem pure (x : α) : (Pure.pure x : Action α).Maintains I :=
  trivial

theorem throw (e : Error) : (MonadExcept.throw e : Action α).Maintains I :=
  trivial

theorem ofResult (result : Except Error α) : (ofResult result).Maintains I :=
  trivial

theorem ofReply (reply : Except Fault α) : (ofReply reply).Maintains I := by
  cases reply <;> trivial

theorem ask {c : Call} (h : c.Maintains I) : (ask c).Maintains I :=
  ⟨h, fun _ => trivial⟩

theorem bind {f : α → Action β} (first : a.Maintains I) (next : ∀ x, (f x).Maintains I) :
    (a >>= f).Maintains I := by
  refine Program.Maintains.bind first fun x => ?_
  cases x with
  | ok x => exact next x
  | error e => trivial

/-- A call whose reply may be a fault. -/
theorem call {c : Call} {f : c.Reply → Except Fault α} (h : c.Maintains I) :
    (Action.ask c >>= fun reply => Action.ofReply (f reply)).Maintains I :=
  bind (ask h) fun _ => ofReply _

theorem outcome (h : a.Maintains I) : a.outcome.Maintains I := by
  rw [Action.Maintains, Action.outcome, ExceptT.run_lift, ← bind_pure_comp]
  exact Program.Maintains.bind h fun _ => trivial

theorem orElse {cleanup : Action Unit} (first : a.Maintains I) (cleaned : cleanup.Maintains I) :
    (a.orElse cleanup).Maintains I := by
  refine bind (outcome first) fun x => ?_
  cases x with
  | ok x => exact pure x
  | error e => exact bind (outcome cleaned) fun _ => throw e

end Action.Maintains

/-! ## Reading -/

/-- Reading yields its reply and changes nothing. -/
theorem Disk.perform_ask_read {path : Path} {reply : Except Fault Source}
    (replied : (d.step (.read path)).1 = reply) :
    d.perform (Action.ask (.read path)) = (.ok reply, d) :=
  Prod.ext (congrArg Except.ok replied) (d.step_read_snd path)

/-- Whether an action only reads: it maintains whatever holds. -/
def Action.OnlyReads (a : Action α) : Prop :=
  ∀ I, a.Maintains I

namespace Action.OnlyReads

variable {a : Action α}

theorem eq_of_interrupted (h : a.OnlyReads) (stopped : a.Interrupted d d') : d' = d :=
  (h fun d' => d' = d).interrupted rfl stopped

theorem eq_of_perform {x : Except Error α} (h : a.OnlyReads) (performed : d.perform a = (x, d')) :
    d' = d :=
  h.eq_of_interrupted (interrupted_of_perform performed)

/-- What a reading action runs to on the tree of a disk it comes to on the disk. -/
theorem perform_of_runs {x : Except Error α} {t' : FileTree} (h : a.OnlyReads)
    (runs : a.Runs d.tree x t') : d.perform a = (x, d) := by
  obtain ⟨_, ran⟩ := runs d.waiting
  exact ran.trans (Prod.ext rfl (h.eq_of_perform ran))

theorem pure (x : α) : (Pure.pure x : Action α).OnlyReads :=
  fun _ => .pure x

theorem throw (e : Error) : (MonadExcept.throw e : Action α).OnlyReads :=
  fun _ => .throw e

theorem ofResult (result : Except Error α) : (Action.ofResult result).OnlyReads :=
  fun _ => .ofResult result

theorem ofReply (reply : Except Fault α) : (Action.ofReply reply).OnlyReads :=
  fun _ => .ofReply reply

theorem bind {f : α → Action β} (first : a.OnlyReads) (next : ∀ x, (f x).OnlyReads) :
    (a >>= f).OnlyReads :=
  fun I => .bind (first I) fun x => next x I

theorem kind (path : Path) : (Action.kind path).OnlyReads :=
  fun _ => .ask fun d holds =>
    ⟨(d.step_kind_snd path).symm ▸ holds, fun _ impossible => impossible.elim⟩

theorem ask_read (path : Path) : (Action.ask (.read path)).OnlyReads :=
  fun _ => .ask fun d holds =>
    ⟨(d.step_read_snd path).symm ▸ holds, fun _ impossible => impossible.elim⟩

theorem read (path : Path) : (Action.read path).OnlyReads :=
  bind (ask_read path) fun _ => ofReply _

end Action.OnlyReads

/-! ## Replacing a file -/

namespace FileTree.Site

variable {t : FileTree} {path : Path} {target beside : Place}

/-- Where the file beside another is stopped to be made, the other is as it was. -/
theorem of_interrupted_create (h : d.tree.Site path target beside)
    (stopped : (Action.create path.staged).Interrupted d d') :
    Spares target beside d.tree d'.tree := by
  rcases stopped.of_call with rfl | impossible | rfl
  · exact h.spares
  · exact impossible.elim
  · by_cases directory : d.tree.at? beside = some .directory
    · rw [h.step_create_staged_of_directory directory]
      exact h.spares
    · rw [h.step_create_staged directory]
      exact (h.prepares_put directory []).toSpares

/-- A file that is created beside another is there, and waits to be written. -/
theorem prepares_of_perform_create (h : d.tree.Site path target beside) {handle : Handle}
    (created : d.perform (Action.create path.staged) = (.ok handle, d')) :
    Prepares target beside [] d.tree d'.tree ∧ d'.waiting[handle]? = some (some beside) := by
  have ensured := (h.ensures_create (F := fun _ _ => False)).performUnder (List.forall_mem_nil _)
  rw [Disk.performUnder_nil, created] at ensured
  exact ensured

/-- What is prepared beside a file is written and moved over it, or the file is as it was. -/
theorem of_interrupted_commit (h : t.Site path target beside) {handle : Handle} {content : Bytes}
    {sync : Bool} (prepares : Prepares target beside [] t d.tree)
    (waits : d.waiting[handle]? = some (some beside))
    (stopped : (Replacement.commit ⟨path, handle, content, sync⟩).Interrupted d d') :
    Spares target beside t d'.tree ∨
      d.perform (Replacement.commit ⟨path, handle, content, sync⟩) = (.ok (), d') := by
  have written (bytes : Bytes) : Prepares target beside bytes t (d.fill handle bytes).tree :=
    h.prepares_fill prepares waits sync bytes
  have filled : d.perform (Action.fill handle content sync) = (.ok (), d.fill handle content) := rfl
  have site := h.stirs (written content).toStirs
  have step := site.step_rename_staged (written content).prepared
  have renamed : (d.fill handle content).perform (Action.rename path.staged path) =
      (.ok (), (d.fill handle content).move beside target) := by
    rw [Action.rename, Disk.perform_bind, Disk.perform_ask, step]
    rfl
  have moves : d.perform (do
      Action.fill handle content sync
      Action.rename path.staged path) = (.ok (), (d.fill handle content).move beside target) := by
    rw [Disk.perform_bind, filled]
    exact renamed
  have commits : d.perform (Replacement.commit ⟨path, handle, content, sync⟩) =
      (.ok (), (d.fill handle content).move beside target) := by
    rw [Replacement.commit, Disk.perform_orElse, moves]
  rw [Replacement.commit] at stopped
  rcases stopped.of_orElse with stopped | ⟨_, _, failed, _⟩
  · rcases stopped.of_bind with stopped | ⟨_, _, performed, stopped⟩
    · left
      rcases stopped.of_call with rfl | ⟨bytes, rfl⟩ | rfl
      · exact prepares.toSpares
      · exact (written (content.take bytes)).toSpares
      · exact (written content).toSpares
    · rw [filled] at performed
      cases performed
      rcases stopped.of_call with rfl | impossible | rfl
      · exact .inl (written content).toSpares
      · exact impossible.elim
      · exact .inr (by rw [commits, step])
  · cases moves.symm.trans failed

/-- A file whose replacement is stopped is as it was, or else the replacement is done. -/
theorem of_interrupted_replace (h : d.tree.Site path target beside) {bytes : Bytes} {sync : Bool}
    (stopped : (Replacement.replace path bytes sync).Interrupted d d') :
    Spares target beside d.tree d'.tree ∨
      d.perform (Replacement.replace path bytes sync) = (.ok (), d') := by
  rw [Replacement.replace] at stopped ⊢
  rcases stopped.of_bind with stopped | ⟨r, d₁, started, stopped⟩
  · left
    rw [Replacement.start] at stopped
    exact h.of_interrupted_create stopped.of_bind_pure
  · rw [Disk.perform_bind, started]
    obtain ⟨handle, created, rfl⟩ : ∃ handle, d.perform (Action.create path.staged) =
        (.ok handle, d₁) ∧ r = ⟨path, handle, [], sync⟩ := by
      rw [Replacement.start, Disk.perform_bind] at started
      generalize d.perform (Action.create path.staged) = result at started
      obtain ⟨e | handle, d₂⟩ := result
      · cases started
      · cases started
        exact ⟨handle, rfl, rfl⟩
    obtain ⟨prepares, waits⟩ := h.prepares_of_perform_create created
    exact h.of_interrupted_commit prepares waits stopped

/-- A replacement that is done has put the new content there. -/
theorem stirs_of_perform_replace (h : d.tree.Site path target beside) {bytes : Bytes} {sync : Bool}
    (done : d.perform (Replacement.replace path bytes sync) = (.ok (), d')) :
    Stirs target beside d.tree d'.tree ∧ d'.tree.at? target = some (.file bytes) := by
  have whole : NoLateMoves fun _ _ => False := fun _ _ _ impossible => impossible.elim
  have ensured := (h.ensures_replace whole bytes sync).performUnder (List.forall_mem_nil _)
  rwa [Disk.performUnder_nil, done] at ensured

end FileTree.Site

end FlatDB
