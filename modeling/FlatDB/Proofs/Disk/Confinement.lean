/-
# Programs that keep to some paths

A program keeps to some paths if every call that makes, writes, moves or removes
anything names these paths only.  A call that writes through a handle names no path,
so it has to be a handle that the program was handed itself, for a file it made at one
of the paths.  All of this is asked of the calls as they come, on the disk each of them
is made on, and whatever mishaps befall them; together with what the program comes to,
because what it calls next may depend on that.

Most parts of a program keep to their paths on every disk.  For these the disk and the
handles need not be followed, only what the parts yield and which condition they keep
up on the value they update.
-/

import FlatDB.Disk.Replacement
import FlatDB.Proofs.Disk.Mishaps

namespace FlatDB

variable {α β σ τ : Type} {within : Path → Prop} {own : List Handle} {d : Disk}

/-! ## Calls -/

/-- Whether a call changes nothing but at some paths and through the handles of the program. -/
def Call.KeepsTo (within : Path → Prop) (own : List Handle) : Call → Prop
  | .kind _ => True
  | .read _ => True
  | .list _ => True
  | .makeDirectories path => within path
  | .create path => within path
  | .fill handle _ _ => handle ∈ own
  | .append path _ _ => within path
  | .truncate path _ => within path
  | .rename source target => within source ∧ within target
  | .remove path => within path
  | .removeTree path => within path

/-- The handle that a reply hands out, if it does. -/
def Call.handed : (c : Call) → c.Reply → List Handle
  | .create _, .ok handle => [handle]
  | _, _ => []

/-! ## Programs -/

namespace Program

/-- Whether a program keeps to some paths, whatever mishaps befall its calls, and comes to
what is required. -/
def Confined (within : Path → Prop) :
    Program α → (α → List Handle → Disk → Prop) → List Handle → Disk → Prop
  | .done a, Q, own, d => Q a own d
  | .call c next, Q, own, d =>
    c.KeepsTo within own ∧
      (next (d.step c).1).Confined within Q (c.handed (d.step c).1 ++ own) (d.step c).2 ∧
      ∀ m : Mishap, (next (c.failed m.fault)).Confined within Q own (d.failing c m.extent)

theorem Confined.mono {p : Program α} {Q Q' : α → List Handle → Disk → Prop}
    (h : p.Confined within Q own d) (weaker : ∀ a own' d', Q a own' d' → Q' a own' d') :
    p.Confined within Q' own d := by
  induction p generalizing own d with
  | done a => exact weaker a own d h
  | call c next ih => exact ⟨h.1, ih _ h.2.1, fun m => ih _ (h.2.2 m)⟩

/-- The second of two programs starts from what the first one comes to. -/
theorem confined_bind {p : Program α} {f : α → Program β} {Q : β → List Handle → Disk → Prop} :
    (p >>= f).Confined within Q own d ↔
      p.Confined within (fun a own' d' => (f a).Confined within Q own' d') own d := by
  induction p generalizing own d with
  | done a => exact Iff.rfl
  | call c next ih => exact and_congr_right fun _ => and_congr (ih _) (forall_congr' fun _ => ih _)

/-- What a program ensures under all mishaps it comes to besides. -/
theorem Confined.and {p : Program α} {Q : α → List Handle → Disk → Prop} {R : α → Disk → Prop}
    (h : p.Confined within Q own d) (ensures : p.Ensures (fun _ _ => True) R d) :
    p.Confined within (fun a own' d' => Q a own' d' ∧ R a d') own d := by
  induction p generalizing own d with
  | done a => exact ⟨h, ensures⟩
  | call c next ih =>
      exact ⟨h.1, ih _ h.2.1 ensures.1, fun m => ih _ (h.2.2 m) (ensures.2 m trivial)⟩

/-- What no call that keeps to the paths breaks holds at the end, whatever mishaps befall the
program, and it comes to what is required. -/
theorem Confined.ensures {F : Tolerance} {p : Program α} {Q : α → List Handle → Disk → Prop}
    {I : List Handle → Disk → Prop}
    (kept : ∀ c own d, c.KeepsTo within own → I own d →
      I (c.handed (d.step c).1 ++ own) (d.step c).2 ∧ ∀ m : Mishap, I own (d.failing c m.extent))
    (h : p.Confined within Q own d) (holds : I own d) :
    p.Ensures F (fun a d' => ∃ own', I own' d' ∧ Q a own' d') d := by
  induction p generalizing own d with
  | done a => exact ⟨own, holds, h⟩
  | call c next ih =>
      obtain ⟨keeps, made, failed⟩ := h
      have after := kept c own d keeps holds
      exact ⟨ih _ made after.1, fun m _ => ih _ (failed m) (after.2 m)⟩

end Program

/-! ## Actions -/

namespace Action

/-- Whether an action keeps to some paths and comes to what is required. -/
def Confined (within : Path → Prop) (a : Action α)
    (Q : Except Error α → List Handle → Disk → Prop) (own : List Handle) (d : Disk) : Prop :=
  Program.Confined within (ExceptT.run a) Q own d

namespace Confined

variable {a : Action α} {Q Q' : Except Error α → List Handle → Disk → Prop}

theorem mono (h : a.Confined within Q own d) (weaker : ∀ x own' d', Q x own' d' → Q' x own' d') :
    a.Confined within Q' own d :=
  Program.Confined.mono h weaker

theorem pure {x : α} (h : Q (.ok x) own d) : (Pure.pure x : Action α).Confined within Q own d :=
  h

theorem throw {e : Error} (h : Q (.error e) own d) :
    (MonadExcept.throw e : Action α).Confined within Q own d :=
  h

/-- The second of two actions is needed only where the first has not failed. -/
theorem bind {f : α → Action β} {R : Except Error β → List Handle → Disk → Prop}
    (first : a.Confined within Q own d)
    (next : ∀ x own' d', Q (.ok x) own' d' → (f x).Confined within R own' d')
    (failed : ∀ e own' d', Q (.error e) own' d' → R (.error e) own' d') :
    (a >>= f).Confined within R own d := by
  refine Program.confined_bind.2 (Program.Confined.mono first fun x own' d' holds => ?_)
  cases x with
  | ok x => exact next x own' d' holds
  | error e => exact failed e own' d' holds

/-- What follows a call follows its reply, or the reply of its failing. -/
theorem call {c : Call} {f : c.Reply → Action α} (keeps : c.KeepsTo within own)
    (made : (f (d.step c).1).Confined within Q (c.handed (d.step c).1 ++ own) (d.step c).2)
    (failed : ∀ m : Mishap,
      (f (c.failed m.fault)).Confined within Q own (d.failing c m.extent)) :
    (Action.ask c >>= f).Confined within Q own d :=
  ⟨keeps, made, failed⟩

theorem call_kind {path : Path} {f : Option Kind → Action α}
    (made : (f (d.step (.kind path)).1).Confined within Q own d)
    (failed : (f none).Confined within Q own d) :
    (Action.kind path >>= f).Confined within Q own d := by
  refine ⟨trivial, ?_, fun m => ?_⟩
  · rw [d.step_kind_snd]
    exact made
  · rw [d.failing_kind]
    exact failed

theorem call_read {path : Path} {f : Except Fault Source → Action α}
    (made : (f (d.step (.read path)).1).Confined within Q own d)
    (failed : ∀ fault, (f (.error fault)).Confined within Q own d) :
    (Action.ask (.read path) >>= f).Confined within Q own d := by
  refine ⟨trivial, ?_, fun m => ?_⟩
  · rw [d.step_read_snd]
    exact made
  · rw [d.failing_read]
    exact failed m.fault

/-- The handle of a file that is made is the program's own. -/
theorem create {path : Path} (inside : within path) :
    (Action.create path).Confined within
      (fun x own' _ => ∀ handle, x = .ok handle → handle ∈ own') own d := by
  refine call inside ?_ fun m => throw nofun
  generalize (d.step (.create path)).1 = reply
  cases reply with
  | error fault => exact throw nofun
  | ok handle =>
      refine pure fun handle' same => ?_
      rw [← Except.ok.inj same]
      exact List.mem_append_left own (List.mem_singleton_self handle)

/-- The outcome of an action is never a failure. -/
theorem outcome {Q : Except Error (Except Error α) → List Handle → Disk → Prop}
    (h : a.Confined within (fun x => Q (.ok x)) own d) : a.outcome.Confined within Q own d := by
  show Program.Confined within (ExceptT.run (ExceptT.lift a.run)) Q own d
  rw [ExceptT.run_lift, ← bind_pure_comp]
  exact Program.confined_bind.2 h

/-- The cleanup starts from what a failure leaves, and its own failure counts for nothing. -/
theorem orElse {cleanup : Action Unit} (first : a.Confined within Q own d)
    (made : ∀ x own' d', Q (.ok x) own' d' → Q' (.ok x) own' d')
    (cleaned : ∀ e own' d', Q (.error e) own' d' →
      cleanup.Confined within (fun _ => Q' (.error e)) own' d') :
    (a.orElse cleanup).Confined within Q' own d := by
  unfold Action.orElse
  refine bind (Q := fun x own' d' => ∃ y, x = .ok y ∧ Q y own' d')
    (outcome (first.mono fun x _ _ holds => ⟨x, rfl, holds⟩)) ?_ ?_
  · rintro (e | x) own' d' ⟨_, ⟨⟩, holds⟩
    case ok => exact pure (made x own' d' holds)
    case error =>
        refine bind (Q := fun x own'' d'' => (∃ y, x = .ok y) ∧ Q' (.error e) own'' d'')
          (outcome ((cleaned e own' d' holds).mono fun x _ _ holds => ⟨⟨x, rfl⟩, holds⟩)) ?_ ?_
        · exact fun _ _ _ holds => throw holds.2
        · rintro _ _ _ ⟨⟨_, impossible⟩, -⟩
          cases impossible
  · rintro _ _ _ ⟨_, impossible, -⟩
    cases impossible

end Confined

/-- Whether an action keeps to some paths on every disk and yields only values as required. -/
def KeepsTo (within : Path → Prop) (a : Action α) (P : α → Prop) : Prop :=
  ∀ own d, a.Confined within (fun x _ _ => ∀ v, x = .ok v → P v) own d

namespace KeepsTo

variable {a : Action α} {P P' : α → Prop}

theorem mono (h : a.KeepsTo within P) (weaker : ∀ v, P v → P' v) : a.KeepsTo within P' :=
  fun own d => (h own d).mono fun _ _ _ holds v same => weaker v (holds v same)

theorem pure {x : α} (h : P x) : (Pure.pure x : Action α).KeepsTo within P :=
  fun _ _ => Confined.pure fun _ same => Except.ok.inj same ▸ h

theorem throw (e : Error) : (MonadExcept.throw e : Action α).KeepsTo within P :=
  fun _ _ => Confined.throw nofun

theorem ofResult {result : Except Error α} (h : ∀ v, result = .ok v → P v) :
    (Action.ofResult result).KeepsTo within P :=
  fun _ _ => h

/-- A check makes no call. -/
theorem check (result : Except Error α) : (Action.ofResult result).KeepsTo within fun _ => True :=
  ofResult fun _ _ => trivial

theorem ofReply (reply : Except Fault α) :
    (Action.ofReply reply).KeepsTo within fun v => reply = .ok v := by
  cases reply with
  | ok v => exact pure rfl
  | error fault => exact throw _

theorem ask {c : Call} (keeps : ∀ own, c.KeepsTo within own) :
    (Action.ask c).KeepsTo within fun _ => True :=
  fun own _ => ⟨keeps own, fun _ _ => trivial, fun _ _ _ => trivial⟩

theorem bind {f : α → Action β} {R : β → Prop} (first : a.KeepsTo within P)
    (next : ∀ v, P v → (f v).KeepsTo within R) : (a >>= f).KeepsTo within R :=
  fun own d => (first own d).bind (fun v own' d' holds => next v (holds v rfl) own' d')
    fun _ _ _ _ => nofun

/-- A call whose reply may be a fault. -/
theorem call {c : Call} {f : c.Reply → Except Fault α} (keeps : ∀ own, c.KeepsTo within own) :
    (Action.ask c >>= fun reply => Action.ofReply (f reply)).KeepsTo within fun _ => True :=
  bind (ask keeps) fun _ _ => (ofReply _).mono fun _ _ => trivial

theorem orElse {cleanup : Action Unit} {P' : Unit → Prop} (first : a.KeepsTo within P)
    (cleaned : cleanup.KeepsTo within P') : (a.orElse cleanup).KeepsTo within P :=
  fun own d => (first own d).orElse (fun _ _ _ holds => holds) fun _ own' d' _ =>
    (cleaned own' d').mono fun _ _ _ _ => nofun

theorem outcome (h : a.KeepsTo within P) : a.outcome.KeepsTo within fun _ => True :=
  fun own d => Confined.outcome ((h own d).mono fun _ _ _ _ _ _ => trivial)

theorem forM {l : List α} {f : α → Action PUnit}
    (each : ∀ x ∈ l, (f x).KeepsTo within fun _ => True) :
    (l.forM f).KeepsTo within fun _ => True := by
  induction l with
  | nil => exact pure trivial
  | cons x l ih =>
      exact bind (each x List.mem_cons_self) fun _ _ =>
        ih fun y mem => each y (List.mem_cons_of_mem x mem)

/-- What every round of a loop keeps up holds of what the loop yields. -/
theorem foldlM {l : List β} {f : α → β → Action α} {x : α} (holds : P x)
    (round : ∀ x y, P x → (f x y).KeepsTo within P) : (l.foldlM f x).KeepsTo within P := by
  induction l generalizing x with
  | nil => exact pure holds
  | cons y l ih => exact bind (round x y holds) fun x' holds' => ih holds'

theorem filterM {l : List α} {test : α → Action Bool}
    (each : ∀ x, (test x).KeepsTo within fun _ => True) :
    (l.filterM test).KeepsTo within fun _ => True := by
  have auxiliary (kept : List α) : (l.filterAuxM test kept).KeepsTo within fun _ => True := by
    induction l generalizing kept with
    | nil => exact pure trivial
    | cons x l ih => exact bind (each x) fun _ _ => ih _
  exact bind (auxiliary []) fun _ _ => pure trivial

end KeepsTo

end Action

/-! ## Updates -/

namespace Update

variable {s : σ}

/-- Whether an update keeps to some paths and comes to what is required. -/
def Confined (within : Path → Prop) (u : Update σ α)
    (Q : Except Error α → σ → List Handle → Disk → Prop) (s : σ) (own : List Handle) (d : Disk) :
    Prop :=
  Program.Confined within (StateT.run (ExceptT.run u) s) (fun done => Q done.1 done.2) own d

namespace Confined

variable {u : Update σ α} {Q Q' : Except Error α → σ → List Handle → Disk → Prop}

theorem mono (h : u.Confined within Q s own d)
    (weaker : ∀ x s' own' d', Q x s' own' d' → Q' x s' own' d') : u.Confined within Q' s own d :=
  Program.Confined.mono h fun done => weaker done.1 done.2

theorem pure {x : α} (h : Q (.ok x) s own d) :
    (Pure.pure x : Update σ α).Confined within Q s own d :=
  h

theorem throw {e : Error} (h : Q (.error e) s own d) :
    (MonadExcept.throw e : Update σ α).Confined within Q s own d :=
  h

/-- The second of two updates is needed only where the first has not failed. -/
theorem bind {f : α → Update σ β} {R : Except Error β → σ → List Handle → Disk → Prop}
    (first : u.Confined within Q s own d)
    (next : ∀ x s' own' d', Q (.ok x) s' own' d' → (f x).Confined within R s' own' d')
    (failed : ∀ e s' own' d', Q (.error e) s' own' d' → R (.error e) s' own' d') :
    (u >>= f).Confined within R s own d := by
  show Program.Confined within (StateT.run (ExceptT.run (u >>= f)) s) _ own d
  rw [ExceptT.run_bind, StateT.run_bind]
  refine Program.confined_bind.2 (Program.Confined.mono first fun done own' d' holds => ?_)
  obtain ⟨x | x, s'⟩ := done
  · exact failed x s' own' d' holds
  · exact next x s' own' d' holds

/-- Reading the value first. -/
theorem bind_get {f : σ → Update σ β} {R : Except Error β → σ → List Handle → Disk → Prop}
    (next : (f s).Confined within R s own d) :
    (MonadState.get >>= f : Update σ β).Confined within R s own d :=
  next

/-- Replacing the value first. -/
theorem bind_set {f : PUnit → Update σ β} {R : Except Error β → σ → List Handle → Disk → Prop}
    {s' : σ} (next : (f ⟨⟩).Confined within R s' own d) :
    (MonadStateOf.set s' >>= f : Update σ β).Confined within R s own d :=
  next

/-- An action leaves the value of an update alone. -/
theorem ofAction {a : Action α} (h : a.Confined within (fun x => Q x s) own d) :
    (liftM a : Update σ α).Confined within Q s own d := by
  show Program.Confined within (StateT.run (StateT.lift (ExceptT.run a)) s) _ own d
  rw [StateT.run_lift]
  exact Program.confined_bind.2 h

/-- An update of a part. -/
theorem onPart {u : Update τ α} {part : σ → τ} {replace : τ → σ → σ}
    (h : u.Confined within (fun x t => Q x (replace t s)) (part s) own d) :
    (u.onPart part replace).Confined within Q s own d :=
  Program.confined_bind.2 h

end Confined

/-- Whether an update keeps to some paths on every disk, as long as a condition holds of its
value, keeps this condition up, and yields only values as required. -/
def KeepsTo (within : Path → Prop) (I : σ → Prop) (u : Update σ α) (P : α → Prop) : Prop :=
  ∀ s own d, I s → u.Confined within (fun x s' _ _ => I s' ∧ ∀ v, x = .ok v → P v) s own d

namespace KeepsTo

variable {I : σ → Prop} {u : Update σ α} {P : α → Prop}

theorem pure {x : α} (h : P x) : (Pure.pure x : Update σ α).KeepsTo within I P :=
  fun _ _ _ holds => Confined.pure ⟨holds, fun _ same => Except.ok.inj same ▸ h⟩

theorem throw (e : Error) : (MonadExcept.throw e : Update σ α).KeepsTo within I P :=
  fun _ _ _ holds => Confined.throw ⟨holds, nofun⟩

theorem bind {f : α → Update σ β} {R : β → Prop} (first : u.KeepsTo within I P)
    (next : ∀ v, P v → (f v).KeepsTo within I R) : (u >>= f).KeepsTo within I R :=
  fun s own d holds => (first s own d holds).bind
    (fun v s' own' d' done => next v (done.2 v rfl) s' own' d' done.1)
    fun _ _ _ _ done => ⟨done.1, nofun⟩

theorem bind_get {f : σ → Update σ β} {R : β → Prop}
    (next : ∀ s, I s → (f s).KeepsTo within I R) :
    (MonadState.get >>= f : Update σ β).KeepsTo within I R :=
  fun s own d holds => Confined.bind_get (next s holds s own d holds)

theorem bind_set {f : PUnit → Update σ β} {R : β → Prop} {s' : σ} (holds : I s')
    (next : (f ⟨⟩).KeepsTo within I R) :
    (MonadStateOf.set s' >>= f : Update σ β).KeepsTo within I R :=
  fun _ own d _ => Confined.bind_set (next s' own d holds)

theorem ofAction {a : Action α} (h : a.KeepsTo within P) :
    (liftM a : Update σ α).KeepsTo within I P :=
  fun _ own d holds => Confined.ofAction ((h own d).mono fun _ _ _ done => ⟨holds, done⟩)

theorem onPart {J : τ → Prop} {u : Update τ α} {part : σ → τ} {replace : τ → σ → σ}
    (h : u.KeepsTo within J P) (has : ∀ s, I s → J (part s))
    (keeps : ∀ s x, I s → J x → I (replace x s)) :
    (u.onPart part replace).KeepsTo within I P :=
  fun s own d holds => Confined.onPart ((h (part s) own d (has s holds)).mono
    fun _ x _ _ done => ⟨keeps s x holds done.1, done.2⟩)

end KeepsTo

end Update

/-! ## Replacing a file -/

/-- Writing through a handle of the program. -/
theorem Action.Confined.fill {handle : Handle} (mem : handle ∈ own) (content : Bytes)
    (sync : Bool) (d : Disk) :
    (Action.fill handle content sync).Confined within (fun _ _ _ => True) own d := by
  refine call mem ?_ fun m => throw trivial
  rw [Disk.step_fill]
  exact pure trivial

/-- Replacing a file changes nothing but it and what is beside it. -/
theorem Replacement.keepsTo_replace {target : Path} (inside : within target)
    (beside : within target.staged) (bytes : Bytes) (sync : Bool) :
    (replace target bytes sync).KeepsTo within fun _ => True := by
  have cleared (r : Replacement) (same : r.target = target) :
      r.clearAway.KeepsTo within fun _ => True := by
    refine .bind (.outcome (.call (c := .remove r.target.staged) fun _ => ?_))
      fun _ _ => .pure trivial
    rw [same]
    exact beside
  have moved : (Action.rename target.staged target).KeepsTo within fun _ => True :=
    .call (c := .rename target.staged target) fun _ => ⟨beside, inside⟩
  intro own d
  rw [replace, start, bind_assoc]
  simp only [pure_bind]
  refine .bind (.create beside) (fun handle own' d' handed => ?_) fun _ _ _ _ _ => nofun
  refine .orElse (Q := fun _ _ _ => True) ?_ (fun _ _ _ _ _ _ => trivial)
    fun _ own'' d'' _ => (cleared _ rfl own'' d'').mono fun _ _ _ _ => nofun
  exact .bind (.fill (handed handle rfl) bytes sync d')
    (fun _ own'' d'' _ => (moved own'' d'').mono fun _ _ _ _ => trivial) fun _ _ _ _ => trivial

end FlatDB
