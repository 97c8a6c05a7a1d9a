/-
# Programs under mishaps

What a program comes to when mishaps may befall its calls is not one result but
many.  A program ensures something if it comes to it however its calls fail, as
long as every mishap is one that is tolerated.  That is a condition on the disk
the program starts from, given call by call, so programs that are made of others
ensure what their parts do: the rules below follow the ways in which actions and
updates are made.  At the end stands what the condition is for: whatever the
outlooks, running the program comes to what it ensures.
-/

import FlatDB.Disk.Mishap

namespace FlatDB

/-- Which mishaps of which calls are to be reckoned with. -/
abbrev Tolerance := Call → Mishap → Prop

/-- Whether an outlook holds no other mishaps than those that are tolerated. -/
def Outlook.Within (o : Outlook) (F : Tolerance) : Prop :=
  ∀ c m, o c = some m → F c m

/-! ## Programs -/

namespace Program

variable {α β : Type} {F : Tolerance}

/-- Whatever tolerated mishaps befall a program, what it comes to is as required. -/
def Ensures (F : Tolerance) : Program α → (α → Disk → Prop) → Disk → Prop
  | .done a, Q, d => Q a d
  | .call c next, Q, d =>
    (next (d.step c).1).Ensures F Q (d.step c).2 ∧
      ∀ m, F c m → (next (c.failed m.fault)).Ensures F Q (d.failing c m.extent)

theorem Ensures.mono {p : Program α} {Q Q' : α → Disk → Prop} {d : Disk} (h : p.Ensures F Q d)
    (weaker : ∀ a d', Q a d' → Q' a d') : p.Ensures F Q' d := by
  induction p generalizing d with
  | done a => exact weaker a d h
  | call c next ih => exact ⟨ih _ h.1, fun m befalls => ih _ (h.2 m befalls)⟩

theorem Ensures.and {p : Program α} {Q R : α → Disk → Prop} {d : Disk} (h : p.Ensures F Q d)
    (h' : p.Ensures F R d) : p.Ensures F (fun a d' => Q a d' ∧ R a d') d := by
  induction p generalizing d with
  | done a => exact ⟨h, h'⟩
  | call c next ih => exact ⟨ih _ h.1 h'.1, fun m befalls => ih _ (h.2 m befalls) (h'.2 m befalls)⟩

/-- The second of two programs starts from what the first one ensures. -/
theorem ensures_bind {p : Program α} {f : α → Program β} {Q : β → Disk → Prop} {d : Disk} :
    (p >>= f).Ensures F Q d ↔ p.Ensures F (fun a d' => (f a).Ensures F Q d') d := by
  induction p generalizing d with
  | done a => exact Iff.rfl
  | call c next ih =>
      exact and_congr (ih _) (forall_congr' fun m => imp_congr_right fun _ => ih _)

/-- A run comes to what its program ensures. -/
theorem Ensures.runUnder {p : Program α} {Q : α → Disk → Prop} {d : Disk} (h : p.Ensures F Q d)
    {outlooks : List Outlook} (within : ∀ o ∈ outlooks, o.Within F) :
    Q (p.runUnder outlooks d).1 (p.runUnder outlooks d).2 := by
  induction p generalizing d outlooks with
  | done a => exact h
  | call c next ih =>
      cases outlooks with
      | nil => exact ih _ h.1 within
      | cons o outlooks =>
          have later := fun o' mem => within o' (List.mem_cons_of_mem o mem)
          simp only [Program.runUnder, Disk.stepUnder]
          cases befalls : o c with
          | none => exact ih _ h.1 later
          | some m => exact ih _ (h.2 m (within o List.mem_cons_self c m befalls)) later

end Program

/-- What is made of the result of a program makes no difference to how it runs. -/
theorem Program.runUnder_bind_done {α β : Type} (p : Program α) (f : α → β)
    (outlooks : List Outlook) (d : Disk) :
    (p >>= fun a => .done (f a)).runUnder outlooks d =
      (f (p.runUnder outlooks d).1, (p.runUnder outlooks d).2) := by
  induction p generalizing outlooks d with
  | done a => rfl
  | call c next ih =>
      cases outlooks with
      | nil => exact ih _ _ _
      | cons o outlooks => exact ih _ _ _

/-! ## Calls that only ask -/

namespace Disk

theorem perform_read {d : Disk} {path : Path} {source : Source}
    (read : (d.step (.read path)).1 = .ok source) :
    d.perform (Action.read path) = (.ok source, d) := by
  have asked : d.perform (Action.ask (.read path)) = (.ok (.ok source), d) :=
    Prod.ext (congrArg Except.ok read) (d.step_read_snd path)
  rw [Action.read, perform_bind, asked]
  rfl

/-- Asking what is at a path changes nothing, failing or not. -/
theorem failing_kind (d : Disk) (path : Path) (extent : Extent) :
    d.failing (.kind path) extent = d := by
  cases extent <;> simp [failing, Call.cut?, step_kind_snd]

/-- Reading changes nothing, failing or not. -/
theorem failing_read (d : Disk) (path : Path) (extent : Extent) :
    d.failing (.read path) extent = d := by
  cases extent <;> simp [failing, Call.cut?, step_read_snd]

end Disk

/-! ## Actions -/

namespace Action

variable {α β : Type} {F : Tolerance} {d : Disk}

/-- Whatever tolerated mishaps befall an action, what it comes to is as required. -/
def Ensures (F : Tolerance) (a : Action α) (Q : Except Error α → Disk → Prop) (d : Disk) : Prop :=
  Program.Ensures F (ExceptT.run a) Q d

namespace Ensures

variable {a : Action α} {Q Q' : Except Error α → Disk → Prop}

theorem mono (h : a.Ensures F Q d) (weaker : ∀ x d', Q x d' → Q' x d') : a.Ensures F Q' d :=
  Program.Ensures.mono h weaker

theorem and (h : a.Ensures F Q d) (h' : a.Ensures F Q' d) :
    a.Ensures F (fun x d' => Q x d' ∧ Q' x d') d :=
  Program.Ensures.and h h'

theorem performUnder (h : a.Ensures F Q d) {outlooks : List Outlook}
    (within : ∀ o ∈ outlooks, o.Within F) :
    Q (d.performUnder outlooks a).1 (d.performUnder outlooks a).2 :=
  Program.Ensures.runUnder h within

theorem pure {x : α} (h : Q (.ok x) d) : (Pure.pure x : Action α).Ensures F Q d :=
  h

theorem throw {e : Error} (h : Q (.error e) d) : (MonadExcept.throw e : Action α).Ensures F Q d :=
  h

theorem ofResult {result : Except Error α} (h : Q result d) : (ofResult result).Ensures F Q d :=
  h

/-- The second of two actions is needed only where the first has not failed. -/
theorem bind {f : α → Action β} {R : Except Error β → Disk → Prop} (first : a.Ensures F Q d)
    (next : ∀ x d', Q (.ok x) d' → (f x).Ensures F R d')
    (failed : ∀ e d', Q (.error e) d' → R (.error e) d') : (a >>= f).Ensures F R d := by
  refine Program.ensures_bind.2 (Program.Ensures.mono first fun x d' holds => ?_)
  cases x with
  | ok x => exact next x d' holds
  | error e => exact failed e d' holds

/-- What follows a call follows its reply, or the reply of its failing. -/
theorem call {c : Call} {f : c.Reply → Action α} (made : (f (d.step c).1).Ensures F Q (d.step c).2)
    (failed : ∀ m, F c m → (f (c.failed m.fault)).Ensures F Q (d.failing c m.extent)) :
    (Action.ask c >>= f).Ensures F Q d :=
  ⟨made, failed⟩

theorem kind {path : Path} {Q : Except Error (Option Kind) → Disk → Prop}
    (found : ∀ kind, Q (.ok kind) d) : (Action.kind path).Ensures F Q d := by
  refine ⟨?_, fun m _ => ?_⟩
  · rw [d.step_kind_snd]
    exact found _
  · rw [d.failing_kind]
    exact found _

theorem call_kind {path : Path} {f : Option Kind → Action α}
    (made : (f (d.step (.kind path)).1).Ensures F Q d)
    (failed : ∀ m, F (.kind path) m → (f none).Ensures F Q d) :
    (Action.kind path >>= f).Ensures F Q d := by
  refine ⟨?_, fun m befalls => ?_⟩
  · rw [d.step_kind_snd]
    exact made
  · rw [d.failing_kind]
    exact failed m befalls

theorem call_read {path : Path} {f : Except Fault Source → Action α}
    (made : (f (d.step (.read path)).1).Ensures F Q d)
    (failed : ∀ m, F (.read path) m → (f (.error m.fault)).Ensures F Q d) :
    (Action.ask (.read path) >>= f).Ensures F Q d := by
  refine ⟨?_, fun m befalls => ?_⟩
  · rw [d.step_read_snd]
    exact made
  · rw [d.failing_read]
    exact failed m befalls

theorem ofReply {reply : Except Fault α} (made : ∀ x, reply = .ok x → Q (.ok x) d)
    (failed : ∀ fault, reply = .error fault → Q (.error (.storage fault)) d) :
    (ofReply reply).Ensures F Q d := by
  cases reply with
  | ok x => exact made x rfl
  | error fault => exact failed fault rfl

/-- The outcome of an action is never a failure. -/
theorem outcome {Q : Except Error (Except Error α) → Disk → Prop}
    (h : a.Ensures F (fun x d' => Q (.ok x) d') d) : a.outcome.Ensures F Q d := by
  show Program.Ensures F (ExceptT.run (ExceptT.lift a.run)) Q d
  rw [ExceptT.run_lift, ← bind_pure_comp]
  exact Program.ensures_bind.2 h

/-- The cleanup starts from what a failure leaves, and its own failure counts for nothing. -/
theorem orElse {cleanup : Action Unit} (first : a.Ensures F Q d)
    (made : ∀ x d', Q (.ok x) d' → Q' (.ok x) d')
    (cleaned : ∀ e d', Q (.error e) d' → cleanup.Ensures F (fun _ d'' => Q' (.error e) d'') d') :
    (a.orElse cleanup).Ensures F Q' d := by
  unfold Action.orElse
  refine bind (Q := fun x d' => ∃ y, x = .ok y ∧ Q y d')
    (outcome (first.mono fun x d' holds => ⟨x, rfl, holds⟩)) ?_ ?_
  · rintro (e | x) d' ⟨_, ⟨⟩, holds⟩
    case ok => exact pure (made x d' holds)
    case error =>
        refine bind (Q := fun x d'' => (∃ y, x = .ok y) ∧ Q' (.error e) d'')
          (outcome ((cleaned e d' holds).mono fun x d'' holds => ⟨⟨x, rfl⟩, holds⟩)) ?_ ?_
        · exact fun _ d'' holds => throw holds.2
        · rintro _ _ ⟨⟨_, impossible⟩, -⟩
          cases impossible
  · rintro _ _ ⟨_, impossible, -⟩
    cases impossible

end Ensures

end Action

namespace Disk

variable {α β : Type} {d : Disk} {outlooks : List Outlook}

/-- An action after which nothing is left to do but to return. -/
theorem performUnder_bind_pure (d : Disk) (outlooks : List Outlook) (a : Action α) (r : β) :
    d.performUnder outlooks (a >>= fun _ => pure r) =
      ((d.performUnder outlooks a).1.map fun _ => r, (d.performUnder outlooks a).2) := by
  have run : ExceptT.run (a >>= fun _ => (pure r : Action β)) =
      ExceptT.run a >>= fun x => .done (x.map fun _ => r) := by
    rw [ExceptT.run_bind]
    congr 1
    funext x
    cases x <;> rfl
  rw [performUnder, run, Program.runUnder_bind_done]
  rfl

/-- Reading takes one outlook, which must not make it fail, and changes nothing. -/
theorem performUnder_read_bind {path : Path} {source : Source} {f : Source → Action α}
    (read : (d.step (.read path)).1 = .ok source)
    (readable : ∀ o ∈ outlooks.head?, o (.read path) = none) :
    d.performUnder outlooks (Action.read path >>= f) = d.performUnder outlooks.tail (f source) := by
  have step : d.step (.read path) = (.ok source, d) := Prod.ext read (d.step_read_snd path)
  have split : Action.read path >>= f =
      Action.ask (.read path) >>= fun reply => Action.ofReply reply >>= f := by
    rw [Action.read, bind_assoc]
  rw [split]
  cases outlooks with
  | nil =>
      show Program.runUnder (ExceptT.run (Action.ofReply (d.step (.read path)).1 >>= f)) []
        (d.step (.read path)).2 = _
      rw [step]
      rfl
  | cons o outlooks =>
      have none : o (.read path) = none := readable o rfl
      show Program.runUnder (ExceptT.run (Action.ofReply (d.stepUnder o (.read path)).1 >>= f))
        outlooks (d.stepUnder o (.read path)).2 = _
      rw [stepUnder, none]
      simp only [step]
      rfl

end Disk

/-! ## Actions that fail with their calls -/

/-- Any program ensures that it comes to something. -/
theorem Program.ensures_true {α : Type} {F : Tolerance} (p : Program α) (d : Disk) :
    p.Ensures F (fun _ _ => True) d := by
  induction p generalizing d with
  | done a => trivial
  | call c next ih => exact ⟨ih _ _, fun m _ => ih _ _⟩

namespace Action

variable {α β : Type} {F : Tolerance}

/-- Whether an action fails if any of its calls does: what it comes to despite mishaps, it
has come to without any. -/
def Strict (F : Tolerance) (a : Action α) : Prop :=
  ∀ d, a.Ensures F (fun x d' => ∀ v, x = .ok v → d.perform a = (.ok v, d')) d

namespace Strict

variable {a : Action α}

theorem pure (x : α) : (Pure.pure x : Action α).Strict F :=
  fun _ => .pure fun _ same => by rw [← Except.ok.inj same]; rfl

theorem bind {f : α → Action β} (first : a.Strict F) (next : ∀ v, (f v).Strict F) :
    (a >>= f).Strict F := by
  refine fun d => .bind (first d) (fun v d' done => ?_) fun _ _ _ _ => nofun
  refine (next v d').mono fun x d'' done' w same => ?_
  rw [Disk.perform_bind, done v rfl]
  exact done' w same

/-- A call whose reply may be a fault, which it is when the call fails. -/
theorem call {c : Call} {f : c.Reply → Except Fault α}
    (fails : ∀ fault, ∃ fault', f (c.failed fault) = .error fault') :
    (Action.ask c >>= fun reply => Action.ofReply (f reply)).Strict F := by
  refine fun d => .call (.ofReply (fun v replied w same => ?_) fun _ _ => nofun) fun m _ => ?_
  · rw [Disk.perform_bind, Disk.perform_ask, ← Except.ok.inj same]
    dsimp only
    rw [replied, Disk.perform_ofReply_ok]
  · obtain ⟨fault, replied⟩ := fails m.fault
    rw [replied]
    exact .throw nofun

/-- A cleanup makes no difference to what an action comes to. -/
theorem orElse (first : a.Strict F) (cleanup : Action Unit) : (a.orElse cleanup).Strict F := by
  refine fun d => .orElse (first d) (fun v d' done w same => ?_) fun e d' _ => ?_
  · rw [Disk.perform_orElse, done v rfl, Except.ok.inj same]
  · exact (Program.ensures_true (ExceptT.run cleanup) d').mono fun _ _ _ _ => nofun

end Strict

end Action

/-! ## Actions that no mishap befalls -/

namespace Action

variable {α β : Type} {F : Tolerance} {d : Disk}

/-- Whether an action comes to what it comes to without mishaps, because none of those that are
tolerated befalls the calls it makes. -/
def Steady (F : Tolerance) (a : Action α) (d : Disk) : Prop :=
  a.Ensures F (fun x d' => d.perform a = (x, d')) d

namespace Steady

theorem pure (x : α) (d : Disk) : (Pure.pure x : Action α).Steady F d :=
  Ensures.pure rfl

theorem throw (e : Error) (d : Disk) : (MonadExcept.throw e : Action α).Steady F d :=
  Ensures.throw rfl

theorem ofResult (result : Except Error α) (d : Disk) : (ofResult result).Steady F d :=
  Ensures.ofResult rfl

theorem ofReply (reply : Except Fault α) (d : Disk) : (ofReply reply).Steady F d := by
  cases reply with
  | ok x => exact pure x d
  | error fault => exact throw _ d

theorem ask {c : Call} (never : ∀ m, ¬ F c m) (d : Disk) : (ask c).Steady F d :=
  ⟨rfl, fun m befalls => absurd befalls (never m)⟩

theorem bind {a : Action α} {f : α → Action β} (first : a.Steady F d)
    (next : ∀ x d', d.perform a = (.ok x, d') → (f x).Steady F d') : (a >>= f).Steady F d := by
  apply Ensures.bind first
  · intro x d' done
    apply (next x d' done).mono
    intro y d'' done'
    rw [Disk.perform_bind, done]
    exact done'
  · intro e d' failed
    rw [Disk.perform_bind, failed]

end Steady

end Action

/-! ## Actions that fail with their calls only -/

namespace Action

variable {α β : Type}

/-- Whether an action fails with nothing but faults of storage, whatever befalls it. -/
def OnlyFaults (a : Action α) : Prop :=
  ∀ (F : Tolerance) d, a.Ensures F (fun x _ => ∀ e, x = .error e → ∃ fault, e = .storage fault) d

namespace OnlyFaults

variable {a : Action α}

theorem pure (x : α) : (Pure.pure x : Action α).OnlyFaults :=
  fun _ _ => Ensures.pure nofun

theorem ofReply (reply : Except Fault α) : (Action.ofReply reply).OnlyFaults :=
  fun _ _ => Ensures.ofReply (fun _ _ => nofun) fun fault _ _ same =>
    ⟨fault, (Except.error.inj same).symm⟩

theorem bind {f : α → Action β} (first : a.OnlyFaults) (next : ∀ v, (f v).OnlyFaults) :
    (a >>= f).OnlyFaults :=
  fun F d => (first F d).bind (fun v d' _ => next v F d') fun _ _ fault _ same =>
    Except.error.inj same ▸ fault _ rfl

/-- A call whose reply may be a fault. -/
theorem call {c : Call} {f : c.Reply → Except Fault α} :
    (Action.ask c >>= fun reply => Action.ofReply (f reply)).OnlyFaults :=
  fun F _ => .call (ofReply _ F _) fun _ _ => ofReply _ F _

theorem orElse (first : a.OnlyFaults) (cleanup : Action Unit) : (a.orElse cleanup).OnlyFaults := by
  intro F d
  apply (first F d).orElse
  · exact fun _ _ _ => nofun
  · intro e d' fault
    exact (Program.ensures_true (ExceptT.run cleanup) d').mono fun _ _ _ e' same =>
      Except.error.inj same ▸ fault e rfl

theorem forM {l : List β} {f : β → Action PUnit} (each : ∀ x, (f x).OnlyFaults) :
    (l.forM f).OnlyFaults := by
  induction l with
  | nil => exact pure PUnit.unit
  | cons x l ih => exact bind (each x) fun _ => ih

end OnlyFaults

end Action

/-! ## Updates -/

namespace Update

variable {σ τ α β : Type} {F : Tolerance} {d : Disk} {s : σ}

/-- Whatever tolerated mishaps befall an update, what it comes to is as required. -/
def Ensures (F : Tolerance) (u : Update σ α) (Q : Except Error α → σ → Disk → Prop) (s : σ)
    (d : Disk) : Prop :=
  Program.Ensures F (StateT.run (ExceptT.run u) s) (fun done d' => Q done.1 done.2 d') d

namespace Ensures

variable {u : Update σ α} {Q Q' : Except Error α → σ → Disk → Prop}

theorem mono (h : u.Ensures F Q s d) (weaker : ∀ x s' d', Q x s' d' → Q' x s' d') :
    u.Ensures F Q' s d :=
  Program.Ensures.mono h fun done d' => weaker done.1 done.2 d'

theorem updateUnder (h : u.Ensures F Q s d) {outlooks : List Outlook}
    (within : ∀ o ∈ outlooks, o.Within F) :
    Q (d.updateUnder outlooks s u).1 (d.updateUnder outlooks s u).2.1
      (d.updateUnder outlooks s u).2.2 :=
  Program.Ensures.runUnder h within

theorem pure {x : α} (h : Q (.ok x) s d) : (Pure.pure x : Update σ α).Ensures F Q s d :=
  h

theorem throw {e : Error} (h : Q (.error e) s d) :
    (MonadExcept.throw e : Update σ α).Ensures F Q s d :=
  h

/-- The second of two updates is needed only where the first has not failed. -/
theorem bind {f : α → Update σ β} {R : Except Error β → σ → Disk → Prop} (first : u.Ensures F Q s d)
    (next : ∀ x s' d', Q (.ok x) s' d' → (f x).Ensures F R s' d')
    (failed : ∀ e s' d', Q (.error e) s' d' → R (.error e) s' d') :
    (u >>= f).Ensures F R s d := by
  show Program.Ensures F (StateT.run (ExceptT.run (u >>= f)) s) _ d
  rw [ExceptT.run_bind, StateT.run_bind]
  refine Program.ensures_bind.2 (Program.Ensures.mono first fun done d' holds => ?_)
  obtain ⟨x | x, s'⟩ := done
  · exact failed x s' d' holds
  · exact next x s' d' holds

/-- If nothing is left to be done but to return, a failure leaves what the update leaves. -/
theorem bind_pure {f : α → β} {R : Error → Disk → Prop}
    (first : u.Ensures F (fun x _ d' => ∀ e, x = .error e → R e d') s d) :
    (u >>= fun x => Pure.pure (f x)).Ensures F (fun x _ d' => ∀ e, x = .error e → R e d') s d :=
  bind first (fun _ _ _ _ => pure nofun) fun e _ _ left _ same => Except.error.inj same ▸ left e rfl

/-- Reading the value first. -/
theorem bind_get {f : σ → Update σ β} {R : Except Error β → σ → Disk → Prop}
    (next : (f s).Ensures F R s d) : (MonadState.get >>= f : Update σ β).Ensures F R s d :=
  next

/-- Replacing the value first. -/
theorem bind_set {f : PUnit → Update σ β} {R : Except Error β → σ → Disk → Prop} {s' : σ}
    (next : (f ⟨⟩).Ensures F R s' d) : (MonadStateOf.set s' >>= f : Update σ β).Ensures F R s d :=
  next

/-- An action leaves the value of an update alone. -/
theorem ofAction {a : Action α} (h : a.Ensures F (fun x d' => Q x s d') d) :
    (liftM a : Update σ α).Ensures F Q s d := by
  show Program.Ensures F (StateT.run (StateT.lift (ExceptT.run a)) s) _ d
  rw [StateT.run_lift]
  exact Program.ensures_bind.2 h

/-- An update of a part. -/
theorem onPart {u : Update τ α} {part : σ → τ} {replace : τ → σ → σ}
    (h : u.Ensures F (fun x t d' => Q x (replace t s) d') (part s) d) :
    (u.onPart part replace).Ensures F Q s d :=
  Program.ensures_bind.2 h

end Ensures

end Update

end FlatDB
