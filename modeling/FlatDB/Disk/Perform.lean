/-
# Actions and updates on a disk

Performing an action on a disk gives its result and the disk afterwards; an
update also takes and gives the value it works on.  The equations below say what
this comes to for each way of building actions and updates, so that what an
operation does can be worked out without looking into the programs behind it.
In particular nothing is rolled back by a failure: the disk, and the value of an
update, are what they were when it happened.
-/

import FlatDB.Disk.Action
import FlatDB.Disk.Run

namespace FlatDB

namespace Disk

variable {σ τ α β : Type}

/-- Perform an action. -/
def perform (d : Disk) (a : Action α) : Except Error α × Disk :=
  Program.run (ExceptT.run a) d

/-- Perform an update of a value. -/
def update (d : Disk) (s : σ) (u : Update σ α) : Except Error α × σ × Disk :=
  let ((result, s'), d') := Program.run (StateT.run (ExceptT.run u) s) d
  (result, s', d')

/-! ## Actions -/

@[simp]
theorem perform_pure (d : Disk) (a : α) : d.perform (pure a) = (.ok a, d) := rfl

@[simp]
theorem perform_throw (d : Disk) (e : Error) :
    d.perform (throw e : Action α) = (.error e, d) := rfl

/-- An action goes on from where the one before it stopped, unless that failed. -/
@[simp]
theorem perform_bind (d : Disk) (a : Action α) (f : α → Action β) :
    d.perform (a >>= f) =
      match d.perform a with
      | (.ok x, d') => d'.perform (f x)
      | (.error e, d') => (.error e, d') := by
  show Program.run (ExceptT.run (a >>= f)) d = _
  rw [ExceptT.run_bind, Program.run_bind]
  simp only [perform]
  rcases Program.run (ExceptT.run a) d with ⟨x | x, d'⟩ <;> rfl

/-- An action that comes to a value does so through a value of its first part. -/
theorem perform_bind_eq_ok {d : Disk} {a : Action α} {f : α → Action β} {b : β}
    (h : (d.perform (a >>= f)).1 = .ok b) :
    ∃ x, (d.perform a).1 = .ok x ∧ ((d.perform a).2.perform (f x)).1 = .ok b := by
  rw [perform_bind] at h
  generalize d.perform a = done at h ⊢
  obtain ⟨e | x, d'⟩ := done
  · cases h
  · exact ⟨_, rfl, h⟩

@[simp]
theorem perform_ask (d : Disk) (c : Call) :
    d.perform (Action.ask c) = (.ok (d.step c).1, (d.step c).2) := rfl

@[simp]
theorem perform_ofResult (d : Disk) (result : Except Error α) :
    d.perform (Action.ofResult result) = (result, d) := rfl

@[simp]
theorem perform_ofReply_ok (d : Disk) (a : α) :
    d.perform (Action.ofReply (.ok a)) = (.ok a, d) := rfl

@[simp]
theorem perform_ofReply_error (d : Disk) (fault : Fault) :
    d.perform (Action.ofReply (.error fault) : Action α) = (.error (.storage fault), d) := rfl

/-- Asking for the outcome of an action does what the action does, and never fails. -/
@[simp]
theorem perform_outcome (d : Disk) (a : Action α) :
    d.perform a.outcome = (.ok (d.perform a).1, (d.perform a).2) := by
  show Program.run (ExceptT.run (ExceptT.lift a.run)) d = _
  rw [ExceptT.run_lift, ← bind_pure_comp, Program.run_bind]
  rfl

/-- The cleanup comes after a failure only, and the failure stays. -/
theorem perform_orElse (d : Disk) (a : Action α) (cleanup : Action Unit) :
    d.perform (a.orElse cleanup) =
      match d.perform a with
      | (.ok x, d') => (.ok x, d')
      | (.error e, d') => (.error e, (d'.perform cleanup).2) := by
  unfold Action.orElse
  rw [perform_bind, perform_outcome]
  rcases d.perform a with ⟨x | x, d'⟩
  · simp
  · simp

/-! ## Updates -/

@[simp]
theorem update_pure (d : Disk) (s : σ) (a : α) : d.update s (pure a) = (.ok a, s, d) := rfl

@[simp]
theorem update_throw (d : Disk) (s : σ) (e : Error) :
    d.update s (throw e : Update σ α) = (.error e, s, d) := rfl

@[simp]
theorem update_get (d : Disk) (s : σ) : d.update s (get : Update σ σ) = (.ok s, s, d) := rfl

@[simp]
theorem update_set (d : Disk) (s s' : σ) :
    d.update s (set s' : Update σ PUnit) = (.ok ⟨⟩, s', d) := rfl

/-- An update goes on from where the one before it stopped, unless that failed. -/
@[simp]
theorem update_bind (d : Disk) (s : σ) (u : Update σ α) (f : α → Update σ β) :
    d.update s (u >>= f) =
      match d.update s u with
      | (.ok x, s', d') => d'.update s' (f x)
      | (.error e, s', d') => (.error e, s', d') := by
  unfold update
  rw [ExceptT.run_bind, StateT.run_bind, Program.run_bind]
  rcases Program.run (StateT.run (ExceptT.run u) s) d with ⟨⟨x | x, s'⟩, d'⟩ <;> rfl

/-- An action leaves the value of an update alone. -/
@[simp]
theorem update_ofAction (d : Disk) (s : σ) (a : Action α) :
    d.update s (Update.ofAction a) = ((d.perform a).1, s, (d.perform a).2) := by
  show (let ((result, s'), d') := Program.run (StateT.run (StateT.lift (ExceptT.run a)) s) d
    (result, s', d')) = _
  rw [StateT.run_lift, Program.run_bind]
  rfl

@[simp]
theorem update_liftM (d : Disk) (s : σ) (a : Action α) :
    d.update s (liftM a : Update σ α) = ((d.perform a).1, s, (d.perform a).2) :=
  update_ofAction d s a

/-- An update of a part replaces the part by what became of it, failure or not. -/
@[simp]
theorem update_onPart (d : Disk) (s : σ) (part : σ → τ) (replace : τ → σ → σ)
    (u : Update τ α) :
    d.update s (u.onPart part replace) =
      match d.update (part s) u with
      | (result, t, d') => (result, replace t s, d') := by
  unfold update Update.onPart
  rw [ExceptT.run_mk, StateT.run, Program.run_bind]
  rcases Program.run (StateT.run (ExceptT.run u) (part s)) d with ⟨⟨x, t⟩, d'⟩
  rfl

end Disk

end FlatDB
