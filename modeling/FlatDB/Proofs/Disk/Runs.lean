/-
# What actions and updates do to a tree

A disk has a tree of files and the files that wait to be written.  Which files
wait matters only between creating a file and writing it, so what an operation
as a whole does is said of trees alone: from one tree it leads, with some result,
to another tree, whatever waits when it starts.  The rules below build such
statements up along the programs, one for each way of building them.
-/

import FlatDB.Disk.Perform

namespace FlatDB

variable {α β σ τ : Type}

/-- Performing an action on a tree gives this result and leaves this tree. -/
def Action.Runs (a : Action α) (t : FileTree) (r : Except Error α) (t' : FileTree) : Prop :=
  ∀ waiting, ∃ waiting', (Disk.mk t waiting).perform a = (r, ⟨t', waiting'⟩)

/-- Performing an update on a value and a tree gives this result and leaves this value
and this tree. -/
def Update.Runs (u : Update σ α) (s : σ) (t : FileTree) (r : Except Error α) (s' : σ)
    (t' : FileTree) : Prop :=
  ∀ waiting, ∃ waiting', (Disk.mk t waiting).update s u = (r, s', ⟨t', waiting'⟩)

/-! ## Actions -/

namespace Action

/-- Performing an action on a disk comes to what it runs to on the disk's tree. -/
theorem Runs.of_perform {a : Action α} {d d' : Disk} {r x : Except Error α} {t' : FileTree}
    (h : a.Runs d.tree r t') (performed : d.perform a = (x, d')) : x = r ∧ d'.tree = t' := by
  obtain ⟨waiting', ran⟩ := h d.waiting
  cases performed.symm.trans ran
  exact ⟨rfl, rfl⟩

namespace Runs

variable {a : Action α} {f : α → Action β} {t t' t'' : FileTree} {r : Except Error β}

theorem pure (x : α) (t : FileTree) : (Pure.pure x : Action α).Runs t (.ok x) t :=
  fun waiting => ⟨waiting, rfl⟩

theorem throw (e : Error) (t : FileTree) : (MonadExcept.throw e : Action α).Runs t (.error e) t :=
  fun waiting => ⟨waiting, rfl⟩

theorem ofResult (result : Except Error α) (t : FileTree) :
    (Action.ofResult result).Runs t result t :=
  fun waiting => ⟨waiting, rfl⟩

theorem ofResult_of_eq {result r : Except Error α} (h : result = r) (t : FileTree) :
    (Action.ofResult result).Runs t r t :=
  h ▸ ofResult result t

theorem ofReply_ok (x : α) (t : FileTree) : (Action.ofReply (.ok x)).Runs t (.ok x) t :=
  fun waiting => ⟨waiting, rfl⟩

theorem ofReply_error (fault : Fault) (t : FileTree) :
    (Action.ofReply (.error fault) : Action α).Runs t (.error (.storage fault)) t :=
  fun waiting => ⟨waiting, rfl⟩

/-- After a value the next action runs. -/
theorem bind {x : α} (first : a.Runs t (.ok x) t') (next : (f x).Runs t' r t'') :
    (a >>= f).Runs t r t'' := by
  intro waiting
  obtain ⟨waiting', h⟩ := first waiting
  obtain ⟨waiting'', h'⟩ := next waiting'
  exact ⟨waiting'', by rw [Disk.perform_bind, h]; exact h'⟩

/-- After an error nothing else runs. -/
theorem bind_error {e : Error} (first : a.Runs t (.error e) t') : (a >>= f).Runs t
    (.error e) t' := by
  intro waiting
  obtain ⟨waiting', h⟩ := first waiting
  exact ⟨waiting', by rw [Disk.perform_bind, h]⟩

/-- A call that leaves the disk as it is. -/
theorem ask {c : Call} {reply : c.Reply}
    (h : ∀ waiting, (Disk.mk t waiting).step c = (reply, ⟨t, waiting⟩)) :
    (Action.ask c).Runs t (.ok reply) t := by
  intro waiting
  refine ⟨waiting, ?_⟩
  rw [Disk.perform_ask, h waiting]

/-- What comes to a value needs no cleanup. -/
theorem orElse {x : α} (cleanup : Action Unit) (h : a.Runs t (.ok x) t') :
    (a.orElse cleanup).Runs t (.ok x) t' := by
  intro waiting
  obtain ⟨waiting', h⟩ := h waiting
  exact ⟨waiting', by rw [Disk.perform_orElse, h]⟩

/-- The cleanup runs where the action failed. -/
theorem orElse_error {e : Error} {cleanup : Action Unit} {r : Except Error Unit}
    (h : a.Runs t (.error e) t') (after : cleanup.Runs t' r t'') :
    (a.orElse cleanup).Runs t (.error e) t'' := by
  intro waiting
  obtain ⟨waiting', h⟩ := h waiting
  obtain ⟨waiting'', h'⟩ := after waiting'
  exact ⟨waiting'', by rw [Disk.perform_orElse, h]; simp only [h']⟩

/-- A filter whose every test answers and leaves the tree as it is. -/
theorem filterM {l : List α} {test : α → Action Bool} {keep : α → Bool}
    (h : ∀ a ∈ l, (test a).Runs t (.ok (keep a)) t) :
    (l.filterM test).Runs t (.ok (l.filter keep)) t := by
  have gathered : ∀ (l done : List α), (∀ a ∈ l, (test a).Runs t (.ok (keep a)) t) →
      (List.filterAuxM test l done).Runs t (.ok ((l.filter keep).reverse ++ done)) t := by
    intro l
    induction l with
    | nil => exact fun done _ => .pure done t
    | cons a l ih =>
        intro done h
        refine .bind (h a List.mem_cons_self) ?_
        have rest := ih (cond (keep a) (a :: done) done) fun b mem =>
          h b (List.mem_cons_of_mem a mem)
        cases keeps : keep a with
        | true => simpa [keeps, List.filter_cons] using rest
        | false => simpa [keeps, List.filter_cons] using rest
  refine .bind (gathered l [] h) ?_
  simpa using Runs.pure (l.filter keep) t

end Runs

end Action

/-! ## Updates -/

namespace Update

namespace Runs

variable {u : Update σ α} {f : α → Update σ β} {s s' s'' : σ} {t t' t'' : FileTree}
  {r : Except Error β}

theorem pure (x : α) (s : σ) (t : FileTree) : (Pure.pure x : Update σ α).Runs s t (.ok x) s t :=
  fun waiting => ⟨waiting, rfl⟩

theorem throw (e : Error) (s : σ) (t : FileTree) :
    (MonadExcept.throw e : Update σ α).Runs s t (.error e) s t :=
  fun waiting => ⟨waiting, rfl⟩

/-- After a value the next update runs. -/
theorem bind {x : α} (first : u.Runs s t (.ok x) s' t') (next : (f x).Runs s' t' r s'' t'') :
    (u >>= f).Runs s t r s'' t'' := by
  intro waiting
  obtain ⟨waiting', h⟩ := first waiting
  obtain ⟨waiting'', h'⟩ := next waiting'
  exact ⟨waiting'', by rw [Disk.update_bind, h]; exact h'⟩

/-- After an error nothing else runs. -/
theorem bind_error {e : Error} (first : u.Runs s t (.error e) s' t') :
    (u >>= f).Runs s t (.error e) s' t' := by
  intro waiting
  obtain ⟨waiting', h⟩ := first waiting
  exact ⟨waiting', by rw [Disk.update_bind, h]⟩

/-- Getting the value leaves everything as it is. -/
theorem bind_get {f : σ → Update σ β} (next : (f s).Runs s t r s' t') :
    (get >>= f).Runs s t r s' t' :=
  bind (fun waiting => ⟨waiting, rfl⟩) next

/-- Setting the value replaces it. -/
theorem bind_set {f : PUnit → Update σ β} (next : (f ⟨⟩).Runs s' t r s'' t') :
    ((MonadState.set s' : Update σ PUnit) >>= f).Runs s t r s'' t' :=
  bind (fun waiting => ⟨waiting, rfl⟩) next

theorem set (s s' : σ) (t : FileTree) :
    (MonadState.set s' : Update σ PUnit).Runs s t (.ok ⟨⟩) s' t :=
  fun waiting => ⟨waiting, rfl⟩

/-- An action leaves the value of an update alone. -/
theorem ofAction {a : Action α} {r : Except Error α} (h : a.Runs t r t') (s : σ) :
    (liftM a : Update σ α).Runs s t r s t' := by
  intro waiting
  obtain ⟨waiting', h⟩ := h waiting
  exact ⟨waiting', by rw [Disk.update_liftM, h]⟩

/-- An update of a part replaces the part. -/
theorem onPart {part : σ → τ} {replace : τ → σ → σ} {u : Update τ α} {p : τ}
    {r : Except Error α} (h : u.Runs (part s) t r p t') :
    (u.onPart part replace).Runs s t r (replace p s) t' := by
  intro waiting
  obtain ⟨waiting', h⟩ := h waiting
  exact ⟨waiting', by rw [Disk.update_onPart, h]⟩

end Runs

end Update

end FlatDB
