/-
# Calls on what is in a directory

What each call and each small sequence of calls does when it is made on a name in
a directory that a path leads to.  Names that are too long are refused with
nothing changed; everything else succeeds if what it needs is there, and changes
no place but the one it is about.
-/

import FlatDB.Disk.Replacement
import FlatDB.Proofs.Disk.Places
import FlatDB.Proofs.Disk.Runs
import FlatDB.Proofs.Disk.Trees

namespace FlatDB

namespace FileTree

namespace Leads

variable {α : Type} {t t' : FileTree} {p : Path} {q : Place} {name : String}

/-! ## Looking -/

/-- There is a directory where a path leads to one. -/
theorem runs_kind (h : t.Leads p q) : (Action.kind p).Runs t (.ok (some .directory)) t := by
  refine .ask fun waiting => ?_
  simp only [Disk.step, h.look]
  rfl

/-- What there is under a name. -/
theorem runs_kind_join (h : t.Leads p q) (step : Path.IsStep name) :
    (Action.kind (p.join name)).Runs t
      (.ok (if p.Admits name then (t.at? (name :: q)).map Entry.kind else none)) t := by
  refine .ask fun waiting => ?_
  by_cases admits : p.Admits name
  · simp only [Disk.step, h.look_join step admits, if_pos admits]
  · simp only [Disk.step, h.look_join_of_not_admits step admits, if_neg admits]

/-- A file can be read. -/
theorem runs_ask_read (h : t.Leads p q) (step : Path.IsStep name) (admits : p.Admits name)
    {content : Bytes} (file : t.at? (name :: q) = some (.file content)) :
    (Action.ask (.read (p.join name))).Runs t (.ok (.ok (.content content))) t := by
  refine .ask fun waiting => ?_
  simp only [Disk.step, h.look_join step admits, file]

/-- What is not there cannot be read. -/
theorem runs_ask_read_of_absent (h : t.Leads p q) (step : Path.IsStep name) (admits : p.Admits name)
    (absent : t.at? (name :: q) = none) :
    (Action.ask (.read (p.join name))).Runs t (.ok (.error .notFound)) t := by
  refine .ask fun waiting => ?_
  simp only [Disk.step, h.look_join step admits, absent]

/-- What is in a directory is listed. -/
theorem runs_list (h : t.Leads p q) :
    (Action.list p).Runs t (.ok ((t.children q).map fun child => (child.1, child.2.kind))) t := by
  refine .bind (x := .ok _) (.ask fun waiting => ?_) (.ofReply_ok _ t)
  simp only [Disk.step, h.look]

/-! ## Writing in place -/

theorem lookFile_join (h : t.Leads p q) (step : Path.IsStep name) (admits : p.Admits name)
    {content : Bytes} (file : t.at? (name :: q) = some (.file content)) :
    t.lookFile (p.join name) = .ok (name :: q, content) := by
  rw [lookFile]
  rw [h.look_join step admits, file]
  rfl

/-- Writing at the end of a file. -/
theorem runs_append (h : t.Leads p q) (step : Path.IsStep name) (admits : p.Admits name)
    {content : Bytes} (file : t.at? (name :: q) = some (.file content)) (more : Bytes) (sync : Bool)
      :
    (Action.append (p.join name) more sync).Runs t (.ok ())
      (t.put (name :: q) (.file (content ++ more))) := by
  refine .bind (x := .ok ()) (fun waiting => ⟨waiting, ?_⟩) (.ofReply_ok _ _)
  rw [Disk.perform_ask]
  simp only [Disk.step, h.lookFile_join step admits file]
  rfl

/-- Emptying a file. -/
theorem runs_truncate (h : t.Leads p q) (step : Path.IsStep name) (admits : p.Admits name)
    {content : Bytes} (file : t.at? (name :: q) = some (.file content)) (sync : Bool) :
    (Action.truncate (p.join name) sync).Runs t (.ok ()) (t.put (name :: q) (.file [])) := by
  refine .bind (x := .ok ()) (fun waiting => ⟨waiting, ?_⟩) (.ofReply_ok _ _)
  rw [Disk.perform_ask]
  simp only [Disk.step, h.lookFile_join step admits file]
  rfl

/-- Removing a directory with all that is in it. -/
theorem runs_removeTree (h : t.Leads p q) (step : Path.IsStep name) (admits : p.Admits name)
    (directory : t.at? (name :: q) = some .directory) :
    (Action.removeTree (p.join name)).Runs t (.ok ()) (t.prune (name :: q)) := by
  have asked : (Action.ask (.removeTree (p.join name))).Runs t (.ok (.ok ()))
    (t.prune (name :: q)) := by
    intro waiting
    refine ⟨((Disk.mk t waiting).prune (name :: q)).waiting, ?_⟩
    rw [Disk.perform_ask]
    simp only [Disk.step, h.look_join step admits, directory]
    rfl
  exact asked.bind (.ofReply_ok _ _)

/-- There is nothing to remove under a name that is free or too long. -/
theorem runs_removeTree_of_absent (h : t.Leads p q) (step : Path.IsStep name)
    (absent : t.at? (name :: q) = none) :
    ∃ fault, (Action.removeTree (p.join name)).Runs t (.error (.storage fault)) t := by
  by_cases admits : p.Admits name
  · refine ⟨.notFound, .bind (x := .error .notFound) (fun waiting => ⟨waiting, ?_⟩)
      (.ofReply_error _ _)⟩
    rw [Disk.perform_ask]
    simp only [Disk.step, h.look_join step admits, absent]
  · refine ⟨.nameTooLong,
      .bind (x := .error .nameTooLong) (fun waiting => ⟨waiting, ?_⟩) (.ofReply_error _ _)⟩
    rw [Disk.perform_ask]
    simp only [Disk.step, h.look_join_of_not_admits step admits]

/-! ## New files -/

/-- Creating a file where there is no directory. -/
theorem perform_create (h : t.Leads p q) (step : Path.IsStep name) (admits : p.Admits name)
    (notDirectory : t.at? (name :: q) ≠ some .directory) (waiting : List (Option Place)) :
    (Disk.mk t waiting).perform (Action.create (p.join name)) =
      (.ok waiting.length, ⟨t.put (name :: q) (.file []), waiting ++ [some (name :: q)]⟩) := by
  have made : (Disk.mk t waiting).step (.create (p.join name)) =
      (.ok waiting.length, ⟨t.put (name :: q) (.file []), waiting ++ [some (name :: q)]⟩) := by
    simp only [Disk.step, h.look_join step admits, Path.endsInSlash_join step h.ne_nil,
      Bool.false_eq_true, if_false]
  rw [Action.create, Disk.perform_bind, Disk.perform_ask, made]
  rfl

/-- Creating a file and leaving it empty. -/
theorem runs_create_bind (h : t.Leads p q) (step : Path.IsStep name) (admits : p.Admits name)
    (notDirectory : t.at? (name :: q) ≠ some .directory) {f : Handle → Action α}
      {r : Except Error α}
    (next : ∀ handle, (f handle).Runs (t.put (name :: q) (.file [])) r t') :
    (Action.create (p.join name) >>= f).Runs t r t' := by
  intro waiting
  obtain ⟨waiting', after⟩ := next waiting.length (waiting ++ [some (name :: q)])
  exact ⟨waiting', by rw [Disk.perform_bind, h.perform_create step admits notDirectory]; exact
    after⟩

/-- No file is created under a name that is too long. -/
theorem runs_create_of_not_admits (h : t.Leads p q) (step : Path.IsStep name)
    (admits : ¬ p.Admits name) :
    (Action.create (p.join name)).Runs t (.error (.storage .nameTooLong)) t := by
  refine .bind (x := .error .nameTooLong) (fun waiting => ⟨waiting, ?_⟩) (.ofReply_error _ _)
  rw [Disk.perform_ask]
  simp only [Disk.step, h.look_join_of_not_admits step admits]

/-- Writing to a file that is waiting for it. -/
theorem perform_fill {waiting : List (Option Place)} {handle : Handle} {place : Place}
    (here : waiting[handle]? = some (some place)) (empty : t.at? place = some (.file []))
    (content : Bytes) (sync : Bool) :
    (Disk.mk t waiting).perform (Action.fill handle content sync) =
      (.ok (), ⟨t.put place (.file content), waiting.set handle none⟩) := by
  rw [Action.fill, Disk.perform_bind, Disk.perform_ask]
  simp only [Disk.step_fill, Disk.fill, here, empty, List.drop_nil, List.append_nil]
  rfl

/-- Writing to the file that was created last. -/
theorem perform_fill_created {place : Place} (ne : place ≠ []) (waiting : List (Option Place))
    (content : Bytes) (sync : Bool) :
    (Disk.mk (t.put place (.file [])) (waiting ++ [some place])).perform
        (Action.fill waiting.length content sync) =
      (.ok (), ⟨t.put place (.file content), waiting ++ [none]⟩) := by
  have empty : (t.put place (.file [])).at? place = some (.file []) := by
    rw [at?_put t ne, if_pos rfl]
  rw [perform_fill (by simp) empty, put_put]
  simp

/-- Creating a file and writing it. -/
theorem runs_create_fill (h : t.Leads p q) (step : Path.IsStep name) (admits : p.Admits name)
    (notDirectory : t.at? (name :: q) ≠ some .directory) (content : Bytes) (sync : Bool) :
    (do Action.fill (← Action.create (p.join name)) content sync).Runs t (.ok ())
      (t.put (name :: q) (.file content)) := by
  intro waiting
  refine ⟨waiting ++ [none], ?_⟩
  rw [Disk.perform_bind, h.perform_create step admits notDirectory]
  exact perform_fill_created (by simp) waiting content sync

end Leads

end FileTree

end FlatDB
