/-
# Making and moving directories

A directory with another in it is made in two steps, the outer one first, where
the outer one's name is free.  Moving a directory to a free name beside it takes
along what is in it.
-/

import FlatDB.Proofs.Disk.Calls

namespace FlatDB

namespace FileTree

namespace Leads

variable {t : FileTree} {p : Path} {q : Place} {outer inner : String}

/-- A free name cannot be gone through. -/
theorem ensure_outer_missing (h : t.Leads p q) (step : Path.IsStep outer)
    (short : isTooLong outer = false) (free : t.at? (outer :: q) = none) (inner : String) :
    ensure (t.start p) (p.names ++ [outer] ++ [inner]) t = (.error .notFound, t) := by
  have walked : t.walk (t.start p) (p.names ++ [outer] ++ [inner]) = .error .notFound := by
    rw [List.append_assoc, walk_append h.directory h.walk, List.singleton_append,
      FileTree.walk, if_neg step.notDot, if_neg step.notDots, short]
    simp [free]
  rw [ensure, walked]

/-- A directory is made under a free name. -/
theorem ensure_outer (h : t.Leads p q) (step : Path.IsStep outer) (short : isTooLong outer = false)
    (free : t.at? (outer :: q) = none) :
    ensure (t.start p) (p.steps ++ [outer]) t = (.ok (), t.put (outer :: q) .directory) := by
  have walked : t.walk (t.start p) (p.steps ++ [outer]) = .ok (outer :: q) := by
    rw [Path.steps, walk_append h.directory (walk_steps h.directory h.walk), walk_singleton step,
      short]
    rfl
  rw [ensure, walked]
  simp only [free]

/-- A directory is made in another. -/
theorem ensure_inner (h : t.Leads p q) (ho : Path.IsStep outer) (hi : Path.IsStep inner)
    (shortOuter : isTooLong outer = false) (shortInner : isTooLong inner = false)
    (directory : t.at? (outer :: q) = some .directory) (free : t.at? (inner :: outer :: q) = none) :
    ensure (t.start p) (p.names ++ [outer] ++ [inner]) t =
      (.ok (), t.put (inner :: outer :: q) .directory) := by
  have walked : t.walk (t.start p) (p.names ++ [outer] ++ [inner]) = .ok (inner :: outer :: q) := by
    rw [List.append_assoc, walk_append h.directory h.walk, List.singleton_append,
      walk_down ho.notDot ho.notDots shortOuter directory, walk_singleton hi, shortInner]
    rfl
  rw [ensure, walked]
  simp only [free]

/-- Making a directory in one that is not there yet makes both. -/
theorem ensureAll_join_join (h : t.Leads p q) (ho : Path.IsStep outer) (hi : Path.IsStep inner)
    (shortOuter : isTooLong outer = false) (shortInner : isTooLong inner = false)
    (free : t.at? (outer :: q) = none) (childless : t.Childless (outer :: q)) :
    t.ensureAll ((p.join outer).join inner) =
      (.ok (), (t.put (outer :: q) .directory).put (inner :: outer :: q) .directory) := by
  have ne := h.ne_nil
  have ne' := Path.toList_join_ne_nil ho ne
  have names : ((p.join outer).join inner).names = p.names ++ [outer] ++ [inner] := by
    rw [Path.names_join hi ne', Path.names_join ho ne]
  have steps : ((p.join outer).join inner).steps.reverse = inner :: outer :: p.steps.reverse := by
    simp [Path.steps_join hi ne', Path.steps_join ho ne]
  have start : t.start ((p.join outer).join inner) = t.start p := by
    rw [FileTree.start, Path.isAbsolute_join hi ne', Path.isAbsolute_join ho ne, FileTree.start]
  -- The tree once the outer directory is there.
  have keeps : t.Keeps (t.put (outer :: q) .directory) := keeps_put_directory (by simp)
  have made : (t.put (outer :: q) .directory).at? (outer :: q) = some .directory := by
    rw [at?_put t (by simp), if_pos rfl]
  have innerFree : (t.put (outer :: q) .directory).at? (inner :: outer :: q) = none := by
    rw [at?_put t (by simp), if_neg (by simp)]
    exact childless [inner] (by simp)
  have missing := h.ensure_outer_missing ho shortOuter free inner
  have first := h.ensure_outer ho shortOuter free
  have second := (h.mono keeps).ensure_inner ho hi shortOuter shortInner made innerFree
  rw [start_eq keeps] at second
  have reversed : (outer :: p.steps.reverse).reverse = p.steps ++ [outer] := by simp
  rw [FileTree.ensureAll, Directories.ensureAll, names, steps, start, Directories.ensureAlong,
    Directories.ensureAlong, reversed]
  simp only [StateT.run, bind, StateT.bind, missing, first]
  exact second

theorem isEmpty_join_join (h : t.Leads p q) (ho : Path.IsStep outer) (hi : Path.IsStep inner) :
    ((p.join outer).join inner).text.isEmpty = false := by
  rw [Bool.eq_false_iff]
  intro e
  exact Path.toList_join_ne_nil hi (Path.toList_join_ne_nil ho h.ne_nil)
    (by rw [String.isEmpty_iff.1 e]; rfl)

theorem refusal?_join_join (h : t.Leads p q) (ho : Path.IsStep outer) (hi : Path.IsStep inner) :
    refusal? ((p.join outer).join inner) =
      if 4096 ≤ (p.join outer).stem + inner.utf8ByteSize then some .nameTooLong else none := by
  have ne := h.ne_nil
  have ne' := Path.toList_join_ne_nil ho ne
  rw [refusal?, Path.contains_null_join hi ne', Path.contains_null_join ho ne, h.contains_null,
    h.isEmpty_join_join ho hi, Path.utf8ByteSize_join hi ne']
  rfl

/-- Both directories are made if their paths are short enough. -/
theorem runs_makeDirectories (h : t.Leads p q) (ho : Path.IsStep outer) (hi : Path.IsStep inner)
    (short : outer.utf8ByteSize ≤ 255) (admits : (p.join outer).Admits inner)
    (free : t.at? (outer :: q) = none) (childless : t.Childless (outer :: q)) :
    (Action.makeDirectories ((p.join outer).join inner)).Runs t (.ok ())
      ((t.put (outer :: q) .directory).put (inner :: outer :: q) .directory) := by
  have whole : ¬ 4096 ≤ (p.join outer).stem + inner.utf8ByteSize := Nat.not_le.2 admits.2
  have shortOuter : isTooLong outer = false := by simpa [isTooLong] using short
  have shortInner : isTooLong inner = false := by simpa [isTooLong] using admits.1
  refine .bind (x := .ok ()) (fun waiting => ⟨waiting, ?_⟩) (.ofReply_ok _ _)
  rw [Disk.perform_ask]
  simp only [Disk.step, h.isEmpty_join_join ho hi, h.refusal?_join_join ho hi, if_neg whole,
    h.ensureAll_join_join ho hi shortOuter shortInner free childless, Bool.false_eq_true, if_false]

/-- Nothing is made if the path as a whole or the first name is too long. -/
theorem runs_makeDirectories_of_not_admits (h : t.Leads p q) (ho : Path.IsStep outer)
    (hi : Path.IsStep inner) (shortInner : inner.utf8ByteSize ≤ 255)
    (long : ¬ (outer.utf8ByteSize ≤ 255 ∧ (p.join outer).Admits inner)) :
    (Action.makeDirectories ((p.join outer).join inner)).Runs t
      (.error (.storage .nameTooLong)) t := by
  refine .bind (x := .error .nameTooLong) (fun waiting => ⟨waiting, ?_⟩) (.ofReply_error _ _)
  rw [Disk.perform_ask]
  by_cases whole : 4096 ≤ (p.join outer).stem + inner.utf8ByteSize
  · simp only [Disk.step, h.isEmpty_join_join ho hi, h.refusal?_join_join ho hi, if_pos whole,
      Bool.false_eq_true, if_false]
  · have tooLong : isTooLong outer = true := by
      simp only [isTooLong, decide_eq_true_eq]
      rw [Path.Admits] at long
      omega
    have ne := h.ne_nil
    have ne' := Path.toList_join_ne_nil ho ne
    have walked : t.walk (t.start ((p.join outer).join inner)) ((p.join outer).join inner).names =
        .error .nameTooLong := by
      rw [FileTree.start, Path.isAbsolute_join hi ne', Path.isAbsolute_join ho ne, ← FileTree.start,
        Path.names_join hi ne', Path.names_join ho ne, List.append_assoc,
        walk_append h.directory h.walk, List.singleton_append, FileTree.walk, if_neg ho.notDot,
        if_neg ho.notDots, if_pos tooLong]
    have tried : ensure (t.start ((p.join outer).join inner)) ((p.join outer).join inner).names t =
        (.error .nameTooLong, t) := by
      rw [ensure, walked]
    have steps : ((p.join outer).join inner).steps.reverse = inner :: outer :: p.steps.reverse := by
      simp [Path.steps_join hi ne', Path.steps_join ho ne]
    have ensured : t.ensureAll ((p.join outer).join inner) = (.error .nameTooLong, t) := by
      rw [FileTree.ensureAll, Directories.ensureAll, steps, Directories.ensureAlong]
      simp only [StateT.run, bind, StateT.bind, tried]
      rfl
    simp only [Disk.step, h.isEmpty_join_join ho hi, h.refusal?_join_join ho hi, if_neg whole,
      ensured, Bool.false_eq_true, if_false]

/-- A directory is moved to a free name beside it. -/
theorem runs_rename_directory (h : t.Leads p q) (ho : Path.IsStep outer) (hi : Path.IsStep inner)
    (ne : outer ≠ inner) (admitsOuter : p.Admits outer) (admitsInner : p.Admits inner)
    (directory : t.at? (outer :: q) = some .directory) (free : t.at? (inner :: q) = none) :
    (Action.rename (p.join outer) (p.join inner)).Runs t (.ok ())
      (t.move (outer :: q) (inner :: q)) := by
  have differ : outer :: q ≠ inner :: q := by simpa using ne
  have dots {n : String} (hn : Path.IsStep n) : Disk.endsInDots (p.join n) = false := by
    simp [Disk.endsInDots, Path.names_join hn h.ne_nil, hn.notDot, hn.notDots]
  have fault : Disk.moveFault? t (outer :: q) (inner :: q) false = none := by
    have across := below?_of_length_eq (p := outer :: q) (q := inner :: q) (by simp) differ
    have back := below?_of_length_eq (p := inner :: q) (q := outer :: q) (by simp) differ.symm
    simp [Disk.moveFault?, directory, differ, across, back, free, Entry.kind]
  have asked : (Action.ask (.rename (p.join outer) (p.join inner))).Runs t (.ok (.ok ()))
      (t.move (outer :: q) (inner :: q)) := by
    intro waiting
    refine ⟨((Disk.mk t waiting).move (outer :: q) (inner :: q)).waiting, ?_⟩
    rw [Disk.perform_ask]
    simp only [Disk.step_rename, Disk.rename, h.place_join ho, h.place_join hi, if_pos admitsOuter,
      if_pos admitsInner, dots ho, dots hi, Path.endsInSlash_join ho h.ne_nil,
      Path.endsInSlash_join hi h.ne_nil, Bool.or_self, Bool.false_eq_true, if_false, fault, differ]
    rfl
  exact asked.bind (.ofReply_ok _ _)

end Leads

end FileTree

end FlatDB
