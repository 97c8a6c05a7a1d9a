/-
# Replacing a file in a directory

A replacement that can be prepared beside its target succeeds, and all it does to
the tree is to put the new content at the target.  If the name it is to be
prepared under is too long, it is refused before anything is written.
-/

import FlatDB.Proofs.Disk.Calls

namespace FlatDB

/-- The name under which the replacement of a file is prepared. -/
def stagedName (name : String) : String :=
  name ++ ".swp"

theorem isStep_stagedName {name : String} (step : Path.IsStep name) :
    Path.IsStep (stagedName name) := by
  refine Path.isStep_of_length ?_ ?_ ?_
  · simp [stagedName]
  · simp [stagedName, step.noSlash]
  · simp [stagedName, step.noNull]

theorem stagedName_ne (name : String) : stagedName name ≠ name := by
  intro e
  have length := congrArg String.length e
  simp [stagedName] at length

/-- Where a file can be prepared there is room for its own name. -/
theorem Path.Admits.of_staged {p : Path} {name : String} (h : p.Admits (stagedName name)) :
    p.Admits name := by
  have size : (stagedName name).utf8ByteSize = name.utf8ByteSize + 4 := by
    rw [stagedName, String.utf8ByteSize_append]
    rfl
  have admitted := h
  unfold Admits at admitted ⊢
  omega

/-- A joined path ends in a name that may be moved. -/
theorem Disk.endsInDots_join {p : Path} {name : String} (step : Path.IsStep name)
    (ne : p.text.toList ≠ []) : endsInDots (p.join name) = false := by
  simp [endsInDots, Path.names_join step ne, step.notDot, step.notDots]

namespace FileTree

namespace Leads

variable {t t' : FileTree} {parent : Path} {directory name : String} {q : Place}

/-- What is prepared beside a file takes its place. -/
theorem perform_rename_staged (h : t.Leads (parent.join directory) q)
    (step : Path.IsStep name) (admits : (parent.join directory).Admits (stagedName name))
    {content : Bytes} (prepared : t.at? (stagedName name :: q) = some (.file content))
    (notDirectory : t.at? (name :: q) ≠ some .directory) (waiting : List (Option Place)) :
    ∃ waiting', (Disk.mk t waiting).perform
        (Action.rename ((parent.join directory).join (stagedName name))
          ((parent.join directory).join name)) =
      (.ok (), ⟨t.move (stagedName name :: q) (name :: q), waiting'⟩) := by
  have staged := isStep_stagedName step
  have differ : stagedName name :: q ≠ name :: q := by simp [stagedName_ne]
  have fault : Disk.moveFault? t (stagedName name :: q) (name :: q) false = none := by
    have across := below?_of_length_eq (p := stagedName name :: q) (q := name :: q) rfl differ
    have back := below?_of_length_eq (p := name :: q) (q := stagedName name :: q) rfl differ.symm
    simp only [Disk.moveFault?, prepared, differ, across, back, Entry.kind, Bool.false_and]
    cases found : t.at? (name :: q) with
    | none => rfl
    | some entry =>
        cases entry with
        | file old => rfl
        | directory => exact absurd found notDirectory
  refine ⟨((Disk.mk t waiting).move (stagedName name :: q) (name :: q)).waiting, ?_⟩
  rw [Action.rename, Disk.perform_bind, Disk.perform_ask]
  simp only [Disk.step_rename, Disk.rename, h.place_join staged, h.place_join step, if_pos admits,
    if_pos admits.of_staged, Disk.endsInDots_join staged h.ne_nil,
    Disk.endsInDots_join step h.ne_nil, Path.endsInSlash_join staged h.ne_nil,
    Path.endsInSlash_join step h.ne_nil, Bool.or_self, Bool.false_eq_true, if_false, fault, differ]
  rfl

/-- Replacing a file puts the new content there, and that is all. -/
theorem runs_replace (h : t.Leads (parent.join directory) q) (hd : Path.IsStep directory)
    (ne : parent.text.toList ≠ []) (step : Path.IsStep name)
    (admits : (parent.join directory).Admits (stagedName name))
    (free : t.at? (stagedName name :: q) = none) (freeBelow : t.Childless (stagedName name :: q))
    (notDirectory : t.at? (name :: q) ≠ some .directory) (childless : t.Childless (name :: q))
    (bytes : Bytes) (sync : Bool) :
    (Replacement.replace ((parent.join directory).join name) bytes sync).Runs t (.ok ())
      (t.put (name :: q) (.file bytes)) := by
  have staged := isStep_stagedName step
  have path : ((parent.join directory).join name).staged =
      (parent.join directory).join (stagedName name) :=
    Path.staged_join_join hd step ne
  have differ : stagedName name :: q ≠ name :: q := by simp [stagedName_ne]
  have vacant : t.at? (stagedName name :: q) ≠ some .directory := by rw [free]; simp
  -- The tree between writing the new content and moving it.
  have prepared : (t.put (stagedName name :: q) (.file bytes)).at? (stagedName name :: q) =
      some (.file bytes) := by
    rw [at?_put t (by simp), if_pos rfl]
  have target : (t.put (stagedName name :: q) (.file bytes)).at? (name :: q) ≠ some .directory := by
    rw [at?_put t (by simp), if_neg differ.symm]
    exact notDirectory
  have leads := h.mono (keeps_put (by simp) vacant (.file bytes))
  intro waiting
  obtain ⟨waiting', moved⟩ := leads.perform_rename_staged step admits prepared target
    (waiting ++ [none])
  refine ⟨waiting', ?_⟩
  have move : (t.put (stagedName name :: q) (.file bytes)).move (stagedName name :: q) (name :: q) =
      t.put (name :: q) (.file bytes) :=
    move_put (by simp) (by simp) free freeBelow childless (.file bytes)
  unfold Replacement.replace Replacement.start Replacement.commit
  rw [path]
  simp only [Disk.perform_bind, h.perform_create staged admits vacant, Disk.perform_pure,
    Replacement.write, List.nil_append, path, Disk.perform_orElse,
    perform_fill_created (List.cons_ne_nil _ _) waiting bytes sync, moved, move]

/-- Under a name that is too long no replacement is prepared. -/
theorem runs_replace_of_not_admits (h : t.Leads (parent.join directory) q)
    (hd : Path.IsStep directory) (ne : parent.text.toList ≠ []) (step : Path.IsStep name)
    (admits : ¬ (parent.join directory).Admits (stagedName name)) (bytes : Bytes) (sync : Bool) :
    (Replacement.replace ((parent.join directory).join name) bytes sync).Runs t
      (.error (.storage .nameTooLong)) t := by
  unfold Replacement.replace Replacement.start
  rw [Path.staged_join_join hd step ne]
  exact .bind_error (.bind_error (h.runs_create_of_not_admits (isStep_stagedName step) admits))

end Leads

end FileTree

end FlatDB
