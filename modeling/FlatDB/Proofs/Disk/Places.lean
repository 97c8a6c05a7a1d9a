/-
# Where the paths of a directory lead

A path that leads to a directory leads there as long as the directories on the
way stay.  What is in the directory is then found under the path joined with its
name, unless the name or the whole path is too long.
-/

import FlatDB.Disk.Run
import FlatDB.Proofs.Disk.Paths
import FlatDB.Proofs.Result

namespace FlatDB

namespace FileTree

/-- Whether every directory of one tree is one of the other, and relative paths start
from the same. -/
structure Keeps (t t' : FileTree) : Prop where
  here : t'.here = t.here
  directories : ∀ place, t.at? place = some .directory → t'.at? place = some .directory

theorem Keeps.refl (t : FileTree) : t.Keeps t :=
  ⟨rfl, fun _ h => h⟩

theorem Keeps.trans {t t' t'' : FileTree} (h : t.Keeps t') (h' : t'.Keeps t'') : t.Keeps t'' :=
  ⟨h'.here.trans h.here, fun place found => h'.directories place (h.directories place found)⟩

/-- Whether a path leads to a directory. -/
structure Leads (t : FileTree) (p : Path) (q : Place) : Prop where
  place : t.place p = .ok q
  directory : t.at? q = some .directory

variable {t t' : FileTree} {p : Path} {q : Place} {name : String}

/-! ## Following names -/

theorem walk_dot (here : Place) (rest : List String) : t.walk here
    ("." :: rest) = t.walk here rest := by
  rw [walk, if_pos rfl]

theorem walk_dots (here : Place) (rest : List String) :
    t.walk here (".." :: rest) = t.walk here.tail rest := by
  rw [walk, if_neg (by decide), if_pos rfl]

/-- The last name need not be that of a directory. -/
theorem walk_last {here : Place} (notDot : name ≠ ".") (notDots : name ≠ "..")
    (short : isTooLong name = false) : t.walk here [name] = .ok (name :: here) := by
  rw [walk, if_neg notDot, if_neg notDots, short, if_neg Bool.false_ne_true]
  rfl

/-- A name goes down into a directory. -/
theorem walk_down {here : Place} (notDot : name ≠ ".") (notDots : name ≠ "..")
    (short : isTooLong name = false) (directory : t.at? (name :: here) = some .directory)
    (rest : List String) : t.walk here (name :: rest) = t.walk (name :: here) rest := by
  rw [walk, if_neg notDot, if_neg notDots, short, if_neg Bool.false_ne_true, directory]
  cases rest with
  | nil => rfl
  | cons name' rest => rfl

/-- What the first name of names that lead somewhere does: it is the last one, or it goes
on from a directory. -/
theorem walk_cons_ok {here : Place} {rest : List String} (h : t.walk here (name :: rest) = .ok q) :
    (name = "." ∧ t.walk here rest = .ok q) ∨ (name = ".." ∧ t.walk here.tail rest = .ok q) ∨
      (name ≠ "." ∧ name ≠ ".." ∧ isTooLong name = false ∧
        (rest = [] ∧ q = name :: here ∨
          t.at? (name :: here) = some .directory ∧ t.walk (name :: here) rest = .ok q)) := by
  by_cases dot : name = "."
  · rw [dot, walk_dot] at h
    exact .inl ⟨dot, h⟩
  by_cases dots : name = ".."
  · rw [dots, walk_dots] at h
    exact .inr (.inl ⟨dots, h⟩)
  refine .inr (.inr ⟨dot, dots, ?_⟩)
  rw [walk, if_neg dot, if_neg dots] at h
  cases long : isTooLong name with
  | true => simp [long] at h
  | false =>
      rw [long, if_neg Bool.false_ne_true] at h
      refine ⟨rfl, ?_⟩
      cases rest with
      | nil => exact .inl ⟨rfl, (Except.ok.inj h).symm⟩
      | cons name' rest =>
          rw [List.isEmpty_cons, if_neg Bool.false_ne_true] at h
          cases found : t.at? (name :: here) with
          | none => simp [found] at h
          | some entry =>
              cases entry with
              | file content => simp [found] at h
              | directory => exact .inr ⟨rfl, by simpa [found] using h⟩

/-- What the first name of names that lead to a directory does. -/
theorem walk_cons_cases {here : Place} {rest : List String} (directory : t.at? q = some .directory)
    (h : t.walk here (name :: rest) = .ok q) :
    (name = "." ∧ t.walk here rest = .ok q) ∨ (name = ".." ∧ t.walk here.tail rest = .ok q) ∨
      (name ≠ "." ∧ name ≠ ".." ∧ isTooLong name = false ∧
        t.at? (name :: here) = some .directory ∧ t.walk (name :: here) rest = .ok q) := by
  refine (walk_cons_ok h).imp_right (Or.imp_right ?_)
  rintro ⟨notDot, notDots, short, ⟨rfl, rfl⟩ | further⟩
  · exact ⟨notDot, notDots, short, directory, rfl⟩
  · exact ⟨notDot, notDots, short, further⟩

/-- Names that lead to a directory lead there in every tree that keeps the directories. -/
theorem walk_mono (keeps : t.Keeps t') (directory : t.at? q = some .directory) {here : Place}
    {names : List String} (h : t.walk here names = .ok q) : t'.walk here names = .ok q := by
  induction names generalizing here with
  | nil => exact h
  | cons name rest ih =>
      rcases walk_cons_cases directory h with
        ⟨rfl, h⟩ | ⟨rfl, h⟩ | ⟨notDot, notDots, short, found, h⟩
      · rw [walk_dot, ih h]
      · rw [walk_dots, ih h]
      · rw [walk_down notDot notDots short (keeps.directories _ found), ih h]

/-- Names that lead to a directory can be followed further. -/
theorem walk_append (directory : t.at? q = some .directory) {here : Place} {names : List String}
    (h : t.walk here names = .ok q) (more : List String) :
    t.walk here (names ++ more) = t.walk q more := by
  induction names generalizing here with
  | nil =>
      cases h
      rfl
  | cons name rest ih =>
      rw [List.cons_append]
      rcases walk_cons_cases directory h with
        ⟨rfl, h⟩ | ⟨rfl, h⟩ | ⟨notDot, notDots, short, found, h⟩
      · rw [walk_dot, ih h]
      · rw [walk_dots, ih h]
      · rw [walk_down notDot notDots short found, ih h]

/-- Leaving out the dots among names that lead to a directory makes no difference. -/
theorem walk_steps (directory : t.at? q = some .directory) {here : Place} {names : List String}
    (h : t.walk here names = .ok q) :
    t.walk here (names.filter fun n => decide (n ≠ ".")) = .ok q := by
  induction names generalizing here with
  | nil => exact h
  | cons name rest ih =>
      rcases walk_cons_cases directory h with
        ⟨rfl, h⟩ | ⟨rfl, h⟩ | ⟨notDot, notDots, short, found, h⟩
      · rw [List.filter_cons_of_neg (by decide), ih h]
      · rw [List.filter_cons_of_pos (by decide), walk_dots, ih h]
      · rw [List.filter_cons_of_pos (by simpa using notDot), walk_down notDot notDots short found,
          ih h]

/-- The last name of a path need not be there. -/
theorem walk_singleton (step : Path.IsStep name) (here : Place) :
    t.walk here [name] = if isTooLong name then .error .nameTooLong else .ok (name :: here) := by
  rw [walk, if_neg step.notDot, if_neg step.notDots]
  rfl

/-! ## Paths -/

/-- There is nothing wrong with a path that leads anywhere. -/
theorem refusal?_of_place (h : t.place p = .ok q) : refusal? p = none := by
  rw [place] at h
  cases refused : refusal? p with
  | none => rfl
  | some fault => simp [refused] at h

theorem walk_of_place (h : t.place p = .ok q) : t.walk (t.start p) p.names = .ok q := by
  rwa [place, refusal?_of_place h] at h

theorem Leads.refusal?_eq_none (h : t.Leads p q) : refusal? p = none :=
  refusal?_of_place h.place

theorem Leads.walk (h : t.Leads p q) : t.walk (t.start p) p.names = .ok q :=
  walk_of_place h.place

/-- A path that leads anywhere is not empty. -/
theorem Leads.ne_nil (h : t.Leads p q) : p.text.toList ≠ [] := by
  intro e
  have empty : p.text.isEmpty = true := by
    rw [String.isEmpty_iff]
    exact String.toList_injective e
  have refused := h.refusal?_eq_none
  rw [refusal?, e, empty] at refused
  cases refused

theorem Leads.contains_null (h : t.Leads p q) : p.text.toList.contains '\x00' = false := by
  have refused := h.refusal?_eq_none
  rw [refusal?] at refused
  rw [Bool.eq_false_iff]
  intro null
  rw [if_pos null] at refused
  cases refused

theorem start_eq (keeps : t.Keeps t') : t'.start p = t.start p := by
  rw [start, start, keeps.here]

/-- A path leads to its directory in every tree that keeps the directories. -/
theorem Leads.mono (h : t.Leads p q) (keeps : t.Keeps t') : t'.Leads p q := by
  refine ⟨?_, keeps.directories q h.directory⟩
  rw [FileTree.place, h.refusal?_eq_none, start_eq keeps]
  exact walk_mono keeps h.directory h.walk

/-- What is in a directory is found under its name, if the path is not too long. -/
theorem Leads.place_join (h : t.Leads p q) (step : Path.IsStep name) :
    t.place (p.join name) = if p.Admits name then .ok (name :: q) else .error .nameTooLong := by
  have ne := h.ne_nil
  have nonempty : (p.join name).text.isEmpty = false := by
    rw [Bool.eq_false_iff]
    intro e
    exact Path.toList_join_ne_nil step ne (by rw [String.isEmpty_iff.1 e]; rfl)
  have refused : refusal? (p.join name) =
      if 4096 ≤ p.stem + name.utf8ByteSize then some .nameTooLong else none := by
    rw [refusal?, Path.contains_null_join step ne, h.contains_null, nonempty,
      Path.utf8ByteSize_join step ne]
    rfl
  have walked : t.walk (t.start (p.join name)) (p.join name).names =
      if isTooLong name then .error .nameTooLong else .ok (name :: q) := by
    rw [Path.names_join step ne, start, Path.isAbsolute_join step ne, ← start,
      walk_append h.directory h.walk, walk_singleton step]
  rw [FileTree.place, refused, walked]
  unfold Path.Admits isTooLong
  grind

/-- What there is under a name in a directory. -/
theorem Leads.look_join (h : t.Leads p q) (step : Path.IsStep name) (admits : p.Admits name) :
    t.look (p.join name) = .ok (name :: q, t.at? (name :: q)) := by
  rw [look]
  rw [h.place_join step, if_pos admits, Path.endsInSlash_join step h.ne_nil]
  simp only [Result.ok_bind]
  cases t.at? (name :: q) with
  | none => rfl
  | some entry => cases entry <;> rfl

/-- Nothing is found under a name that is too long. -/
theorem Leads.look_join_of_not_admits (h : t.Leads p q) (step : Path.IsStep name)
    (admits : ¬ p.Admits name) : t.look (p.join name) = .error .nameTooLong := by
  rw [look]
  rw [h.place_join step, if_neg admits]
  rfl

theorem Leads.look (h : t.Leads p q) : t.look p = .ok (q, some .directory) := by
  rw [FileTree.look]
  rw [h.place]
  simp only [Result.ok_bind, h.directory]

/-- A directory in a directory. -/
theorem Leads.join (h : t.Leads p q) (step : Path.IsStep name) (admits : p.Admits name)
    (directory : t.at? (name :: q) = some .directory) : t.Leads (p.join name) (name :: q) :=
  ⟨by rw [h.place_join step, if_pos admits], directory⟩

/-! ## What stays when a tree changes -/

/-- Putting something where there is no directory keeps the directories. -/
theorem keeps_put {place : Place} (ne : place ≠ []) (notDirectory : t.at? place ≠ some .directory)
    (entry : Entry) : t.Keeps (t.put place entry) := by
  refine ⟨rfl, fun p found => ?_⟩
  rw [at?_put t ne]
  by_cases here : p = place
  · exact absurd (here ▸ found) notDirectory
  · rw [if_neg here, found]

/-- Making a directory keeps the directories. -/
theorem keeps_put_directory {place : Place} (ne : place ≠ []) :
    t.Keeps (t.put place .directory) := by
  refine ⟨rfl, fun p found => ?_⟩
  rw [at?_put t ne]
  by_cases here : p = place
  · rw [if_pos here]
  · rw [if_neg here, found]

end FileTree

end FlatDB
