/-
# Where a replacement is prepared

A replacement is prepared under a path that is made from the text of another.  If that path leads
anywhere, the one it was made from leads elsewhere, whatever its text: to a sibling, if a last name
could be taken off, and otherwise to the directory that the replacement is in.  Neither is found by
way of the other, so what a path leads to does not depend on the file that is prepared for it.
-/

import FlatDB.Proofs.Disk.Staging

namespace FlatDB

/-! ## Last names of paths -/

namespace Split

/-- What is in a part is in what the parts are joined to. -/
theorem mem_join {α : Type} {sep c : α} {parts : List (List α)} {part : List α}
    (mem : part ∈ parts) (inside : c ∈ part) : c ∈ join sep parts := by
  induction parts with
  | nil => cases mem
  | cons first parts ih =>
      by_cases last : parts = []
      · rw [last, List.mem_singleton] at mem
        rw [last, ← mem]
        exact inside
      · rw [join_cons last]
        rcases List.mem_cons.1 mem with rfl | mem
        · exact List.mem_append_left _ inside
        · exact List.mem_append_right _ (List.mem_cons_of_mem _ (ih mem))

end Split

namespace Path

variable {p parent : Path} {name : String}

/-- The parts of a path are those it begins with and those that come after. -/
theorem append_of_beginning {parts start rest : List (List Char)}
    (h : beginning parts = (start, rest)) : start ++ rest = parts := by
  unfold beginning at h
  split at h
  all_goals
    cases h
    rfl

/-- When the idle parts at the end are dropped, the last one is not idle. -/
theorem isIdle_of_getLast?_dropIdleEnd {parts : List (List Char)} {last : List Char}
    (h : (dropIdleEnd parts).getLast? = some last) : isIdle last = false := by
  rw [dropIdleEnd, List.getLast?_reverse] at h
  have first := List.head?_dropWhile_not isIdle parts.reverse
  rw [h] at first
  exact first

/-- A last name that can be taken off is one of the parts of the path, and only idle parts come
after it. -/
theorem exists_pieces_of_split? (noNull : '\x00' ∉ p.text.toList)
    (h : p.split? = some (parent, name)) :
    ∃ front back, IsStep name ∧ Split.pieces '/' p.text.toList = front ++ name.toList :: back ∧
      ∀ part ∈ back, isIdle part := by
  obtain ⟨⟨start, rest⟩, begins⟩ : ∃ halves, beginning (Split.pieces '/' p.text.toList) = halves :=
    ⟨_, rfl⟩
  rw [split?, begins] at h
  cases ends : (dropIdleEnd rest).getLast? with
  | none => simp [ends] at h
  | some last =>
      by_cases dots : last = ['.', '.']
      · simp [ends, dots] at h
      simp only [ends, if_neg dots, Option.some.injEq, Prod.mk.injEq] at h
      obtain ⟨-, rfl⟩ := h
      obtain ⟨front, steps⟩ := List.getLast?_eq_some_iff.1 ends
      obtain ⟨back, dropped, idle⟩ := exists_append_dropIdleEnd rest
      have pieces : Split.pieces '/' p.text.toList = (start ++ front) ++ last :: back := by
        rw [← append_of_beginning begins, dropped, steps]
        simp
      have mem : last ∈ Split.pieces '/' p.text.toList := by
        rw [pieces]
        exact List.mem_append_right _ List.mem_cons_self
      have active := isIdle_of_getLast?_dropIdleEnd ends
      rw [isIdle, Bool.or_eq_false_iff, beq_eq_false_iff_ne] at active
      refine ⟨start ++ front, back, ?_, by rw [String.toList_ofList, pieces], idle⟩
      exact {
        nonempty := by simpa using active.1
        noSlash := by
          rw [String.toList_ofList]
          exact Split.not_mem_of_mem_pieces mem
        noNull := by
          rw [String.toList_ofList]
          intro null
          apply noNull
          rw [← Split.join_pieces '/' p.text.toList]
          exact Split.mem_join mem null
        notDot := fun dot => active.2 (by rw [← String.toList_ofList (l := last), dot]; rfl)
        notDots := fun up => dots (by rw [← String.toList_ofList (l := last), up]; rfl) }

end Path

namespace FileTree

variable {t t' : FileTree} {p beside here : Place} {path parent : Path} {name : String}

/-! ## Sites of any paths -/

/-- Where a path leads if its replacement would be prepared in some place. -/
inductive Beside (t : FileTree) (path : Path) (beside : Place) : Prop
  /-- What the path leads to is, or would be, in one directory with its replacement. -/
  | sibling {name : String} {q : Place} {front back : List String} (step : Path.IsStep name)
      (directory : t.at? q = some .directory) (before : t.walk (t.start path) front = .ok q)
      (names : path.names = front ++ name :: back) (idle : ∀ n ∈ back, n = ".")
      (place : beside = stagedName name :: q)
  /-- The path leads to the directory that its replacement is in. -/
  | inside {name : String} {q : Place} (leads : t.Leads path q) (place : beside = name :: q)

/-- The path of what is in a directory leads to it by way of the directory. -/
theorem IsSound.exists_walk_of_join (sound : t.IsSound) (step : Path.IsStep name)
    (ne : parent.text.toList ≠ []) (h : t.place (parent.join name) = .ok p) :
    ∃ q, t.walk (t.start parent) parent.names = .ok q ∧ t.at? q = some .directory ∧
      p = name :: q := by
  have walked := walk_of_place h
  rw [Path.names_join step ne, FileTree.start, Path.isAbsolute_join step ne,
    ← FileTree.start] at walked
  obtain ⟨q, before, directory, last⟩ := sound.exists_walk_eq (sound.start parent) walked
  rw [walk_singleton step] at last
  split at last
  · cases last
  · exact ⟨q, before, directory, (Except.ok.inj last).symm⟩

/-- A path that leads to where a replacement is prepared tells where the path it was made from
leads. -/
theorem IsSound.exists_beside (sound : t.IsSound) (refused : refusal? path = none)
    (h : t.place path.staged = .ok beside) : t.Beside path beside := by
  obtain ⟨noNull, nonempty, -⟩ := refusal?_eq_none_iff.1 refused
  cases split : path.split? with
  | none =>
      have staged : path.staged = path.join ".swp" := by
        rw [Path.staged, Path.withName, split, Path.lastName, split]
        rfl
      have step : Path.IsStep ".swp" :=
        Path.isStep_of_length (by decide) (by decide) (by decide)
      rw [staged] at h
      obtain ⟨q, walked, directory, place⟩ := sound.exists_walk_of_join step nonempty h
      exact .inside ⟨by rw [FileTree.place, refused, walked], directory⟩ place
  | some found =>
      obtain ⟨parent, name⟩ := found
      obtain ⟨front, back, step, pieces, idle⟩ := Path.exists_pieces_of_split? noNull split
      obtain ⟨parent', split', pre, steps, top⟩ := Path.exists_split?_eq step pieces idle
      obtain rfl : parent = parent' := by
        rw [split] at split'
        exact (Prod.mk.inj (Option.some.inj split')).1
      have staged : path.staged = parent.join (stagedName name) := by
        rw [Path.staged, Path.lastName, Path.withName, split]
        rfl
      have stagedStep := isStep_stagedName step
      have names : path.names = Path.namesOf front ++ name :: Path.namesOf back := by
        rw [Path.names_eq, pieces, Path.namesOf_append]
        simp [Path.namesOf, step.nonempty]
      have dots : ∀ n ∈ Path.namesOf back, n = "." := by
        simpa using Path.filter_namesOf_of_idle idle
      rw [staged] at h
      by_cases empty : parent.text.toList = []
      · obtain rfl := top empty
        rw [Path.join_of_empty stagedStep empty] at h
        have relative : path.isAbsolute = false := by
          rw [Path.isAbsolute, beq_eq_false_iff_ne]
          intro first
          obtain ⟨rest, text⟩ := List.head?_eq_some_iff.1 first
          rw [text, ← List.nil_append ('/' :: rest), Split.pieces_append_cons (by simp)] at pieces
          exact step.nonempty (List.cons.inj pieces).1.symm
        have before : t.walk (t.start path) (Path.namesOf []) = .ok t.here := by
          rw [FileTree.start, relative]
          rfl
        rcases place_mk (t := t) stagedStep with found | long
        · rw [found] at h
          exact .sibling step sound.here before names dots (Except.ok.inj h).symm
        · rw [long] at h
          cases h
      · have sameStart : t.start parent = t.start path := by
          obtain ⟨suffix, text⟩ := pre
          rw [FileTree.start, FileTree.start, Path.isAbsolute, Path.isAbsolute, ← text,
            List.head?_append, List.head?_eq_some_head empty, Option.some_or]
        obtain ⟨q, walked, directory, place⟩ := sound.exists_walk_of_join stagedStep empty h
        have before : t.walk (t.start path) (Path.namesOf front) = .ok q := by
          apply walk_of_steps directory
          rw [← steps, ← sameStart]
          exact walk_steps directory walked
        exact .sibling step directory before names dots place

/-- Single dots lead nowhere else. -/
theorem walk_idle {back : List String} (idle : ∀ n ∈ back, n = ".") (here : Place) :
    t.walk here back = .ok here := by
  induction back with
  | nil => rfl
  | cons n back ih =>
      obtain ⟨rfl, later⟩ := List.forall_mem_cons.1 idle
      rw [walk_dot, ih later]

/-- What a path leads to is not where its replacement is prepared. -/
theorem Beside.ne (h : t.Beside path beside) (found : t.place path = .ok p) : p ≠ beside := by
  cases h with
  | @sibling name q front back step directory before names idle place =>
      have walked := walk_of_place found
      rw [names, walk_append directory before] at walked
      have same : p = name :: q := by
        rcases walk_cons_ok walked with ⟨dot, -⟩ | ⟨dots, -⟩ | ⟨-, -, -, ⟨-, same⟩ | ⟨-, later⟩⟩
        · exact absurd dot step.notDot
        · exact absurd dots step.notDots
        · exact same
        · rw [walk_idle idle] at later
          exact (Except.ok.inj later).symm
      rw [same, place]
      intro equal
      exact stagedName_ne name (List.cons.inj equal).1.symm
  | @inside name q leads place =>
      obtain rfl : q = p := Except.ok.inj (leads.place.symm.trans found)
      rw [place]
      exact (List.cons_ne_self name q).symm

/-! ## Whatever is prepared -/

/-- Two trees that differ at most in a file in one place. -/
structure Revises (beside : Place) (t t' : FileTree) : Prop where
  here : t'.here = t.here
  elsewhere : ∀ p, p ≠ beside → t'.at? p = t.at? p
  /-- There was no directory. -/
  before : t.at? beside ≠ some .directory
  /-- There is none. -/
  after : t'.at? beside ≠ some .directory

namespace Revises

theorem refl (notDirectory : t.at? beside ≠ some .directory) : Revises beside t t :=
  ⟨rfl, fun _ _ => rfl, notDirectory, notDirectory⟩

theorem symm (h : Revises beside t t') : Revises beside t' t :=
  ⟨h.here.symm, fun p away => (h.elsewhere p away).symm, h.after, h.before⟩

/-- Putting a file in that place, or removing the one that is there. -/
theorem revised (h : Revises beside t t') {t'' : FileTree} {entry : Option Entry}
    (here : t''.here = t'.here)
    (changed : ∀ p, t''.at? p = if p = beside then entry else t'.at? p)
    (notDirectory : entry ≠ some .directory) :
    Revises beside t t'' ∧ t''.at? beside = entry := by
  have there : t''.at? beside = entry := by rw [changed, if_pos rfl]
  refine ⟨⟨here.trans h.here, fun p away => ?_, h.before, there ▸ notDirectory⟩, there⟩
  rw [changed, if_neg away, h.elsewhere p away]

theorem keeps (h : Revises beside t t') : t.Keeps t' := by
  refine ⟨h.here, fun p directory => ?_⟩
  rw [h.elsewhere p, directory]
  rintro rfl
  exact h.before directory

theorem childless (h : Revises beside t t') (childless : t.Childless p)
    (away : ∀ inner, inner ≠ [] → inner ++ p ≠ beside) : t'.Childless p :=
  fun inner ne => (h.elsewhere _ (away inner ne)).trans (childless inner ne)

end Revises

/-- A path leads to the same place whatever is prepared for it. -/
theorem Beside.place_eq (h : t.Beside path beside) (revises : Revises beside t t') :
    t'.place path = t.place path := by
  cases h with
  | @sibling name q front back step directory before names idle place =>
      have there : t'.at? (name :: q) = t.at? (name :: q) := by
        apply revises.elsewhere
        rw [place]
        intro equal
        exact stagedName_ne name (List.cons.inj equal).1.symm
      have directory' := revises.keeps.directories q directory
      have before' : t'.walk (t'.start path) front = .ok q := by
        rw [start_eq revises.keeps]
        exact walk_mono revises.keeps directory before
      have last : t'.walk q (name :: back) = t.walk q (name :: back) := by
        rw [walk, walk, there]
        simp only [if_neg step.notDot, if_neg step.notDots, walk_idle idle]
      rw [FileTree.place, FileTree.place, names, walk_append directory' before',
        walk_append directory before, last]
  | inside leads place => rw [leads.place, (leads.mono revises.keeps).place]

/-- What a path leads to is the same whatever is prepared for it. -/
theorem Beside.look_eq (h : t.Beside path beside) (revises : Revises beside t t') :
    t'.look path = t.look path := by
  rw [look, look]
  rw [h.place_eq revises]
  cases found : t.place path with
  | error fault => rfl
  | ok p => simp only [Result.ok_bind, revises.elsewhere p (h.ne found)]

/-- So it is if nothing at all can be found under the path. -/
theorem Revises.look_eq (revises : Revises beside t t') (sound : t.IsSound)
    (h : t.place path.staged = .ok beside) : t'.look path = t.look path := by
  cases refused : refusal? path with
  | none => exact (sound.exists_beside refused h).look_eq revises
  | some fault =>
      rw [look, look]
      rw [FileTree.place, FileTree.place, refused]
      rfl

end FileTree

end FlatDB
