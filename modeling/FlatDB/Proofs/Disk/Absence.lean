/-
# Places that stay free

If a path leads anywhere, its names alone say where.  A call therefore puts nothing in
a place that none of its paths leads to, whatever the tree is like when it is made, and
a place that is free stays free as long as only such calls are made.  For directories
that are made along a path, all places on the way count.

In a sound tree everything is in a directory.  The places on the way of a path that
leads to a directory are then directories themselves.
-/

import FlatDB.Proofs.Disk.Interruptions

namespace FlatDB

namespace FileTree

variable {t t' : FileTree} {p q here : Place} {names : List String} {path : Path} {name : String}

/-! ## Where names lead -/

/-- The place that names lead to from a directory, if they lead anywhere. -/
def follow (here : Place) : List String → Place
  | [] => here
  | name :: rest =>
    if name = "." then follow here rest
    else if name = ".." then follow here.tail rest
    else follow (name :: here) rest

theorem follow_dot (here : Place) (rest : List String) :
    follow here ("." :: rest) = follow here rest := by
  rw [follow, if_pos rfl]

theorem follow_dots (here : Place) (rest : List String) :
    follow here (".." :: rest) = follow here.tail rest := by
  rw [follow, if_neg (by decide), if_pos rfl]

theorem follow_down (notDot : name ≠ ".") (notDots : name ≠ "..") (here : Place)
    (rest : List String) : follow here (name :: rest) = follow (name :: here) rest := by
  rw [follow, if_neg notDot, if_neg notDots]

theorem follow_append (here : Place) (names more : List String) :
    follow here (names ++ more) = follow (follow here names) more := by
  induction names generalizing here with
  | nil => rfl
  | cons name rest ih =>
      rw [List.cons_append, follow, follow]
      split
      · exact ih _
      · split <;> exact ih _

/-- A step goes down. -/
theorem follow_concat (step : Path.IsStep name) (here : Place) (names : List String) :
    follow here (names ++ [name]) = name :: follow here names := by
  rw [follow_append, follow_down step.notDot step.notDots, follow]

theorem follow_of_walk (h : t.walk here names = .ok p) : follow here names = p := by
  induction names generalizing here with
  | nil => exact Except.ok.inj h
  | cons name rest ih =>
      rcases walk_cons_ok h with ⟨rfl, h⟩ | ⟨rfl, h⟩ | ⟨notDot, notDots, -, ⟨rfl, rfl⟩ | ⟨-, h⟩⟩
      · rw [follow_dot, ih h]
      · rw [follow_dots, ih h]
      · rw [follow_down notDot notDots, follow]
      · rw [follow_down notDot notDots, ih h]

/-- The place that a path leads to, if it leads anywhere. -/
def goal (t : FileTree) (path : Path) : Place :=
  follow (t.start path) path.names

theorem goal_of_place (h : t.place path = .ok p) : t.goal path = p :=
  follow_of_walk (walk_of_place h)

theorem start_of_here (here : t'.here = t.here) (path : Path) : t'.start path = t.start path := by
  rw [start, start, here]

/-- Where a path leads depends on where relative paths start. -/
theorem goal_of_here (here : t'.here = t.here) (path : Path) : t'.goal path = t.goal path := by
  rw [goal, goal, start_of_here here]

theorem goal_join (step : Path.IsStep name) (ne : path.text.toList ≠ []) :
    t.goal (path.join name) = name :: t.goal path := by
  rw [goal, Path.names_join step ne, start, Path.isAbsolute_join step ne, ← start,
    follow_concat step, goal]

/-- A name that is too long leads nowhere, whatever the tree. -/
theorem isTooLong_of_walk (step : Path.IsStep name) (h : t.walk here (names ++ [name]) = .ok p) :
    isTooLong name = false := by
  induction names generalizing here with
  | nil =>
      rw [List.nil_append, walk_singleton step] at h
      cases long : isTooLong name with
      | true => simp [long] at h
      | false => rfl
  | cons first rest ih =>
      rcases walk_cons_ok h with ⟨-, h⟩ | ⟨-, h⟩ | ⟨-, -, -, ⟨last, -⟩ | ⟨-, h⟩⟩
      · exact ih h
      · exact ih h
      · simp at last
      · exact ih h

theorem admits_of_place (step : Path.IsStep name) (ne : path.text.toList ≠ [])
    (h : t.place (path.join name) = .ok p) : path.Admits name := by
  have walked := walk_of_place h
  rw [Path.names_join step ne] at walked
  have short := isTooLong_of_walk step walked
  rw [isTooLong, decide_eq_false_iff_not] at short
  have fits : ¬ 4096 ≤ (path.join name).text.utf8ByteSize := by
    intro long
    have refused := refusal?_of_place h
    rw [refusal?, if_pos long] at refused
    split at refused
    · cases refused
    · split at refused <;> cases refused
  rw [Path.utf8ByteSize_join step ne] at fits
  exact ⟨Nat.not_lt.1 short, Nat.not_le.1 fits⟩

/-- Names that lead to a directory, and can be followed further in a second tree, lead there
in every tree that has the directories which both have. -/
theorem walk_of_both {u : FileTree} {p' : Place} (directory : t.at? p = some .directory)
    (h : t.walk here names = .ok p) (further : t'.walk here (names ++ [name]) = .ok p')
    (both : ∀ q, t.at? q = some .directory → t'.at? q = some .directory →
      u.at? q = some .directory) : u.walk here names = .ok p := by
  induction names generalizing here with
  | nil => exact h
  | cons first rest ih =>
      rcases walk_cons_cases directory h with
        ⟨rfl, h⟩ | ⟨rfl, h⟩ | ⟨notDot, notDots, short, found, h⟩
      · rw [List.cons_append, walk_dot] at further
        rw [walk_dot, ih h further]
      · rw [List.cons_append, walk_dots] at further
        rw [walk_dots, ih h further]
      · rcases walk_cons_ok further with
          ⟨dot, -⟩ | ⟨dots, -⟩ | ⟨-, -, -, ⟨last, -⟩ | ⟨found', further⟩⟩
        · exact absurd dot notDot
        · exact absurd dots notDots
        · simp at last
        · rw [walk_down notDot notDots short (both _ found found'), ih h further]

/-! ## Sound trees -/

/-- A tree in which everything is in a directory, and relative paths start from one. -/
structure IsSound (t : FileTree) : Prop where
  inside : ∀ name place, t.at? (name :: place) ≠ none → t.at? place = some .directory
  here : t.at? t.here = some .directory

theorem isSound_empty : empty.IsSound :=
  ⟨fun name place there => absurd (by simp [at?, empty]) there, rfl⟩

namespace IsSound

/-- What is free has nothing in it. -/
theorem vacant (h : t.IsSound) (free : t.at? p = none) (inner : Place) :
    t.at? (inner ++ p) = none := by
  induction inner with
  | nil => exact free
  | cons name inner ih =>
      cases there : t.at? (name :: inner ++ p) with
      | none => rfl
      | some entry =>
          have directory := h.inside name (inner ++ p) (by rw [← List.cons_append, there]; simp)
          rw [ih] at directory
          cases directory

/-- A directory is in a directory. -/
theorem tail (h : t.IsSound) (directory : t.at? p = some .directory) :
    t.at? p.tail = some .directory := by
  cases p with
  | nil => rfl
  | cons name place => exact h.inside name place (by rw [directory]; simp)

/-- What is no directory can be replaced, or made in a directory. -/
theorem put (h : t.IsSound) (directory : t.at? p = some .directory)
    (notDirectory : t.at? (name :: p) ≠ some .directory) (entry : Entry) :
    (t.put (name :: p) entry).IsSound := by
  have stays (q : Place) (there : t.at? q = some .directory) :
      (t.put (name :: p) entry).at? q = some .directory := by
    rw [at?_put t (List.cons_ne_nil _ _), if_neg, there]
    rintro rfl
    exact notDirectory there
  refine ⟨fun first place there => ?_, stays _ h.here⟩
  rw [at?_put t (List.cons_ne_nil _ _)] at there
  split at there
  · next same =>
    cases same
    exact stays _ directory
  · exact stays _ (h.inside first place there)

theorem start (h : t.IsSound) (path : Path) : t.at? (t.start path) = some .directory := by
  rw [FileTree.start]
  split
  · rfl
  · exact h.here

/-- All places on the way to a directory are directories. -/
theorem follow (h : t.IsSound) (start : t.at? here = some .directory)
    (walked : t.walk here names = .ok q) (directory : t.at? q = some .directory)
    {front : List String} (onTheWay : front <+: names) :
    t.at? (follow here front) = some .directory := by
  induction names generalizing here front with
  | nil =>
      rw [List.prefix_nil.1 onTheWay]
      exact start
  | cons name rest ih =>
      rcases List.prefix_cons_iff.1 onTheWay with rfl | ⟨front, rfl, shorter⟩
      · exact start
      · rcases walk_cons_cases directory walked with
          ⟨rfl, walked⟩ | ⟨rfl, walked⟩ | ⟨notDot, notDots, -, there, walked⟩
        · rw [follow_dot]
          exact ih start walked shorter
        · rw [follow_dots]
          exact ih (h.tail start) walked shorter
        · rw [follow_down notDot notDots]
          exact ih there walked shorter

end IsSound

end FileTree

/-! ## Calls that put nothing in a place -/

open FileTree

/-- Whether a place of a disk is free, and relative paths start from some directory. -/
def Disk.Lacks (here place : Place) (d : Disk) : Prop :=
  d.tree.here = here ∧ d.tree.at? place = none

namespace FileTree

variable {t : FileTree} {place p : Place} {path : Path} {entry : Option Entry}

theorem ne_nil_of_free (free : t.at? place = none) : place ≠ [] := by
  rintro rfl
  cases free

/-- What is put elsewhere is not put in a free place. -/
theorem at?_put_of_free (free : t.at? place = none) (ne : p ≠ place) (entry : Entry) :
    (t.put p entry).at? place = none := by
  have nonempty := ne_nil_of_free free
  rw [at?_of_ne_nil nonempty, getElem?_put, if_neg ne.symm, ← at?_of_ne_nil nonempty, free]

theorem at?_prune_of_free (free : t.at? place = none) (p : Place) :
    (t.prune p).at? place = none := by
  rw [at?_prune t p (ne_nil_of_free free), free]
  split <;> rfl

/-- What is found under a path is what is in the place it leads to. -/
theorem place_of_look (h : t.look path = .ok (p, entry)) :
    t.place path = .ok p ∧ entry = t.at? p := by
  rw [look] at h
  cases found : t.place path with
  | error fault => simp [found] at h
  | ok q =>
      simp only [found, Result.ok_bind] at h
      split at h
      · next there =>
        split at h
        · cases h
        · cases h
          exact ⟨rfl, there.symm⟩
      · cases h
        exact ⟨rfl, rfl⟩

/-- A directory is found where a path leads to one. -/
theorem leads_of_look (h : t.look path = .ok (p, some .directory)) : t.Leads path p :=
  ⟨(place_of_look h).1, (place_of_look h).2.symm⟩

end FileTree

/-- A file is created only where a path leads to none or to an old one. -/
theorem Disk.step_create_eq_ok {d : Disk} {path : Path} {handle : Handle}
    (h : (d.step (.create path)).1 = .ok handle) :
    ∃ place, d.tree.place path = .ok place ∧ path.endsInSlash = false ∧
      d.tree.at? place ≠ some .directory ∧ d.step (.create path) =
        (.ok d.waiting.length, ⟨d.tree.put place (.file []), d.waiting ++ [some place]⟩) := by
  cases look : d.tree.look path with
  | error fault => simp [step, look] at h
  | ok found =>
      obtain ⟨place, entry⟩ := found
      obtain ⟨leads, here⟩ := FileTree.place_of_look look
      have file : entry ≠ some .directory := fun e => by simp [step, look, e] at h
      have made : d.step (.create path) = if path.endsInSlash then (.error .isDirectory, d)
          else (.ok d.waiting.length,
            ⟨d.tree.put place (.file []), d.waiting ++ [some place]⟩) := by
        simp only [step, look]
      cases slash : path.endsInSlash with
      | true => simp [made, slash] at h
      | false => exact ⟨place, leads, rfl, here ▸ file, by simpa [slash] using made⟩

/-- A move is refused and moves nothing, or it moves what the one path leads to to where the
other does. -/
theorem Disk.rename_cases (d : Disk) (source target : Path) :
    (∃ fault, d.rename source target = (.error fault, d)) ∨
      ∃ p q, d.tree.place source = .ok p ∧ d.tree.place target = .ok q ∧
        d.rename source target = (.ok (), if p = q then d else d.move p q) := by
  rw [rename]
  split
  · exact .inl ⟨_, rfl⟩
  · exact .inl ⟨_, rfl⟩
  · next p q found found' =>
    split
    · exact .inl ⟨_, rfl⟩
    split
    · exact .inl ⟨_, rfl⟩
    · exact .inr ⟨p, q, found, found', rfl⟩

/-- What cannot be moved stays where it is. -/
theorem Action.ensures_rename {F : Tolerance} (whole : FileTree.NoLateMoves F)
    (source target : Path) (d : Disk) :
    (Action.rename source target).Ensures F (fun x d' => ∀ e, x = .error e → d' = d) d := by
  refine .call ?_ fun m befalls => .throw fun _ _ => whole.failing befalls d
  rw [Disk.step_rename]
  rcases d.rename_cases source target with ⟨fault, refused⟩ | ⟨_, _, -, -, moved⟩
  · rw [refused]
    exact .ofReply (fun _ _ _ _ => rfl) fun _ _ _ _ => rfl
  · rw [moved]
    exact .ofReply (fun _ _ => nofun) fun _ failed => nomatch failed

namespace Call

variable {place : Place} {path : Path} {t : FileTree}

theorem maintains_create (away : t.goal path ≠ place) :
    (Call.create path).Maintains (Disk.Lacks t.here place) := by
  refine fun d ⟨starts, free⟩ => ⟨?_, fun _ impossible => impossible.elim⟩
  rw [Disk.step]
  split
  · exact ⟨starts, free⟩
  · next _ look =>
    split
    · exact ⟨starts, free⟩
    · refine ⟨starts, at?_put_of_free free ?_ _⟩
      rw [← goal_of_place (place_of_look look).1, goal_of_here starts]
      exact away
  · exact ⟨starts, free⟩

/-- Only what is there is written. -/
theorem lacks_fill {here : Place} {d : Disk} (lacks : d.Lacks here place) (handle : Handle)
    (content : Bytes) : (d.fill handle content).Lacks here place := by
  obtain ⟨starts, free⟩ := lacks
  rw [Disk.fill]
  split
  · next waits =>
    split
    · next old there =>
      refine ⟨starts, at?_put_of_free free ?_ _⟩
      rintro rfl
      rw [free] at there
      cases there
    · exact ⟨starts, free⟩
  · exact ⟨starts, free⟩

theorem maintains_fill (here place : Place) (handle : Handle) (content : Bytes) (sync : Bool) :
    (Call.fill handle content sync).Maintains (Disk.Lacks here place) := by
  refine fun d lacks => ⟨?_, ?_⟩
  · rw [Disk.step_fill]
    exact lacks_fill lacks handle content
  · rintro d' ⟨bytes, rfl⟩
    exact lacks_fill lacks handle (content.take bytes)

theorem maintains_remove (here place : Place) (path : Path) :
    (Call.remove path).Maintains (Disk.Lacks here place) := by
  refine fun d ⟨starts, free⟩ => ⟨?_, fun _ impossible => impossible.elim⟩
  rw [Disk.step]
  split
  · exact ⟨starts, at?_prune_of_free free _⟩
  · exact ⟨starts, free⟩

/-- On the way between two trees in which a place is free it is free. -/
theorem lacks_of_between {here : Place} {d d' d'' : Disk} (lacks : d.Lacks here place)
    (lacks' : d'.Lacks here place) (between : d.tree.Between d'.tree d''.tree) :
    d''.Lacks here place :=
  ⟨between.here.trans lacks.1,
    (between.places place).elim (fun same => same.trans lacks.2) fun same => same.trans lacks'.2⟩

theorem maintains_removeTree (here place : Place) (path : Path) :
    (Call.removeTree path).Maintains (Disk.Lacks here place) := by
  intro d lacks
  have removed : (d.step (.removeTree path)).2.Lacks here place := by
    rw [Disk.step]
    split
    · exact ⟨lacks.1, at?_prune_of_free lacks.2 _⟩
    all_goals exact lacks
  exact ⟨removed, fun d' between => lacks_of_between lacks removed between⟩

theorem maintains_rename {source target : Path} (away : below? (t.goal target) place = none) :
    (Call.rename source target).Maintains (Disk.Lacks t.here place) := by
  refine fun d ⟨starts, free⟩ => ⟨?_, fun _ impossible => impossible.elim⟩
  rw [Disk.step_rename]
  rcases d.rename_cases source target with ⟨_, refused⟩ | ⟨s, p, -, found, moved⟩
  · rw [refused]
    exact ⟨starts, free⟩
  rw [moved]
  split
  · exact ⟨starts, free⟩
  · refine ⟨starts, ?_⟩
    have nonempty := ne_nil_of_free free
    rw [← goal_of_here starts, goal_of_place found] at away
    show (d.tree.move s p).at? place = none
    rw [at?_of_ne_nil nonempty, getElem?_move]
    simp only [away, ← at?_of_ne_nil nonempty, free, ite_self]

/-! ## Making directories -/

/-- What neither of two steps breaks is not broken by both. -/
theorem maintains_bind {β γ : Type} {I : FileTree → Prop} {m : StateM FileTree β}
    {f : β → StateM FileTree γ} (first : ∀ t, I t → I (m.run t).2)
    (next : ∀ b t, I t → I ((f b).run t).2) (t : FileTree) (holds : I t) :
    I ((m >>= f).run t).2 :=
  next _ _ (first t holds)

/-- What is true of a tree whichever directory on the way is made stays true when they
are all made. -/
theorem ensureAlong_maintains {I : FileTree → Prop}
    {ensure : List String → StateM FileTree (Except Fault Unit)} {names steps : List String}
    (whole : ∀ t, I t → I ((ensure names).run t).2)
    (onTheWay : ∀ front, front <+: steps.reverse → ∀ t, I t → I ((ensure front).run t).2) :
    ∀ t, I t → I ((Directories.ensureAlong ensure names steps).run t).2 := by
  induction steps generalizing names with
  | nil => exact fun t holds => holds
  | cons step above ih =>
      rw [List.reverse_cons] at onTheWay
      have shorter (front : List String) (onIt : front <+: above.reverse) :=
        onTheWay front (onIt.trans (List.prefix_append _ _))
      rw [Directories.ensureAlong]
      refine maintains_bind whole fun reply => ?_
      split
      · refine maintains_bind (ih (shorter _ (List.prefix_refl _)) shorter) fun reply => ?_
        split
        · exact whole
        · exact fun t holds => holds
      · exact fun t holds => holds

/-- A directory that is made is made where its names lead. -/
theorem at?_ensure_of_free {start : Place} {names : List String} (free : t.at? place = none)
    (away : follow start names ≠ place) : (ensure start names t).2.at? place = none := by
  rw [ensure]
  split
  · exact free
  · next p walked =>
    split
    · exact at?_put_of_free free (follow_of_walk walked ▸ away) _
    · exact free
    · exact free

theorem here_ensure (start : Place) (names : List String) (t : FileTree) :
    (ensure start names t).2.here = t.here := by
  rw [ensure]
  split
  · rfl
  · split <;> rfl

/-- Directories are made where the names on their way lead. -/
theorem maintains_makeDirectories (away : t.goal path ≠ place)
    (onTheWay : ∀ front, front <+: path.steps → follow (t.start path) front ≠ place) :
    (Call.makeDirectories path).Maintains (Disk.Lacks t.here place) := by
  intro d lacks
  have one {names : List String} (away : follow (t.start path) names ≠ place) (u : FileTree)
      (lacks : u.here = t.here ∧ u.at? place = none) :
      (ensure (t.start path) names u).2.here = t.here ∧
        (ensure (t.start path) names u).2.at? place = none :=
    ⟨(here_ensure _ names u).trans lacks.1, at?_ensure_of_free lacks.2 away⟩
  have made : (d.step (.makeDirectories path)).2.Lacks t.here place := by
    rw [Disk.step]
    split
    · exact lacks
    split
    · exact lacks
    · show (fun u : FileTree => u.here = t.here ∧ u.at? place = none)
        ((Directories.ensureAlong (m := StateM FileTree) (ensure (d.tree.start path)) path.names
          path.steps.reverse).run d.tree).2
      rw [start_of_here lacks.1]
      refine ensureAlong_maintains (one away) (fun front onIt => one (onTheWay front ?_)) d.tree
        lacks
      rwa [List.reverse_reverse] at onIt
  exact ⟨made, fun d' between => lacks_of_between lacks made between⟩

end Call

/-! ## Asking what there is -/

namespace Disk

variable {t : FileTree} {place : Place} {path : Path} {d : Disk}

/-- Something is found only where a path leads to it. -/
theorem kind_eq_none (free : ∀ p, d.tree.place path = .ok p → d.tree.at? p = none) :
    (d.step (.kind path)).1 = none := by
  rw [step]
  split
  · next p entry look =>
    obtain ⟨place, rfl⟩ := place_of_look look
    rw [free p place]
    rfl
  · rfl

/-- Nothing is found in a place that is free. -/
theorem Lacks.kind_eq_none (lacks : d.Lacks t.here place) (goal : t.goal path = place) :
    (d.step (.kind path)).1 = none :=
  Disk.kind_eq_none fun p found => by
    rw [← goal_of_place found, goal_of_here lacks.1, goal]
    exact lacks.2

/-- A directory that is found is where the path leads. -/
theorem exists_leads_of_kind (found : (d.step (.kind path)).1 = some .directory) :
    ∃ p, d.tree.Leads path p := by
  rw [step] at found
  split at found
  · next p entry look =>
    cases entry with
    | none => cases found
    | some entry =>
        cases entry with
        | file content => cases found
        | directory => exact ⟨p, leads_of_look look⟩
  · cases found

end Disk

/-! ## Replacing a file -/

/-- Replacing a file puts nothing but that file and what is beside it. -/
theorem Replacement.maintains_replace {t : FileTree} {place : Place} {path : Path}
    (staged : t.goal path.staged ≠ place) (away : below? (t.goal path) place = none)
    (bytes : Bytes) (sync : Bool) :
    (replace path bytes sync).Maintains (Disk.Lacks t.here place) := by
  have cleared (handle : Handle) : (clearAway ⟨path, handle, bytes, sync⟩).Maintains
      (Disk.Lacks t.here place) :=
    .bind (.outcome (.call (Call.maintains_remove t.here place path.staged))) fun _ => .pure _
  rw [replace, start, bind_assoc]
  simp only [pure_bind]
  refine .bind (.call (Call.maintains_create staged)) fun handle => .orElse ?_ (cleared handle)
  exact .bind (.call (Call.maintains_fill t.here place handle bytes sync)) fun _ =>
    .call (Call.maintains_rename away)

end FlatDB
