/-
# Replacements are made as a whole or not at all

A replacement that is committed puts all that was written to it in the place of its target.  One
that cannot be started or committed, or is given up, leaves the target alone, whatever was there and
whatever was where the replacement was to be prepared.  In either case nothing else changes, and
nothing is left beside the target, unless it was there before the start or cannot be removed.

All that happens before the move happens in one place, which no path to the target goes through.
Hence an invariant of two trees carries the argument up to the move: they differ at most in a file
in that place.  What is moved is a file, so it is moved to where there is none or another.
-/

import FlatDB.Proofs.Disk.Siblings

namespace FlatDB

/-! ## Moving a file -/

namespace Disk

open FileTree

variable {d : Disk} {t : FileTree} {p q : Place} {content : Bytes} {slash : Bool}

/-- A file is moved only to where there is no directory, neither into what is in the way nor out
of it. -/
theorem of_moveFault?_eq_none (file : t.at? p = some (.file content))
    (h : moveFault? t p q slash = none) :
    slash = false ∧ (p = q ∨ Apart p q ∧ t.at? q ≠ some .directory) := by
  simp only [moveFault?, file, Entry.kind, Bool.and_eq_true, decide_true, and_true] at h
  split at h
  · cases h
  next plain =>
  refine ⟨by simpa using plain, ?_⟩
  split at h
  · next same => exact .inl same
  split at h
  · cases h
  next below =>
  split at h
  · cases h
  next above =>
  right
  refine ⟨⟨by simpa using below, by simpa using above⟩, fun directory => ?_⟩
  simp [directory] at h

/-- What was moved was where the one path leads, and there was nothing against moving it to where
the other does. -/
theorem rename_eq_ok {source target : Path} (h : (d.rename source target).1 = .ok ()) :
    ∃ p q, d.tree.place source = .ok p ∧ d.tree.place target = .ok q ∧
      moveFault? d.tree p q (source.endsInSlash || target.endsInSlash) = none ∧
      d.rename source target = (.ok (), if p = q then d else d.move p q) := by
  unfold rename at h ⊢
  cases found : d.tree.place source with
  | error fault => simp [found] at h
  | ok p =>
      cases found' : d.tree.place target with
      | error fault => simp [found, found'] at h
      | ok q =>
          simp only [found, found'] at h ⊢
          by_cases dots : (endsInDots source || endsInDots target) = true
          · simp [dots] at h
          simp only [if_neg dots] at h ⊢
          cases fault : moveFault? d.tree p q (source.endsInSlash || target.endsInSlash) with
          | some fault' => simp [fault] at h
          | none => exact ⟨p, q, rfl, rfl, fault, rfl⟩

/-- A file that cannot be created leaves everything as it is. -/
theorem step_create_of_error {path : Path} {fault : Fault}
    (h : (d.step (.create path)).1 = .error fault) : (d.step (.create path)).2 = d := by
  rw [step] at h ⊢
  split
  · rfl
  · next look =>
    split
    · rfl
    · next plain => simp [look, plain] at h
  · rfl

/-- The first call of an action, under the first of its outlooks. -/
def underFirst (d : Disk) (outlooks : List Outlook) (c : Call) : c.Reply × Disk :=
  match outlooks with
  | [] => d.step c
  | o :: _ => d.stepUnder o c

theorem performUnder_ask_bind {β : Type} (d : Disk) (outlooks : List Outlook) (c : Call)
    (f : c.Reply → Action β) :
    d.performUnder outlooks (Action.ask c >>= f) =
      (d.underFirst outlooks c).2.performUnder outlooks.tail (f (d.underFirst outlooks c).1) := by
  cases outlooks <;> rfl

/-- A call that is not made by halves has been made when it fails, or it has not. -/
theorem failing_cases {c : Call} (undivided : ∀ bytes, c.cut? bytes = none) (d : Disk)
    (extent : Extent) : d.failing c extent = d ∨ d.failing c extent = (d.step c).2 := by
  cases extent with
  | nothing => exact .inl rfl
  | partly bytes =>
      rw [failing, undivided bytes]
      exact .inl rfl
  | everything => exact .inr rfl

end Disk

namespace FileTree

variable {t t' : FileTree} {path : Path} {beside p : Place} {content : Bytes}

/-! ## Places where replacements are prepared -/

/-- A place where the replacement for what a path leads to can be prepared. -/
structure Stage (t : FileTree) (path : Path) (beside : Place) : Prop where
  sound : t.IsSound
  place : t.place path.staged = .ok beside
  noSlash : path.staged.endsInSlash = false
  /-- There may be a file, but no directory. -/
  vacant : t.at? beside ≠ some .directory

namespace Stage

theorem ne_nil (h : t.Stage path beside) : beside ≠ [] := by
  rintro rfl
  exact h.vacant rfl

theorem refl (h : t.Stage path beside) : Revises beside t t :=
  .refl h.vacant

theorem look (h : t.Stage path beside) (revises : Revises beside t t') :
    t'.look path.staged = .ok (beside, t'.at? beside) :=
  look_of_place (place_keeps revises.keeps h.place) h.noSlash

theorem childless (h : t.Stage path beside) (revises : Revises beside t t') :
    t'.Childless beside :=
  revises.childless (h.sound.childless h.vacant) (by simp)

/-- Writing the file that is prepared. -/
theorem put (h : t.Stage path beside) (revises : Revises beside t t') (content : Bytes) :
    Revises beside t (t'.put beside (.file content)) ∧
      (t'.put beside (.file content)).at? beside = some (.file content) :=
  revises.revised rfl (at?_put t' h.ne_nil (.file content)) nofun

/-- Removing it. -/
theorem prune (h : t.Stage path beside) (revises : Revises beside t t') :
    Revises beside t (t'.prune beside) ∧ (t'.prune beside).at? beside = none :=
  revises.revised rfl (at?_prune_of_childless h.ne_nil (h.childless revises)) nofun

end Stage

/-! ## What becomes of a target -/

/-- Whether nothing was replaced: the target is what it was, and everything else is where it was,
except at most what is where the replacement would be prepared. -/
structure Spared (path : Path) (t t' : FileTree) : Prop where
  here : t'.here = t.here
  target : t'.look path = t.look path
  elsewhere : ∀ p, p ≠ t.goal path.staged → t'.at? p = t.at? p

/-- Whether a target was replaced: it has the new content, nothing is beside it, and everything else
is where it was. -/
structure Replaced (path : Path) (content : Bytes) (t t' : FileTree) : Prop where
  here : t'.here = t.here
  target : t'.look path = .ok (t.goal path, some (.file content))
  staged : t'.look path.staged = .ok (t.goal path.staged, none)
  elsewhere : ∀ p, p ≠ t.goal path → p ≠ t.goal path.staged → t'.at? p = t.at? p

/-- Whether removing a file never fails for reasons that are not in the tree. -/
def SureRemovals (F : Tolerance) : Prop :=
  ∀ path m, ¬ F (.remove path) m

/-- Whether a replacement that had been started was taken back: nothing was replaced, and nothing is
left where it was prepared. -/
structure TakenBack (F : Tolerance) (path : Path) (t t' : FileTree) : Prop extends
    Spared path t t' where
  gone : SureRemovals F → t'.look path.staged = .ok (t.goal path.staged, none)

theorem Spared.refl (path : Path) (t : FileTree) : Spared path t t :=
  ⟨rfl, rfl, fun _ _ => rfl⟩

theorem Stage.spared (h : t.Stage path beside) (revises : Revises beside t t') :
    Spared path t t' := by
  refine ⟨revises.here, revises.look_eq h.sound h.place, fun p away => revises.elsewhere p ?_⟩
  rwa [goal_of_place h.place] at away

/-- What is prepared is moved to the target. -/
theorem Stage.replaced_move (h : t.Stage path beside) (revises : Revises beside t t')
    (prepared : t'.at? beside = some (.file content)) (found : t'.place path = .ok p)
    (plain : path.endsInSlash = false) (apart : Apart beside p)
    (notDirectory : t'.at? p ≠ some .directory) : Replaced path content t (t'.move beside p) := by
  have ne : p ≠ [] := by
    rintro rfl
    exact notDirectory rfl
  have before : t.at? p ≠ some .directory := by
    rwa [revises.elsewhere p apart.ne.symm] at notDirectory
  have childless : t'.Childless p :=
    revises.childless (h.sound.childless before) fun inner _ => apart.symm.append_ne inner
  have move := at?_move_of_childless h.ne_nil ne apart (h.childless revises) childless
  have place : t.place path = .ok p := place_keeps revises.symm.keeps found
  have keeps : t.Keeps (t'.move beside p) := by
    refine ⟨revises.here, fun q directory => ?_⟩
    have notTarget : q ≠ p := by
      rintro rfl
      exact before directory
    have notStaged : q ≠ beside := by
      rintro rfl
      exact h.vacant directory
    rw [move, if_neg notTarget, if_neg notStaged, revises.elsewhere q notStaged, directory]
  refine ⟨revises.here, ?_, ?_, fun q notTarget notStaged => ?_⟩
  · rw [look_of_place (place_keeps keeps place) plain, goal_of_place place, move, if_pos rfl,
      prepared]
  · rw [look_of_place (place_keeps keeps h.place) h.noSlash, goal_of_place h.place, move,
      if_neg apart.ne, if_pos rfl]
  · rw [goal_of_place place] at notTarget
    rw [goal_of_place h.place] at notStaged
    rw [move, if_neg notTarget, if_neg notStaged, revises.elsewhere q notStaged]

/-! ## Steps of a replacement -/

variable {F : Tolerance} {d : Disk} {handle : Handle}

/-- A disk on which the replacement for what a path leads to has been started. -/
structure Started (t : FileTree) (path : Path) (beside : Place) (handle : Handle) (d : Disk) :
    Prop where
  stage : t.Stage path beside
  revises : Revises beside t d.tree
  prepared : d.tree.at? beside = some (.file [])
  waits : d.waiting[handle]? = some (some beside)

/-- Starting a replacement puts an empty file where it is prepared, or fails. -/
theorem ensures_create_staged (sound : d.tree.IsSound) (path : Path) :
    (Action.create path.staged).Ensures F
      (fun x d' =>
        match x with
        | .ok handle => ∃ beside, Started d.tree path beside handle d'
        | .error _ => Spared path d.tree d'.tree) d := by
  cases reply : (d.step (.create path.staged)).1 with
  | error fault =>
      have same := Disk.step_create_of_error reply
      refine .call ?_ fun m _ => ?_
      · rw [reply, same]
        exact .throw (.refl path d.tree)
      · show Spared path d.tree (d.failing (.create path.staged) m.extent).tree
        rcases d.failing_cases (c := .create path.staged) (fun _ => rfl) m.extent with left | left
        · rw [left]
          exact .refl path d.tree
        · rw [left, same]
          exact .refl path d.tree
  | ok handle =>
      obtain ⟨beside, place, noSlash, vacant, made⟩ := Disk.step_create_eq_ok reply
      have stage : d.tree.Stage path beside := ⟨sound, place, noSlash, vacant⟩
      obtain ⟨revises, prepared⟩ := stage.put stage.refl []
      refine .call ?_ fun m _ => ?_
      · rw [made]
        exact ⟨beside, stage, revises, prepared, by simp⟩
      · show Spared path d.tree (d.failing (.create path.staged) m.extent).tree
        rcases d.failing_cases (c := .create path.staged) (fun _ => rfl) m.extent with left | left
        · rw [left]
          exact .refl path d.tree
        · rw [left, made]
          exact stage.spared revises

/-- What is written through the handle is prepared, as far as that goes. -/
theorem Started.ensures_fill (h : Started t path beside handle d) (content : Bytes) (sync : Bool) :
    (Action.fill handle content sync).Ensures F
      (fun x d' => Revises beside t d'.tree ∧
        (x = .ok () → d'.tree.at? beside = some (.file content))) d := by
  have fill (written : Bytes) : (d.step (.fill handle written sync)).2.tree =
      d.tree.put beside (.file written) := by
    rw [Disk.step_fill, Disk.fill, h.waits]
    simp only [h.prepared, List.drop_nil, List.append_nil]
  have put := h.stage.put h.revises
  refine .call ?_ fun m _ => ?_
  · obtain ⟨revises, prepared⟩ := put content
    rw [← fill content] at revises prepared
    exact ⟨revises, fun _ => prepared⟩
  · refine ⟨?_, fun impossible => by cases impossible⟩
    show Revises beside t (d.failing (.fill handle content sync) m.extent).tree
    cases m.extent with
    | nothing => exact h.revises
    | partly bytes => exact (fill (content.take bytes)).symm ▸ (put (content.take bytes)).1
    | everything => exact (fill content).symm ▸ (put content).1

/-- What is prepared takes the place of the target, or stays where it is. -/
theorem Stage.ensures_rename (whole : NoLateMoves F) (h : t.Stage path beside)
    (revises : Revises beside t d.tree) (prepared : d.tree.at? beside = some (.file content)) :
    (Action.rename path.staged path).Ensures F
      (fun x d' =>
        match x with
        | .ok _ => Replaced path content t d'.tree
        | .error _ => Revises beside t d'.tree) d := by
  refine .call ?_ fun m befalls => ?_
  case' refine_2 =>
    rw [whole.failing befalls]
    exact revises
  rw [Disk.step_rename]
  cases moved : (d.rename path.staged path).1 with
  | error fault =>
      rcases d.rename_cases path.staged path with ⟨_, refused⟩ | ⟨_, _, -, -, done⟩
      · rw [refused]
        exact .throw revises
      · rw [done] at moved
        cases moved
  | ok _ =>
      obtain ⟨p, q, found, found', fault, done⟩ := Disk.rename_eq_ok moved
      obtain rfl : beside = p :=
        Except.ok.inj ((place_keeps revises.keeps h.place).symm.trans found)
      have ne : q ≠ beside := by
        have led := place_keeps revises.symm.keeps found'
        exact (h.sound.exists_beside (refusal?_of_place led) h.place).ne led
      obtain ⟨plain, same | ⟨apart, notDirectory⟩⟩ := Disk.of_moveFault?_eq_none prepared fault
      · exact absurd same.symm ne
      · have noSlash : path.endsInSlash = false := (Bool.or_eq_false_iff.1 plain).2
        rw [done, if_neg ne.symm]
        exact .pure (h.replaced_move revises prepared found' noSlash apart notDirectory)

/-- Whether nothing is written through a handle but what is in a place. -/
def Awaits (beside : Place) (handle : Handle) (d : Disk) : Prop :=
  ∀ p, d.waiting[handle]? = some (some p) → p = beside

/-- A disk on which a replacement has been given up. -/
structure GivenUp (F : Tolerance) (t : FileTree) (beside : Place) (d : Disk) : Prop where
  revises : Revises beside t d.tree
  gone : SureRemovals F → d.tree.at? beside = none

/-- Two disks of which the second is what giving up a replacement makes of the first: what was
written through a handle to nothing but what is prepared still is. -/
structure ClearsAway (F : Tolerance) (t : FileTree) (beside : Place) (handle : Handle)
    (d d' : Disk) : Prop where
  up : GivenUp F t beside d'
  awaits : Awaits beside handle d → Awaits beside handle d'

/-- What is prepared is removed, if there is anything. -/
theorem Stage.clearsAway_remove (h : t.Stage path beside) (revises : Revises beside t d.tree)
    (F : Tolerance) (handle : Handle) :
    ClearsAway F t beside handle d (d.step (.remove path.staged)).2 := by
  have look := h.look revises
  cases there : d.tree.at? beside with
  | none =>
      have missing : d.tree.lookFile path.staged = .error .notFound := by
        rw [lookFile]
        rw [look, there]
        rfl
      simp only [Disk.step, missing]
      exact ⟨⟨revises, fun _ => there⟩, id⟩
  | some entry =>
      cases entry with
      | directory => exact absurd there revises.after
      | file content =>
          have found : d.tree.lookFile path.staged = .ok (beside, content) := by
            rw [lookFile]
            rw [look, there]
            rfl
          obtain ⟨pruned, gone⟩ := h.prune revises
          simp only [Disk.step, found]
          refine ⟨⟨pruned, fun _ => gone⟩, fun awaits p waits => ?_⟩
          have kept : (d.waiting.map fun place => place.bind fun p =>
              if (below? beside p).isSome then none else some p)[handle]? = some (some p) := waits
          simp only [List.getElem?_map, Option.map_eq_some_iff, Option.bind_eq_some_iff] at kept
          obtain ⟨_, waited, q, rfl, same⟩ := kept
          split at same
          · cases same
          · cases same
            exact awaits _ waited

/-- Clearing away leaves nothing where the replacement was prepared, unless that fails. -/
theorem Stage.ensures_clearAway (h : t.Stage path beside) (revises : Revises beside t d.tree)
    {r : Replacement} (replaces : r.target = path) (handle : Handle) :
    r.clearAway.Ensures F (fun _ d' => ClearsAway F t beside handle d d') d := by
  have cleared := h.clearsAway_remove revises F handle
  have remove : (Action.remove path.staged).Ensures F
      (fun _ d' => ClearsAway F t beside handle d d') d := by
    refine .call ?_ fun m befalls => ?_
    · apply Action.Ensures.ofReply
      · exact fun _ _ => cleared
      · exact fun _ _ => cleared
    · rcases d.failing_cases (c := .remove path.staged) (fun _ => rfl) m.extent with left | left
      · rw [left]
        exact ⟨⟨revises, fun sure => absurd befalls (sure _ m)⟩, id⟩
      · rw [left]
        exact cleared
  rw [Replacement.clearAway, replaces]
  refine .bind (Q := fun _ d' => ClearsAway F t beside handle d d') (.outcome remove) ?_ ?_
  · exact fun _ _ cleared => .pure cleared
  · exact fun _ _ cleared => cleared

/-- What is written after that goes nowhere. -/
theorem Stage.givenUp_fill (h : t.Stage path beside) (up : GivenUp F t beside d)
    (awaits : Awaits beside handle d) (content : Bytes) :
    GivenUp F t beside (d.fill handle content) := by
  rw [Disk.fill]
  split
  · next p waits =>
    obtain rfl := awaits p waits
    split
    · next old there =>
      refine ⟨(h.put up.revises _).1, fun sure => ?_⟩
      rw [up.gone sure] at there
      cases there
    · exact ⟨up.revises, up.gone⟩
  · exact ⟨up.revises, up.gone⟩

/-- A replacement that is given up leaves nothing behind. -/
theorem Started.ensures_discard {r : Replacement} (h : Started t r.target beside r.handle d) :
    r.discard.Ensures F (fun _ d' => GivenUp F t beside d') d := by
  have awaits : Awaits beside r.handle d := by
    intro p waits
    rw [h.waits] at waits
    exact (Option.some.inj (Option.some.inj waits)).symm
  refine .bind (h.stage.ensures_clearAway h.revises rfl r.handle) ?_
    fun _ _ cleared => cleared.up
  rintro _ d' ⟨up, kept⟩
  have fill := h.stage.givenUp_fill up (kept awaits)
  have filled : (Action.fill r.handle r.content false).Ensures F
      (fun _ d'' => GivenUp F t beside d'') d' := by
    refine .call ?_ fun m _ => ?_
    · rw [Disk.step_fill]
      exact fill r.content
    · show GivenUp F t beside (d'.failing (.fill r.handle r.content false) m.extent)
      cases m.extent with
      | nothing => exact up
      | partly bytes => exact fill (r.content.take bytes)
      | everything => exact fill r.content
  refine .bind (Q := fun _ d'' => GivenUp F t beside d'') (.outcome filled) ?_ ?_
  · exact fun _ _ up => .pure up
  · exact fun _ _ up => up

/-- A replacement is put in place or given up. -/
theorem Started.ensures_commit (whole : NoLateMoves F) {r : Replacement}
    (h : Started t r.target beside r.handle d) :
    r.commit.Ensures F
      (fun x d' =>
        match x with
        | .ok _ => Replaced r.target r.content t d'.tree
        | .error _ => GivenUp F t beside d') d := by
  have moves : Action.Ensures F (do
      Action.fill r.handle r.content r.sync
      Action.rename r.target.staged r.target)
      (fun x d' =>
        match x with
        | .ok _ => Replaced r.target r.content t d'.tree
        | .error _ => Revises beside t d'.tree) d := by
    refine .bind (h.ensures_fill r.content r.sync) ?_ fun _ _ filled => filled.1
    rintro _ d' ⟨revises, written⟩
    exact h.stage.ensures_rename whole revises (written rfl)
  refine .orElse moves (fun _ _ replaced => replaced) fun e d' revises => ?_
  exact (h.stage.ensures_clearAway revises rfl r.handle).mono fun _ _ cleared => cleared.up

theorem Stage.takenBack (h : t.Stage path beside) (up : GivenUp F t beside d) :
    TakenBack F path t d.tree := by
  refine ⟨h.spared up.revises, fun sure => ?_⟩
  rw [h.look up.revises, up.gone sure, goal_of_place h.place]

end FileTree

namespace Replacement

open FileTree

variable {F : Tolerance} {t : FileTree} {d : Disk} {target : Path} {beside : Place}
  {handle : Handle} {outlooks : List Outlook}

/-! ## Whole replacements -/

/-- What is written piece by piece is written one after the other. -/
theorem foldl_write (r : Replacement) (chunks : List Bytes) :
    chunks.foldl write r = { r with content := r.content ++ chunks.flatten } := by
  induction chunks generalizing r with
  | nil => simp
  | cons chunk chunks ih =>
      rw [List.foldl_cons, ih, write]
      simp

theorem ensures_start (sound : d.tree.IsSound) (target : Path) (sync : Bool) :
    (start target sync).Ensures F
      (fun x d' =>
        match x with
        | .ok r => ∃ handle beside, r = ⟨target, handle, [], sync⟩ ∧
            Started d.tree target beside handle d'
        | .error _ => Spared target d.tree d'.tree) d := by
  refine .bind (ensures_create_staged sound target) ?_ fun _ _ spared => spared
  rintro handle _ ⟨beside, started⟩
  exact .pure ⟨handle, beside, rfl, started⟩

/-- Starting a replacement takes one call, and what comes after it takes the others. -/
theorem performUnder_start_bind {β : Type} (d : Disk) (outlooks : List Outlook) (target : Path)
    (sync : Bool) (f : Replacement → Action β) :
    d.performUnder outlooks (start target sync >>= f) =
      match d.performUnder outlooks (start target sync) with
      | (.ok r, d') => d'.performUnder outlooks.tail (f r)
      | (.error e, d') => (.error e, d') := by
  have split : start target sync >>= f = Action.ask (.create target.staged) >>= fun reply =>
      Action.ofReply reply >>= fun handle => f ⟨target, handle, [], sync⟩ := by
    rw [start, Action.create, bind_assoc, bind_assoc]
    rfl
  have alone : start target sync = Action.ask (.create target.staged) >>= fun reply =>
      Action.ofReply reply >>= fun handle => pure ⟨target, handle, [], sync⟩ := by
    rw [start, Action.create, bind_assoc]
  rw [split, alone, Disk.performUnder_ask_bind, Disk.performUnder_ask_bind]
  generalize d.underFirst outlooks (.create target.staged) = replied
  obtain ⟨fault | handle, d'⟩ := replied
  · rfl
  · rfl

/-- What was started is put in place or taken back. -/
theorem performUnder_commit (whole : NoLateMoves F) (h : Started t target beside handle d)
    (within : ∀ o ∈ outlooks, o.Within F) (content : Bytes) (sync : Bool) :
    match d.performUnder outlooks (commit ⟨target, handle, content, sync⟩) with
    | (.ok _, d') => Replaced target content t d'.tree
    | (.error _, d') => TakenBack F target t d'.tree := by
  have started : Started t (Replacement.mk target handle content sync).target beside handle d := h
  have ended := (started.ensures_commit whole).performUnder within
  generalize d.performUnder outlooks (commit ⟨target, handle, content, sync⟩) = done at ended ⊢
  obtain ⟨e | x, d'⟩ := done
  · exact h.stage.takenBack ended
  · exact ended

/-- Whatever the file system is like, whatever befalls the calls, and whatever is written in however
many pieces: a replacement that is started and committed puts all of it in the place of the target,
and one that cannot be started or committed, or is given up, changes nothing but what is beside it,
where nothing is left if it had been started.  The same holds of replacing a file in one go.
Writing only gathers what is written, so it is on committing that a medium turns out to be full. -/
theorem replaced_or_taken_back (whole : NoLateMoves F) (sound : d.tree.IsSound)
    {later : List Outlook} (within : ∀ o ∈ outlooks, o.Within F) (after : ∀ o ∈ later, o.Within F)
    (target : Path) (sync : Bool) :
    (∀ chunks : List Bytes,
      match d.performUnder outlooks (start target sync) with
      | (.error _, d') => Spared target d.tree d'.tree
      | (.ok r, d') =>
        (match d'.performUnder later (chunks.foldl write r).commit with
        | (.ok _, d'') => Replaced target chunks.flatten d.tree d''.tree
        | (.error _, d'') => TakenBack F target d.tree d''.tree) ∧
        TakenBack F target d.tree (d'.performUnder later (chunks.foldl write r).discard).2.tree) ∧
    ∀ bytes : Bytes,
      match d.performUnder outlooks (replace target bytes sync) with
      | (.ok _, d') => Replaced target bytes d.tree d'.tree
      | (.error _, d') => Spared target d.tree d'.tree ∧
          ((d.performUnder outlooks (start target sync)).1.isOk = true →
            TakenBack F target d.tree d'.tree) := by
  have started := (ensures_start sound target sync).performUnder within
  refine ⟨fun chunks => ?_, fun bytes => ?_⟩
  · generalize d.performUnder outlooks (start target sync) = first at started
    obtain ⟨e | r, d'⟩ := first
    · exact started
    obtain ⟨handle, beside, rfl, started⟩ := started
    dsimp only
    rw [foldl_write]
    refine ⟨performUnder_commit whole started after _ sync, ?_⟩
    have begun : Started d.tree (Replacement.mk target handle chunks.flatten sync).target beside
        handle d' := started
    exact started.stage.takenBack (begun.ensures_discard.performUnder after)
  · rw [replace, performUnder_start_bind]
    generalize d.performUnder outlooks (start target sync) = first at started
    obtain ⟨e | r, d'⟩ := first
    · exact ⟨started, fun impossible => by cases impossible⟩
    obtain ⟨handle, beside, rfl, started⟩ := started
    have inner : ∀ o ∈ outlooks.tail, o.Within F := fun o mem => within o (List.mem_of_mem_tail mem)
    have ended := performUnder_commit whole started inner bytes sync
    have written : (Replacement.mk target handle [] sync).write bytes =
        ⟨target, handle, bytes, sync⟩ := rfl
    dsimp only
    rw [written]
    generalize d'.performUnder outlooks.tail (commit ⟨target, handle, bytes, sync⟩) = done
      at ended ⊢
    obtain ⟨e | x, d''⟩ := done
    · exact ⟨ended.toSpared, fun _ => ended⟩
    · exact ended

/-- Writing may stop after any number of bytes. -/
def fullMedium : Tolerance :=
  fun c m =>
    (∃ handle content sync, c = .fill handle content sync) ∧ ∃ bytes, m.extent = .partly bytes

theorem noLateMoves_fullMedium : NoLateMoves fullMedium := by
  rintro _ _ _ ⟨⟨_, _, _, impossible⟩, -⟩
  cases impossible

theorem sureRemovals_fullMedium : SureRemovals fullMedium := by
  rintro _ _ ⟨⟨_, _, _, impossible⟩, -⟩
  cases impossible

/-- The outlook in which one byte is written. -/
def oneByteLeft : Outlook
  | .fill _ _ _ => some ⟨.other "No space left on device (os error 28)", .partly 1⟩
  | _ => none

theorem within_oneByteLeft : oneByteLeft.Within fullMedium := by
  intro c m befalls
  cases c with
  | fill handle content sync =>
      cases befalls
      exact ⟨⟨handle, content, sync, rfl⟩, 1, rfl⟩
  | _ => cases befalls

/-- A file, and what was left beside it when it was to be replaced before. -/
def leftover : Disk :=
  ⟨(FileTree.empty.put ["a"] (.file [1])).put ["a.swp"] (.file [9]), []⟩

theorem isSound_leftover : leftover.tree.IsSound := by
  have first : (FileTree.empty.put ["a"] (.file [1])).IsSound :=
    isSound_empty.put rfl (by decide) _
  exact first.put rfl (by decide) _

/-- The replacement that is started there. -/
def leftoverReplacement : Replacement :=
  ⟨⟨"a"⟩, 0, [], true⟩

/-- The disk after it was started. -/
def leftoverStarted : Disk :=
  ⟨leftover.tree.put ["a.swp"] (.file []), [some ["a.swp"]]⟩

/-- What was left is used for the next replacement.  If that fails, it is gone. -/
theorem replaced_or_taken_back_leftover :
    NoLateMoves fullMedium ∧ SureRemovals fullMedium ∧ leftover.tree.IsSound ∧
      leftover.performUnder [] (start ⟨"a"⟩ true) = (.ok leftoverReplacement, leftoverStarted) ∧
      Replaced ⟨"a"⟩ [3, 4, 5] leftover.tree (leftoverStarted.performUnder []
        ([[3], [4, 5]].foldl write leftoverReplacement).commit).2.tree ∧
      TakenBack fullMedium ⟨"a"⟩ leftover.tree (leftoverStarted.performUnder [oneByteLeft]
        ([[3], [4, 5]].foldl write leftoverReplacement).commit).2.tree ∧
      TakenBack fullMedium ⟨"a"⟩ leftover.tree (leftoverStarted.performUnder []
        ([[3], [4, 5]].foldl write leftoverReplacement).discard).2.tree := by
  have started : leftover.performUnder [] (start ⟨"a"⟩ true) =
      (.ok leftoverReplacement, leftoverStarted) := by
    decide +kernel
  have none : ∀ o ∈ ([] : List Outlook), o.Within fullMedium := List.forall_mem_nil _
  have full : ∀ o ∈ [oneByteLeft], o.Within fullMedium :=
    List.forall_mem_singleton.2 within_oneByteLeft
  have outcome (later : List Outlook) (after : ∀ o ∈ later, o.Within fullMedium) :=
    (replaced_or_taken_back noLateMoves_fullMedium isSound_leftover none after ⟨"a"⟩ true).1
      [[3], [4, 5]]
  rw [started] at outcome
  have committed := (outcome [] none).1
  have failed := (outcome [oneByteLeft] full).1
  have discarded := (outcome [] none).2
  have made : (leftoverStarted.performUnder []
      ([[3], [4, 5]].foldl write leftoverReplacement).commit).1.isOk = true := by
    decide +kernel
  have missed : (leftoverStarted.performUnder [oneByteLeft]
      ([[3], [4, 5]].foldl write leftoverReplacement).commit).1.isOk = false := by
    decide +kernel
  refine ⟨noLateMoves_fullMedium, sureRemovals_fullMedium, isSound_leftover, started, ?_, ?_,
    discarded⟩
  · generalize leftoverStarted.performUnder []
      ([[3], [4, 5]].foldl write leftoverReplacement).commit = done at committed made ⊢
    obtain ⟨_ | _, _⟩ := done
    · cases made
    · exact committed
  · generalize leftoverStarted.performUnder [oneByteLeft]
      ([[3], [4, 5]].foldl write leftoverReplacement).commit = done at failed missed ⊢
    obtain ⟨_ | _, _⟩ := done
    · exact failed
    · cases missed

end Replacement

end FlatDB
