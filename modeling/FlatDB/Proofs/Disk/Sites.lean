/-
# Replacing a file under mishaps

A file is replaced as a whole or not at all, whatever befalls the calls on the
way.  If the replacement is reported to have failed the file holds what it held,
and if it is reported to have succeeded the file holds the new content.  The only
other thing that may be changed is what is beside the file under the name of its
replacement, where a file can be left behind.

That rests on one assumption about the file system: what is reported not to have
been moved has not been moved.
-/

import FlatDB.Disk.Replacement
import FlatDB.Proofs.Disk.Mishaps
import FlatDB.Proofs.Disk.Places
import FlatDB.Proofs.Disk.Replacement
import FlatDB.Proofs.Disk.Trees

namespace FlatDB

namespace FileTree

variable {t t' t'' : FileTree} {p q target beside : Place} {path : Path}

/-! ## Places apart from each other -/

/-- Two places neither of which is in the other. -/
structure Apart (p q : Place) : Prop where
  below : below? p q = none
  above : below? q p = none

theorem Apart.symm (h : Apart p q) : Apart q p :=
  ⟨h.above, h.below⟩

theorem Apart.ne (h : Apart p q) : p ≠ q :=
  ne_of_below?_eq_none h.above

/-- What is in one of the places is not the other. -/
theorem Apart.append_ne (h : Apart p q) (inner : Place) : inner ++ p ≠ q := by
  rintro rfl
  have below := h.below
  rw [below?_append] at below
  cases below

/-- Different places at one depth are apart. -/
theorem apart_of_length_eq (length : p.length = q.length) (ne : p ≠ q) : Apart p q :=
  ⟨below?_of_length_eq length ne, below?_of_length_eq length.symm ne.symm⟩

/-- Removing what has nothing in it removes nothing else. -/
theorem at?_prune_of_childless (ne : p ≠ []) (childless : t.Childless p) (other : Place) :
    (t.prune p).at? other = if other = p then none else t.at? other := by
  by_cases root : other = []
  · rw [root, if_neg ne.symm]
    rfl
  · rw [at?_prune t p root]
    cases below : below? p other with
    | none => rw [if_neg (ne_of_below?_eq_none below)]; rfl
    | some inner =>
        have split := below?_eq_some_iff.1 below
        by_cases here : inner = []
        · simp [split, here]
        · rw [split, childless inner here]
          simp

/-- Moving what has nothing in it to where there is nothing in what is there moves nothing
else. -/
theorem at?_move_of_childless (hp : p ≠ []) (hq : q ≠ []) (apart : Apart p q)
    (sourceless : t.Childless p) (targetless : t.Childless q) (other : Place) :
    (t.move p q).at? other =
      if other = q then t.at? p else if other = p then none else t.at? other := by
  rw [at?_move t hp hq]
  cases below : below? q other with
  | some inner =>
      have split := below?_eq_some_iff.1 below
      by_cases here : inner = []
      · simp [split, here]
      · have elsewhere : inner ++ q ≠ q := by simp [here]
        simp only [split, if_neg elsewhere, if_neg (apart.symm.append_ne inner),
          sourceless inner here, targetless inner here]
  | none =>
      simp only [if_neg (ne_of_below?_eq_none below)]
      cases inside : below? p other with
      | none => rw [if_neg (ne_of_below?_eq_none inside)]; rfl
      | some inner =>
          have split := below?_eq_some_iff.1 inside
          by_cases here : inner = []
          · simp [split, here]
          · rw [split, sourceless inner here]
            simp

/-! ## Where paths lead -/

/-- Names that lead somewhere lead there in every tree that keeps the directories. -/
theorem walk_keeps (keeps : t.Keeps t') {here : Place} {names : List String}
    (h : t.walk here names = .ok p) : t'.walk here names = .ok p := by
  induction names generalizing here with
  | nil => exact h
  | cons name rest ih =>
      rcases walk_cons_ok h with ⟨rfl, h⟩ | ⟨rfl, h⟩ | ⟨notDot, notDots, short, last | ⟨found, h⟩⟩
      · rw [walk_dot, ih h]
      · rw [walk_dots, ih h]
      · obtain ⟨rfl, rfl⟩ := last
        rw [walk_last notDot notDots short]
      · rw [walk_down notDot notDots short (keeps.directories _ found), ih h]

theorem place_keeps (keeps : t.Keeps t') (h : t.place path = .ok p) : t'.place path = .ok p := by
  rw [place] at h ⊢
  cases refused : refusal? path with
  | some fault => simp [refused] at h
  | none =>
      rw [refused] at h
      rw [start, keeps.here, ← start]
      exact walk_keeps keeps h

theorem look_of_place (h : t.place path = .ok p) (plain : path.endsInSlash = false) :
    t.look path = .ok (p, t.at? p) := by
  rw [look]
  rw [h]
  simp only [Result.ok_bind, plain]
  cases t.at? p with
  | none => rfl
  | some entry => cases entry <;> rfl

/-! ## Sites -/

/-- Where a file is, or would be, and where its replacement would be prepared. -/
structure Site (t : FileTree) (path : Path) (target beside : Place) : Prop where
  place : t.place path = .ok target
  placeStaged : t.place path.staged = .ok beside
  noSlash : path.endsInSlash = false
  noSlashStaged : path.staged.endsInSlash = false
  noDots : Disk.endsInDots path = false
  noDotsStaged : Disk.endsInDots path.staged = false
  ne_nil : target ≠ []
  ne_nil_beside : beside ≠ []
  apart : Apart beside target
  /-- There is no directory in the place of the file. -/
  notDirectory : t.at? target ≠ some .directory
  childless : t.Childless target
  childlessBeside : t.at? beside ≠ some .directory → t.Childless beside

/-- Two trees that differ at most in the content of a file and of what is beside it. -/
structure Stirs (target beside : Place) (t t' : FileTree) : Prop where
  here : t'.here = t.here
  elsewhere : ∀ p, p ≠ target → p ≠ beside → t'.at? p = t.at? p
  notDirectory : t'.at? target ≠ some .directory
  directory : t'.at? beside = some .directory ↔ t.at? beside = some .directory

namespace Stirs

theorem refl (notDirectory : t.at? target ≠ some .directory) : Stirs target beside t t :=
  ⟨rfl, fun _ _ _ => rfl, notDirectory, Iff.rfl⟩

theorem trans (h : Stirs target beside t t') (h' : Stirs target beside t' t'') :
    Stirs target beside t t'' :=
  ⟨h'.here.trans h.here, fun p hp hq => (h'.elsewhere p hp hq).trans (h.elsewhere p hp hq),
    h'.notDirectory, h'.directory.trans h.directory⟩

theorem keeps (h : Stirs target beside t t') (notDirectory : t.at? target ≠ some .directory) :
    t.Keeps t' := by
  refine ⟨h.here, fun p directory => ?_⟩
  by_cases atTarget : p = target
  · exact absurd (atTarget ▸ directory) notDirectory
  by_cases atBeside : p = beside
  · rw [atBeside] at directory ⊢
    exact h.directory.2 directory
  · rw [h.elsewhere p atTarget atBeside, directory]

/-- What is in a place that is apart from both is still in it. -/
theorem childless (h : Stirs target beside t t') (childless : t.Childless p)
    (notTarget : ∀ inner, inner ≠ [] → inner ++ p ≠ target)
    (notBeside : ∀ inner, inner ≠ [] → inner ++ p ≠ beside) : t'.Childless p :=
  fun inner ne => (h.elsewhere _ (notTarget inner ne) (notBeside inner ne)).trans
    (childless inner ne)

end Stirs

/-- A file in a directory has its site there, if a replacement can be prepared beside it. -/
theorem Leads.site {parent : Path} {directory name : String}
    (h : t.Leads (parent.join directory) q) (hd : Path.IsStep directory)
    (ne : parent.text.toList ≠ []) (step : Path.IsStep name)
    (admits : (parent.join directory).Admits (stagedName name))
    (notDirectory : t.at? (name :: q) ≠ some .directory) (childless : t.Childless (name :: q))
    (childlessBeside : t.at? (stagedName name :: q) ≠ some .directory →
      t.Childless (stagedName name :: q)) :
    t.Site ((parent.join directory).join name) (name :: q) (stagedName name :: q) := by
  have staged := isStep_stagedName step
  have path : ((parent.join directory).join name).staged =
      (parent.join directory).join (stagedName name) :=
    Path.staged_join_join hd step ne
  exact {
    place := by rw [h.place_join step, if_pos admits.of_staged]
    placeStaged := by rw [path, h.place_join staged, if_pos admits]
    noSlash := Path.endsInSlash_join step h.ne_nil
    noSlashStaged := by rw [path, Path.endsInSlash_join staged h.ne_nil]
    noDots := Disk.endsInDots_join step h.ne_nil
    noDotsStaged := by rw [path, Disk.endsInDots_join staged h.ne_nil]
    ne_nil := List.cons_ne_nil _ _
    ne_nil_beside := List.cons_ne_nil _ _
    apart := apart_of_length_eq rfl (by simp [stagedName_ne])
    notDirectory, childless, childlessBeside }

namespace Site

theorem keeps (h : t.Site path target beside) (stirs : Stirs target beside t t') : t.Keeps t' :=
  stirs.keeps h.notDirectory

theorem refl (h : t.Site path target beside) : Stirs target beside t t :=
  .refl h.notDirectory

/-- A site is there as long as only its own file and what is beside it change. -/
theorem stirs (h : t.Site path target beside) (stirs : Stirs target beside t t') :
    t'.Site path target beside := by
  have keeps := h.keeps stirs
  refine { h with
    place := place_keeps keeps h.place
    placeStaged := place_keeps keeps h.placeStaged
    notDirectory := stirs.notDirectory
    childless := stirs.childless h.childless (by simp) fun inner _ => h.apart.symm.append_ne inner
    childlessBeside := fun notDirectory => ?_ }
  exact stirs.childless
    (h.childlessBeside fun directory => notDirectory (stirs.directory.2 directory))
    (fun inner _ => h.apart.append_ne inner) (by simp)

/-- A site is there as long as only a file apart from it changes. -/
theorem apart_stirs {target' beside' : Place} (h : t.Site path target beside)
    (stirs : Stirs target' beside' t t') (keeps : t.Keeps t')
    (first : Apart target target') (second : Apart target beside') (third : Apart beside target')
    (fourth : Apart beside beside') : t'.Site path target beside := by
  have same := stirs.elsewhere target first.ne second.ne
  have sameBeside := stirs.elsewhere beside third.ne fourth.ne
  refine { h with
    place := place_keeps keeps h.place
    placeStaged := place_keeps keeps h.placeStaged
    notDirectory := same ▸ h.notDirectory
    childless := stirs.childless h.childless (fun inner _ => first.append_ne inner)
      fun inner _ => second.append_ne inner
    childlessBeside := fun notDirectory => ?_ }
  exact stirs.childless (h.childlessBeside (sameBeside ▸ notDirectory))
    (fun inner _ => third.append_ne inner) fun inner _ => fourth.append_ne inner

end Site

/-! ## Steps of a replacement -/

/-- Two trees that differ at most in what is beside a file. -/
structure Spares (target beside : Place) (t t' : FileTree) : Prop extends
    Stirs target beside t t' where
  same : t'.at? target = t.at? target

/-- Two trees in the second of which the replacement of a file is prepared. -/
structure Prepares (target beside : Place) (content : Bytes) (t t' : FileTree) : Prop extends
    Spares target beside t t' where
  prepared : t'.at? beside = some (.file content)

namespace Site

/-- A site where a file is beside the other. -/
theorem childless_of_file (h : t.Site path target beside) {content : Bytes}
    (file : t.at? beside = some (.file content)) : t.Childless beside :=
  h.childlessBeside (by rw [file]; simp)

theorem spares (h : t.Site path target beside) : Spares target beside t t :=
  ⟨h.refl, rfl⟩

/-- Writing a file beside another. -/
theorem prepares_put (h : t.Site path target beside)
    (notDirectory : t.at? beside ≠ some .directory) (content : Bytes) :
    Prepares target beside content t (t.put beside (.file content)) := by
  have put := at?_put t h.ne_nil_beside (.file content)
  refine { here := rfl, elsewhere := fun p _ away => ?_, notDirectory := ?_, directory := ?_,
           same := ?_, prepared := ?_ }
  · rw [put, if_neg away]
  · rw [put, if_neg h.apart.ne.symm]
    exact h.notDirectory
  · rw [put, if_pos rfl]
    exact iff_of_false (by simp) notDirectory
  · rw [put, if_neg h.apart.ne.symm]
  · rw [put, if_pos rfl]

/-- Taking away the file beside another. -/
theorem spares_prune (h : t.Site path target beside) {content : Bytes}
    (file : t.at? beside = some (.file content)) : Spares target beside t (t.prune beside) := by
  have prune := at?_prune_of_childless h.ne_nil_beside (h.childless_of_file file)
  refine { here := rfl, elsewhere := fun p _ away => ?_, notDirectory := ?_, directory := ?_,
           same := ?_ }
  · rw [prune, if_neg away]
  · rw [prune, if_neg h.apart.ne.symm]
    exact h.notDirectory
  · rw [prune, if_pos rfl, file]
    simp
  · rw [prune, if_neg h.apart.ne.symm]

/-- Moving the file beside another over it. -/
theorem stirs_move (h : t.Site path target beside) {content : Bytes}
    (file : t.at? beside = some (.file content)) :
    Stirs target beside t (t.move beside target) ∧
      (t.move beside target).at? target = some (.file content) := by
  have move := at?_move_of_childless h.ne_nil_beside h.ne_nil h.apart (h.childless_of_file file)
    h.childless
  refine ⟨{ here := rfl, elsewhere := fun p hp hq => ?_, notDirectory := ?_, directory := ?_ }, ?_⟩
  · rw [move, if_neg hp, if_neg hq]
  · rw [move, if_pos rfl, file]
    simp
  · rw [move, if_neg h.apart.ne, if_pos rfl, file]
    simp
  · rw [move, if_pos rfl, file]

end Site

theorem Spares.trans (h : Spares target beside t t') (h' : Spares target beside t' t'') :
    Spares target beside t t'' :=
  ⟨h.toStirs.trans h'.toStirs, h'.same.trans h.same⟩

/-- A tolerance of a file system where what has not been reported as moved has not been
moved. -/
def NoLateMoves (F : Tolerance) : Prop :=
  ∀ source target m, F (.rename source target) m → m.extent ≠ .everything

variable {F : Tolerance} {d : Disk}

theorem NoLateMoves.failing (whole : NoLateMoves F) {source target : Path} {m : Mishap}
    (befalls : F (.rename source target) m) (d : Disk) :
    d.failing (.rename source target) m.extent = d := by
  cases extent : m.extent with
  | nothing => rfl
  | partly bytes => rfl
  | everything => exact absurd extent (whole _ _ m befalls)

namespace Site

/-- Nothing is created beside a file where there is a directory. -/
theorem step_create_staged_of_directory (h : d.tree.Site path target beside)
    (directory : d.tree.at? beside = some .directory) :
    d.step (.create path.staged) = (.error .isDirectory, d) := by
  simp only [Disk.step, look_of_place h.placeStaged h.noSlashStaged, directory]

/-- Creating a file beside another. -/
theorem step_create_staged (h : d.tree.Site path target beside)
    (notDirectory : d.tree.at? beside ≠ some .directory) :
    d.step (.create path.staged) = (.ok d.waiting.length,
      ⟨d.tree.put beside (.file []), d.waiting ++ [some beside]⟩) := by
  simp only [Disk.step, look_of_place h.placeStaged h.noSlashStaged, h.noSlashStaged,
    Bool.false_eq_true, if_false]

/-- Starting a replacement leaves the file alone. -/
theorem ensures_create (h : d.tree.Site path target beside) :
    (Action.create path.staged).Ensures F
      (fun x d' =>
        match x with
        | .ok handle =>
          Prepares target beside [] d.tree d'.tree ∧ d'.waiting[handle]? = some (some beside)
        | .error _ => Spares target beside d.tree d'.tree) d := by
  by_cases directory : d.tree.at? beside = some .directory
  · have step := h.step_create_staged_of_directory directory
    refine .call ?_ fun m _ => ?_
    · rw [step]
      exact h.spares
    · have left : d.failing (.create path.staged) m.extent = d := by
        cases m.extent <;> simp [Disk.failing, Call.cut?, step]
      rw [left]
      exact h.spares
  · have step := h.step_create_staged directory
    have prepares := h.prepares_put directory []
    refine .call ?_ fun m _ => ?_
    · rw [step]
      exact ⟨prepares, by simp⟩
    · show Spares target beside d.tree (d.failing (.create path.staged) m.extent).tree
      cases m.extent with
      | nothing => exact h.spares
      | partly bytes => exact h.spares
      | everything =>
          rw [Disk.failing, step]
          exact prepares.toSpares

/-- What was written beside a file may be written anew. -/
theorem prepares_put_of_prepares (h : t.Site path target beside) {content : Bytes}
    (prepares : Prepares target beside content t t') (content' : Bytes) :
    Prepares target beside content' t (t'.put beside (.file content')) := by
  have notDirectory : t'.at? beside ≠ some .directory := by
    rw [prepares.prepared]
    simp
  have put := (h.stirs prepares.toStirs).prepares_put notDirectory content'
  exact ⟨prepares.toSpares.trans put.toSpares, put.prepared⟩

/-- What is written through the handle is prepared. -/
theorem prepares_fill (h : t.Site path target beside) {handle : Handle}
    (prepares : Prepares target beside [] t d.tree)
    (waits : d.waiting[handle]? = some (some beside)) (sync : Bool) (written : Bytes) :
    Prepares target beside written t (d.step (.fill handle written sync)).2.tree := by
  have put := h.prepares_put_of_prepares prepares written
  rw [Disk.step_fill, Disk.fill, waits]
  simpa only [prepares.prepared, List.drop_nil, List.append_nil] using put

/-- However much is written, it is written beside the file. -/
theorem ensures_fill (h : t.Site path target beside) {handle : Handle}
    (prepares : Prepares target beside [] t d.tree)
    (waits : d.waiting[handle]? = some (some beside)) (content : Bytes) (sync : Bool) :
    (Action.fill handle content sync).Ensures F
      (fun x d' => ∃ written, Prepares target beside written t d'.tree ∧
        (x = .ok () → written = content)) d := by
  have fill := h.prepares_fill prepares waits sync
  refine .call ?_ fun m _ => ?_
  · exact ⟨content, fill content, fun _ => rfl⟩
  · show ∃ written, Prepares target beside written t
      (d.failing (.fill handle content sync) m.extent).tree ∧ _
    cases m.extent with
    | nothing => exact ⟨[], prepares, fun impossible => nomatch impossible⟩
    | partly bytes =>
        exact ⟨content.take bytes, fill (content.take bytes), fun impossible => nomatch impossible⟩
    | everything => exact ⟨content, fill content, fun impossible => nomatch impossible⟩

/-- Moving a file that is beside another over it. -/
theorem step_rename_staged (h : d.tree.Site path target beside) {content : Bytes}
    (prepared : d.tree.at? beside = some (.file content)) :
    d.step (.rename path.staged path) = (.ok (), d.move beside target) := by
  have fault : Disk.moveFault? d.tree beside target false = none := by
    simp only [Disk.moveFault?, prepared, Entry.kind, Bool.false_and, h.apart.ne,
      h.apart.below, h.apart.above]
    cases found : d.tree.at? target with
    | none => rfl
    | some entry =>
        cases entry with
        | file old => rfl
        | directory => exact absurd found h.notDirectory
  rw [Disk.step_rename, Disk.rename]
  simp only [h.place, h.placeStaged, h.noDots, h.noDotsStaged, h.noSlash,
    h.noSlashStaged, Bool.or_self, Bool.false_eq_true, if_false, fault, h.apart.ne]

/-- What is prepared takes the place of the file, or stays where it is. -/
theorem ensures_rename (whole : NoLateMoves F) (h : t.Site path target beside) {content : Bytes}
    (prepares : Prepares target beside content t d.tree) :
    (Action.rename path.staged path).Ensures F
      (fun x d' =>
        match x with
        | .ok _ => Stirs target beside t d'.tree ∧ d'.tree.at? target = some (.file content)
        | .error _ => Prepares target beside content t d'.tree) d := by
  have site := h.stirs prepares.toStirs
  have step := site.step_rename_staged prepares.prepared
  obtain ⟨moved, there⟩ := site.stirs_move prepares.prepared
  refine .call ?_ fun m befalls => ?_
  · rw [step]
    exact ⟨prepares.toStirs.trans moved, there⟩
  · rw [whole.failing befalls]
    exact prepares

/-- Taking away what is prepared leaves the file alone. -/
theorem ensures_clearAway (h : t.Site path target beside) {content : Bytes}
    (prepares : Prepares target beside content t d.tree) (r : Replacement)
    (replaces : r.target = path) :
    r.clearAway.Ensures F (fun _ d' => Spares target beside t d'.tree) d := by
  have site := h.stirs prepares.toStirs
  have look : d.tree.lookFile path.staged = .ok (beside, content) := by
    rw [lookFile]
    rw [look_of_place site.placeStaged site.noSlashStaged, prepares.prepared]
    rfl
  have step : d.step (.remove path.staged) = (.ok (), d.prune beside) := by
    simp only [Disk.step, look]
  have pruned := prepares.toSpares.trans (site.spares_prune prepares.prepared)
  have removed : (Action.remove path.staged).Ensures F
      (fun _ d' => Spares target beside t d'.tree) d := by
    refine .call ?_ fun m _ => ?_
    · rw [step]
      exact pruned
    · show Spares target beside t (d.failing (.remove path.staged) m.extent).tree
      cases m.extent with
      | nothing => exact prepares.toSpares
      | partly bytes => exact prepares.toSpares
      | everything =>
          rw [Disk.failing, step]
          exact pruned
  rw [Replacement.clearAway, replaces]
  refine .bind (Q := fun _ d' => Spares target beside t d'.tree) (.outcome removed) ?_ ?_
  · exact fun _ _ spares => .pure spares
  · exact fun _ _ spares => spares

theorem ensures_start (h : d.tree.Site path target beside) (sync : Bool) :
    (Replacement.start path sync).Ensures F
      (fun x d' =>
        match x with
        | .ok r => r = ⟨path, r.handle, [], sync⟩ ∧ Prepares target beside [] d.tree d'.tree ∧
            d'.waiting[r.handle]? = some (some beside)
        | .error _ => Spares target beside d.tree d'.tree) d :=
  .bind h.ensures_create (fun _ _ created => .pure ⟨rfl, created⟩) fun _ _ spares => spares

/-- A replacement is put in place, or given up. -/
theorem ensures_commit (whole : NoLateMoves F) (h : t.Site path target beside) {r : Replacement}
    (replaces : r.target = path) (prepares : Prepares target beside [] t d.tree)
    (waits : d.waiting[r.handle]? = some (some beside)) :
    r.commit.Ensures F
      (fun x d' => Stirs target beside t d'.tree ∧ d'.tree.at? target =
        match x with
        | .ok _ => some (.file r.content)
        | .error _ => t.at? target) d := by
  obtain ⟨path', handle, content, sync⟩ := r
  obtain rfl : path' = path := replaces
  -- Until it is moved the new content is beside the file, as far as it got.
  have moves : Action.Ensures F (do
      Action.fill handle content sync
      Action.rename path'.staged path')
      (fun x d' =>
        match x with
        | .ok _ => Stirs target beside t d'.tree ∧ d'.tree.at? target = some (.file content)
        | .error _ => ∃ written, Prepares target beside written t d'.tree) d := by
    refine .bind (h.ensures_fill prepares waits content sync) ?_ ?_
    · rintro _ d' ⟨written, prepares, whole'⟩
      rw [whole' rfl] at prepares
      refine (h.ensures_rename whole prepares).mono fun x d'' moved => ?_
      cases x with
      | ok _ => exact moved
      | error e => exact ⟨content, moved⟩
    · exact fun e d' ⟨written, prepares, _⟩ => ⟨written, prepares⟩
  refine .orElse moves (fun _ _ moved => moved) fun e d' ⟨written, prepares⟩ => ?_
  exact (h.ensures_clearAway prepares _ rfl).mono fun _ d'' spares => ⟨spares.toStirs, spares.same⟩

/-- A file is replaced as a whole, or left alone. -/
theorem ensures_replace (whole : NoLateMoves F) (h : d.tree.Site path target beside)
    (bytes : Bytes) (sync : Bool) :
    (Replacement.replace path bytes sync).Ensures F
      (fun x d' => Stirs target beside d.tree d'.tree ∧ d'.tree.at? target =
        match x with
        | .ok _ => some (.file bytes)
        | .error _ => d.tree.at? target) d := by
  refine .bind (h.ensures_start sync) ?_ fun e d' spares => ⟨spares.toStirs, spares.same⟩
  rintro r d' ⟨made, prepares, waits⟩
  have content : (r.write bytes).content = bytes := by
    rw [made]
    rfl
  have commits := h.ensures_commit whole (r := r.write bytes) (by rw [made]; rfl) prepares waits
  rw [content] at commits
  exact commits

/-! ## Calls on the file itself -/

/-- Writing the file itself. -/
theorem stirs_put (h : t.Site path target beside) (content : Bytes) :
    Stirs target beside t (t.put target (.file content)) ∧
      (t.put target (.file content)).at? target = some (.file content) := by
  have put := at?_put t h.ne_nil (.file content)
  refine ⟨{ here := rfl, elsewhere := fun p away _ => ?_, notDirectory := ?_, directory := ?_ }, ?_⟩
  · rw [put, if_neg away]
  · rw [put, if_pos rfl]
    simp
  · rw [put, if_neg h.apart.ne]
  · rw [put, if_pos rfl]

theorem lookFile (h : t.Site path target beside) {content : Bytes}
    (file : t.at? target = some (.file content)) : t.lookFile path = .ok (target, content) := by
  rw [FileTree.lookFile]
  rw [look_of_place h.place h.noSlash, file]
  rfl

/-- Reading the file tells its content, or that there is none. -/
theorem step_read (h : d.tree.Site path target beside) :
    (d.step (.read path)).1 =
      match d.tree.at? target with
      | some (.file bytes) => .ok (.content bytes)
      | _ => .error .notFound := by
  have look := look_of_place h.place h.noSlash
  have notDirectory := h.notDirectory
  cases found : d.tree.at? target with
  | none =>
      rw [found] at look
      simp only [Disk.step, look]
  | some entry =>
      rw [found] at look
      cases entry with
      | file bytes => simp only [Disk.step, look]
      | directory => exact absurd found notDirectory

theorem step_append (h : d.tree.Site path target beside) {content : Bytes}
    (file : d.tree.at? target = some (.file content)) (more : Bytes) (sync : Bool) :
    d.step (.append path more sync) = (.ok (), d.put target (.file (content ++ more))) := by
  simp only [Disk.step, h.lookFile file]

theorem step_create_target (h : d.tree.Site path target beside) :
    d.step (.create path) = (.ok d.waiting.length,
      ⟨d.tree.put target (.file []), d.waiting ++ [some target]⟩) := by
  have look := look_of_place h.place h.noSlash
  have notDirectory := h.notDirectory
  cases found : d.tree.at? target with
  | none =>
      rw [found] at look
      simp only [Disk.step, look, h.noSlash, Bool.false_eq_true, if_false]
  | some entry =>
      rw [found] at look
      cases entry with
      | file old => simp only [Disk.step, look, h.noSlash, Bool.false_eq_true, if_false]
      | directory => exact absurd found notDirectory

/-- Creating the file itself. -/
theorem ensures_create_target (h : d.tree.Site path target beside) :
    (Action.create path).Ensures F
      (fun x d' => Stirs target beside d.tree d'.tree ∧
        ∀ handle, x = .ok handle → d'.tree.at? target = some (.file [])) d := by
  have step := h.step_create_target
  obtain ⟨stirs, there⟩ := h.stirs_put []
  refine .call ?_ fun m _ => ?_
  · rw [step]
    exact ⟨stirs, fun _ _ => there⟩
  · refine ⟨?_, fun _ impossible => nomatch impossible⟩
    show Stirs target beside d.tree (d.failing (.create path) m.extent).tree
    cases m.extent with
    | nothing => exact h.refl
    | partly bytes => exact h.refl
    | everything =>
        rw [Disk.failing, step]
        exact stirs

/-- Writing at the end of the file.  Where that fails, it may have been done. -/
theorem ensures_append (h : d.tree.Site path target beside) {content : Bytes}
    (file : d.tree.at? target = some (.file content)) (more : Bytes) (sync : Bool)
    (whole : ∀ m, F (.append path more sync) m → ∀ bytes, m.extent ≠ .partly bytes) :
    (Action.append path more sync).Ensures F
      (fun x d' => Stirs target beside d.tree d'.tree ∧
        match x with
        | .ok _ => d'.tree.at? target = some (.file (content ++ more))
        | .error _ => d'.tree.at? target = some (.file content) ∨
            (∃ m, F (.append path more sync) m ∧ m.extent = .everything) ∧
              d'.tree.at? target = some (.file (content ++ more))) d := by
  have step := h.step_append file more sync
  obtain ⟨stirs, there⟩ := h.stirs_put (content ++ more)
  refine .call ?_ fun m befalls => ?_
  · rw [step]
    exact ⟨stirs, there⟩
  · show Stirs target beside d.tree (d.failing (.append path more sync) m.extent).tree ∧ _
    cases extent : m.extent with
    | nothing => exact ⟨h.refl, .inl file⟩
    | partly bytes => exact absurd extent (whole m befalls bytes)
    | everything =>
        rw [Disk.failing, step]
        exact ⟨stirs, .inr ⟨⟨m, befalls, extent⟩, there⟩⟩

/-- Emptying the file.  Where that fails, it may have been done. -/
theorem ensures_truncate (h : d.tree.Site path target beside) {content : Bytes}
    (file : d.tree.at? target = some (.file content)) (sync : Bool) :
    (Action.truncate path sync).Ensures F
      (fun x d' => Stirs target beside d.tree d'.tree ∧
        match x with
        | .ok _ => d'.tree.at? target = some (.file [])
        | .error _ => d'.tree.at? target = some (.file content) ∨
            (∃ m, F (.truncate path sync) m ∧ m.extent = .everything) ∧
              d'.tree.at? target = some (.file [])) d := by
  have step : d.step (.truncate path sync) = (.ok (), d.put target (.file [])) := by
    simp only [Disk.step, h.lookFile file]
  obtain ⟨stirs, there⟩ := h.stirs_put []
  refine .call ?_ fun m befalls => ?_
  · rw [step]
    exact ⟨stirs, there⟩
  · show Stirs target beside d.tree (d.failing (.truncate path sync) m.extent).tree ∧ _
    cases extent : m.extent with
    | nothing => exact ⟨h.refl, .inl file⟩
    | partly bytes => exact ⟨h.refl, .inl file⟩
    | everything =>
        rw [Disk.failing, step]
        exact ⟨stirs, .inr ⟨⟨m, befalls, extent⟩, there⟩⟩

/-- Taking the file away. -/
theorem stirs_prune (h : t.Site path target beside) :
    Stirs target beside t (t.prune target) ∧ (t.prune target).at? target = none := by
  have prune := at?_prune_of_childless h.ne_nil h.childless
  refine ⟨{ here := rfl, elsewhere := fun p away _ => ?_, notDirectory := ?_, directory := ?_ }, ?_⟩
  · rw [prune, if_neg away]
  · rw [prune, if_pos rfl]
    simp
  · rw [prune, if_neg h.apart.ne]
  · rw [prune, if_pos rfl]

/-- Removing the file.  Where that fails, it may have been done. -/
theorem ensures_remove (h : d.tree.Site path target beside) :
    (Action.remove path).Ensures F
      (fun _ d' => Stirs target beside d.tree d'.tree ∧ (d'.tree.at? target = none ∨
        (∃ m, F (.remove path) m) ∧ d'.tree.at? target = d.tree.at? target)) d := by
  have step : Stirs target beside d.tree (d.step (.remove path)).2.tree ∧
      (d.step (.remove path)).2.tree.at? target = none := by
    cases found : d.tree.at? target with
    | none =>
        have look : d.tree.lookFile path = .error .notFound := by
          rw [FileTree.lookFile]
          rw [look_of_place h.place h.noSlash, found]
          rfl
        simp only [Disk.step, look]
        exact ⟨h.refl, found⟩
    | some entry =>
        cases entry with
        | file content =>
            simp only [Disk.step, h.lookFile found]
            exact h.stirs_prune
        | directory => exact absurd found h.notDirectory
  refine .call (.ofReply (fun _ _ => ⟨step.1, .inl step.2⟩) fun _ _ => ⟨step.1, .inl step.2⟩)
    fun m befalls => ?_
  show Stirs target beside d.tree (d.failing (.remove path) m.extent).tree ∧
    ((d.failing (.remove path) m.extent).tree.at? target = none ∨ _)
  cases m.extent with
  | nothing => exact ⟨h.refl, .inr ⟨⟨m, befalls⟩, rfl⟩⟩
  | partly bytes => exact ⟨h.refl, .inr ⟨⟨m, befalls⟩, rfl⟩⟩
  | everything => exact ⟨step.1, .inl step.2⟩

end Site

end FileTree

end FlatDB
