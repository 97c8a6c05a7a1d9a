/-
# What a fence keeps out

A fence is drawn around some places, and some paths lead nowhere else.  A program that
keeps to these paths leaves every other place as it is, whatever mishaps befall it: a
path that leads anywhere leads where its names do, whatever the tree has become by
then, a file that was made inside the fence stays inside when it is moved, and of the
directories on a way that is made those outside are there already.
-/

import FlatDB.Proofs.Disk.Absence
import FlatDB.Proofs.Disk.Confinement

namespace FlatDB

namespace FileTree

/-! ## Fences -/

/-- Whether a second tree is the same as a first everywhere but in an area. -/
structure SameBut (area : Place → Prop) (t u : FileTree) : Prop where
  here : u.here = t.here
  outside : ∀ p, ¬ area p → u.at? p = t.at? p

/-- Whether paths that are `within` lead into an area only, in a tree and in every tree that
is the same outside of the area. -/
structure Fence (t : FileTree) (within : Path → Prop) (area : Place → Prop) : Prop where
  nonempty : ∀ p, area p → p ≠ []
  below : ∀ p inner, area p → area (inner ++ p)
  goal : ∀ path, within path → area (t.goal path)
  /-- The steps of a path lead to a directory that is there, and from there on inside. -/
  ways : ∀ path, within path → ∃ base inner, path.steps = base ++ inner ∧ inner ≠ [] ∧
    (∀ front, front <+: inner → front ≠ [] → area (follow (t.start path) (base ++ front))) ∧
    ∀ u, SameBut area t u → ensure (t.start path) base u = (.ok (), u)

/-- A disk on which everything outside of an area is as in a tree, and every file that waits
to be written through a handle of the program is in the area. -/
structure Fenced (t : FileTree) (area : Place → Prop) (own : List Handle) (d : Disk) : Prop
    extends SameBut area t d.tree where
  handles : ∀ handle ∈ own, ∀ p, d.waiting[handle]? = some (some p) → area p

variable {t : FileTree} {within : Path → Prop} {area : Place → Prop} {own : List Handle}
  {d : Disk} {place p : Place} {path : Path}

namespace Fence

/-- A path leads into the area. -/
theorem area_of_place (h : t.Fence within area) (fenced : t.Fenced area own d)
    (inside : within path) (found : d.tree.place path = .ok p) : area p := by
  rw [← goal_of_place found, goal_of_here fenced.here]
  exact h.goal path inside

theorem area_of_look (h : t.Fence within area) (fenced : t.Fenced area own d)
    (inside : within path) {entry : Option Entry} (found : d.tree.look path = .ok (p, entry)) :
    area p :=
  h.area_of_place fenced inside (place_of_look found).1

theorem area_of_lookFile (h : t.Fence within area) (fenced : t.Fenced area own d)
    (inside : within path) {content : Bytes} (found : d.tree.lookFile path = .ok (p, content)) :
    area p := by
  rw [lookFile] at found
  obtain ⟨⟨q, entry⟩, looked, found⟩ := Result.bind_eq_ok.1 found
  have there := h.area_of_look fenced inside looked
  rcases entry with _ | _ | _
  · cases found
  · cases found
    exact there
  · cases found

/-! ## Changes inside -/

/-- What is put inside the area is no change outside. -/
theorem at?_put (h : t.Fence within area) (inside : area place) (u : FileTree) (entry : Entry)
    (away : ¬ area p) : (u.put place entry).at? p = u.at? p := by
  rw [FileTree.at?_put u (h.nonempty place inside), if_neg]
  rintro rfl
  exact away inside

/-- A place outside is not below one that is inside. -/
theorem below?_eq_none (h : t.Fence within area) (inside : area place) (away : ¬ area p) :
    below? place p = none := by
  cases below : below? place p with
  | none => rfl
  | some inner =>
      rw [below?_eq_some_iff.1 below] at away
      exact absurd (h.below place inner inside) away

theorem fenced_put (h : t.Fence within area) (fenced : t.Fenced area own d) (inside : area place)
    (entry : Entry) : t.Fenced area own (d.put place entry) :=
  ⟨⟨fenced.here, fun p away =>
    (h.at?_put inside d.tree entry away).trans (fenced.outside p away)⟩, fenced.handles⟩

/-- Files that wait are followed. -/
theorem handles_relocate (fenced : t.Fenced area own d) {whither : Place → Option Place}
    (stays : ∀ p q, area p → whither p = some q → area q) :
    ∀ handle ∈ own, ∀ p, (d.relocate whither).waiting[handle]? = some (some p) → area p := by
  intro handle mem p waits
  rw [Disk.relocate, List.getElem?_map] at waits
  obtain ⟨was, waited, moved⟩ := Option.map_eq_some_iff.1 waits
  obtain ⟨q, rfl, whither⟩ := Option.bind_eq_some_iff.1 moved
  exact stays q p (fenced.handles handle mem q waited) whither

theorem fenced_prune (h : t.Fence within area) (fenced : t.Fenced area own d)
    (inside : area place) : t.Fenced area own (d.prune place) := by
  refine ⟨⟨fenced.here, fun p away => ?_⟩, handles_relocate fenced fun p q inside' whither => ?_⟩
  · show (d.tree.prune place).at? p = t.at? p
    by_cases outermost : p = []
    · rw [outermost]
      rfl
    · rw [at?_prune _ _ outermost, h.below?_eq_none inside away]
      exact fenced.outside p away
  · split at whither
    · cases whither
    · exact Option.some.inj whither ▸ inside'

theorem fenced_move (h : t.Fence within area) (fenced : t.Fenced area own d) {source : Place}
    (hs : area source) (ht : area place) : t.Fenced area own (d.move source place) := by
  refine ⟨⟨fenced.here, fun p away => ?_⟩, handles_relocate fenced fun p q inside whither => ?_⟩
  · show (d.tree.move source place).at? p = t.at? p
    rw [at?_move _ (h.nonempty _ hs) (h.nonempty _ ht), h.below?_eq_none hs away,
      h.below?_eq_none ht away]
    exact fenced.outside p away
  · split at whither
    · exact Option.some.inj whither ▸ h.below place _ ht
    · split at whither
      · cases whither
      · exact Option.some.inj whither ▸ inside

theorem fenced_rename (h : t.Fence within area) (fenced : t.Fenced area own d)
    {source target : Path} (hs : within source) (ht : within target) :
    t.Fenced area own (d.rename source target).2 := by
  rcases d.rename_cases source target with ⟨_, refused⟩ | ⟨p, q, found, found', moved⟩
  · rw [refused]
    exact fenced
  · rw [moved]
    split
    · exact fenced
    · exact h.fenced_move fenced (h.area_of_place fenced hs found)
        (h.area_of_place fenced ht found')

/-- What is written through a handle of the program is written inside. -/
theorem fenced_fill (h : t.Fence within area) (fenced : t.Fenced area own d) {handle : Handle}
    (mem : handle ∈ own) (content : Bytes) : t.Fenced area own (d.fill handle content) := by
  have handles : ∀ other ∈ own, ∀ p,
      (d.waiting.set handle none)[other]? = some (some p) → area p := by
    intro other mem' p waits
    rw [List.getElem?_set] at waits
    split at waits
    · split at waits <;> cases waits
    · exact fenced.handles other mem' p waits
  have inside (p : Place) (waits : d.waiting[handle]? = some (some p)) : area p :=
    fenced.handles handle mem p waits
  rw [Disk.fill]
  split
  · next place waits =>
    split
    · exact ⟨⟨fenced.here, fun p away => (h.at?_put (inside place waits) d.tree _ away).trans
        (fenced.outside p away)⟩, handles⟩
    · exact ⟨fenced.toSameBut, handles⟩
  · exact ⟨fenced.toSameBut, handles⟩

/-! ## Directories -/

/-- A directory on the way is made inside, if it is made. -/
theorem at?_ensure (h : t.Fence within area) {start : Place} {names : List String}
    (inside : area (follow start names)) (u : FileTree) (away : ¬ area p) :
    (ensure start names u).2.at? p = u.at? p := by
  rw [ensure]
  split
  · rfl
  · next q walked =>
    split
    · exact h.at?_put (follow_of_walk walked ▸ inside) u _ away
    · rfl
    · rfl

/-- Of a way along which directories are made, the beginning may be there already: what is
true whichever directory after it is made stays true when they are all made. -/
theorem ensureAlong_maintains {I : FileTree → Prop}
    {ensure : List String → StateM FileTree (Except Fault Unit)} {base steps : List String}
    (there : ∀ u, I u → (ensure base).run u = (.ok (), u))
    (onTheWay : ∀ front, front <+: steps.reverse → front ≠ [] →
      ∀ u, I u → I ((ensure (base ++ front)).run u).2)
    {names : List String} (whole : ∀ u, I u → I ((ensure names).run u).2)
    (further : steps = [] → names = base) (u : FileTree) (holds : I u) :
    I ((Directories.ensureAlong ensure names (steps ++ base.reverse)).run u).2 := by
  induction steps generalizing names u with
  | nil =>
      rw [further rfl, List.nil_append]
      cases base.reverse with
      | nil => exact holds
      | cons last above =>
          rw [Directories.ensureAlong]
          simp only [StateT.run_bind, there u holds]
          exact holds
  | cons step above ih =>
      rw [List.reverse_cons] at onTheWay
      have shorter (front : List String) (onIt : front <+: above.reverse) :=
        onTheWay front (onIt.trans (List.prefix_append _ _))
      have outer (u : FileTree) (holds : I u) : I ((Directories.ensureAlong ensure
          (base ++ above.reverse) (above ++ base.reverse)).run u).2 := by
        refine ih shorter ?_ (fun same => by rw [same]; simp) u holds
        intro u holds
        by_cases last : above.reverse = []
        · rw [last, List.append_nil, there u holds]
          exact holds
        · exact shorter _ (List.prefix_refl _) last u holds
      rw [List.cons_append, Directories.ensureAlong]
      refine Call.maintains_bind whole (fun reply u holds => ?_) u holds
      split
      · rw [List.reverse_append, List.reverse_reverse]
        refine Call.maintains_bind outer (fun reply u holds => ?_) u holds
        split
        · exact whole u holds
        · exact holds
      · exact holds

theorem fenced_makeDirectories (h : t.Fence within area) (fenced : t.Fenced area own d)
    (inside : within path) : t.Fenced area own (d.step (.makeDirectories path)).2 := by
  rw [Disk.step]
  split
  · exact fenced
  split
  · exact fenced
  obtain ⟨base, inner, steps, nonempty, onTheWay, there⟩ := h.ways path inside
  have one {names : List String} (inside : area (follow (t.start path) names)) (u : FileTree)
      (same : SameBut area t u) : SameBut area t (ensure (t.start path) names u).2 :=
    ⟨(Call.here_ensure _ names u).trans same.here, fun p away =>
      (h.at?_ensure inside u away).trans (same.outside p away)⟩
  have made : SameBut area t (d.tree.ensureAll path).2 := by
    rw [ensureAll, start_of_here fenced.here]
    show SameBut area t ((Directories.ensureAlong (m := StateM FileTree)
      (ensure (t.start path)) path.names path.steps.reverse).run d.tree).2
    rw [steps, List.reverse_append]
    apply ensureAlong_maintains there
    · intro front onIt some
      rw [List.reverse_reverse] at onIt
      exact one (onTheWay front onIt some)
    · exact one (h.goal path inside)
    · exact fun none => absurd (List.reverse_eq_nil_iff.1 none) nonempty
    · exact fenced.toSameBut
  exact ⟨made, fenced.handles⟩

/-! ## Calls -/

/-- A call that keeps to the paths changes nothing outside, and the handle it is handed is that
of a file inside. -/
theorem step (h : t.Fence within area) (fenced : t.Fenced area own d) {c : Call}
    (keeps : c.KeepsTo within own) :
    t.Fenced area (c.handed (d.step c).1 ++ own) (d.step c).2 := by
  cases c with
  | kind path =>
      rw [Disk.step_kind_snd]
      exact fenced
  | read path =>
      rw [Disk.step_read_snd]
      exact fenced
  | list path =>
      have same : (d.step (.list path)).2 = d := by
        rw [Disk.step]
        split <;> rfl
      rw [same]
      exact fenced
  | makeDirectories path => exact h.fenced_makeDirectories fenced keeps
  | create path =>
      rw [Disk.step]
      split
      · exact fenced
      · next place _ _ look =>
        have inside := h.area_of_look fenced keeps look
        split
        · exact fenced
        · refine ⟨⟨fenced.here, fun p away => (h.at?_put inside d.tree _ away).trans
            (fenced.outside p away)⟩, fun handle mem p waits => ?_⟩
          rcases List.mem_cons.1 mem with rfl | mem
          · rw [List.getElem?_concat_length] at waits
            exact Option.some.inj (Option.some.inj waits) ▸ inside
          · rw [List.getElem?_append] at waits
            split at waits
            · exact fenced.handles handle mem p waits
            · rw [List.getElem?_singleton] at waits
              split at waits
              · exact Option.some.inj (Option.some.inj waits) ▸ inside
              · cases waits
      · exact fenced
  | fill handle content sync =>
      rw [Disk.step_fill]
      exact h.fenced_fill fenced keeps content
  | append path content sync =>
      rw [Disk.step]
      split
      · next look => exact h.fenced_put fenced (h.area_of_lookFile fenced keeps look) _
      · exact fenced
  | truncate path sync =>
      rw [Disk.step]
      split
      · next look => exact h.fenced_put fenced (h.area_of_lookFile fenced keeps look) _
      · exact fenced
  | rename source target =>
      rw [Disk.step_rename]
      exact h.fenced_rename fenced keeps.1 keeps.2
  | remove path =>
      rw [Disk.step]
      split
      · next look => exact h.fenced_prune fenced (h.area_of_lookFile fenced keeps look)
      · exact fenced
  | removeTree path =>
      rw [Disk.step]
      split
      · next look => exact h.fenced_prune fenced (h.area_of_look fenced keeps look)
      all_goals exact fenced

end Fence

/-- A program may own fewer handles than it could. -/
theorem Fenced.of_append {more : List Handle} (h : t.Fenced area (more ++ own) d) :
    t.Fenced area own d :=
  ⟨h.toSameBut, fun handle mem => h.handles handle (List.mem_append_right more mem)⟩

/-- Nor does it when it fails, however much of it has been done. -/
theorem Fence.failing (h : t.Fence within area) (fenced : t.Fenced area own d) {c : Call}
    (keeps : c.KeepsTo within own) (extent : Extent) :
    t.Fenced area own (d.failing c extent) := by
  have whole {c : Call} (keeps : c.KeepsTo within own) : t.Fenced area own (d.step c).2 :=
    (h.step fenced keeps).of_append
  cases extent with
  | nothing => exact fenced
  | everything => exact whole keeps
  | partly bytes =>
      rw [Disk.failing]
      split
      · next cut same =>
        refine whole ?_
        cases c <;> cases same
        all_goals exact keeps
      · exact fenced

/-! ## Runs -/

/-- A program that keeps to the paths leaves everything outside of the area as it was. -/
theorem Fence.ensures_program {α : Type} {F : Tolerance} {p : Program α}
    {Q : α → List Handle → Disk → Prop} (h : t.Fence within area) (fenced : t.Fenced area own d)
    (confined : p.Confined within Q own d) :
    p.Ensures F (fun a d' => ∃ own', t.Fenced area own' d' ∧ Q a own' d') d :=
  confined.ensures
    (fun _ _ _ keeps fenced => ⟨h.step fenced keeps, fun m => h.failing fenced keeps m.extent⟩)
    fenced

theorem Fence.ensures {α : Type} {F : Tolerance} {a : Action α}
    {Q : Except Error α → List Handle → Disk → Prop} (h : t.Fence within area)
    (fenced : t.Fenced area own d) (confined : a.Confined within Q own d) :
    a.Ensures F (fun x d' => ∃ own', t.Fenced area own' d' ∧ Q x own' d') d :=
  h.ensures_program fenced confined

/-- Nothing is fenced in to begin with. -/
theorem fenced_self (area : Place → Prop) (d : Disk) : d.tree.Fenced area [] d :=
  ⟨⟨rfl, fun _ _ => rfl⟩, nofun⟩

theorem Fence.updateUnder {σ α : Type} {u : Update σ α} {s : σ}
    {Q : Except Error α → σ → List Handle → Disk → Prop} (h : d.tree.Fence within area)
    (confined : u.Confined within Q s [] d) (outlooks : List Outlook) :
    SameBut area d.tree (d.updateUnder outlooks s u).2.2.tree ∧
      ∃ own, Q (d.updateUnder outlooks s u).1 (d.updateUnder outlooks s u).2.1 own
        (d.updateUnder outlooks s u).2.2 := by
  have any : ∀ o ∈ outlooks, o.Within fun _ _ => True := fun _ _ _ _ _ => trivial
  obtain ⟨own, fenced, holds⟩ :=
    (h.ensures_program (fenced_self area d) confined).runUnder any
  exact ⟨fenced.toSameBut, own, holds⟩

end FileTree

/-! ## Directories as areas -/

namespace Path

variable {p : Path} {inner : List String}

/-- Whether a path goes on from that of a directory by steps, if it goes on at all. -/
def IsIn (path directory : Path) : Prop :=
  ∃ inner : List String, (∀ name ∈ inner, IsStep name) ∧ path = inner.foldl join directory

theorem isIn_self (directory : Path) : directory.IsIn directory :=
  ⟨[], nofun, rfl⟩

theorem IsIn.join {path directory : Path} (h : path.IsIn directory) {name : String}
    (step : IsStep name) : (path.join name).IsIn directory := by
  obtain ⟨inner, steps, rfl⟩ := h
  refine ⟨inner ++ [name], fun other mem => ?_, by rw [List.foldl_append]; rfl⟩
  rcases List.mem_append.1 mem with mem | mem
  · exact steps other mem
  · exact List.mem_singleton.1 mem ▸ step

theorem steps_foldl_join (steps : ∀ name ∈ inner, IsStep name) (ne : p.text.toList ≠ []) :
    (inner.foldl join p).steps = p.steps ++ inner := by
  induction inner generalizing p with
  | nil => exact (List.append_nil _).symm
  | cons name inner ih =>
      rw [List.forall_mem_cons] at steps
      rw [List.foldl_cons, ih steps.2 (toList_join_ne_nil steps.1 ne), steps_join steps.1 ne,
        List.append_assoc, List.singleton_append]

end Path

namespace FileTree

variable {t : FileTree} {root path : Path} {r : Place} {inner : List String}

theorem start_foldl_join (steps : ∀ name ∈ inner, Path.IsStep name)
    (ne : root.text.toList ≠ []) : t.start (inner.foldl Path.join root) = t.start root := by
  induction inner generalizing root with
  | nil => rfl
  | cons name inner ih =>
      rw [List.forall_mem_cons] at steps
      rw [List.foldl_cons, ih steps.2 (Path.toList_join_ne_nil steps.1 ne), start,
        Path.isAbsolute_join steps.1 ne, ← start]

/-- Steps go down. -/
theorem follow_steps (steps : ∀ name ∈ inner, Path.IsStep name) (here : Place) :
    follow here inner = inner.reverse ++ here := by
  induction inner generalizing here with
  | nil => rfl
  | cons name inner ih =>
      rw [List.forall_mem_cons] at steps
      rw [follow_down steps.1.notDot steps.1.notDots, ih steps.2, List.reverse_cons,
        List.append_assoc, List.singleton_append]

theorem goal_foldl_join (steps : ∀ name ∈ inner, Path.IsStep name) (ne : root.text.toList ≠ []) :
    t.goal (inner.foldl Path.join root) = inner.reverse ++ t.goal root := by
  induction inner generalizing root with
  | nil => rfl
  | cons name inner ih =>
      rw [List.forall_mem_cons] at steps
      rw [List.foldl_cons, ih steps.2 (Path.toList_join_ne_nil steps.1 ne),
        goal_join steps.1 ne, List.reverse_cons, List.append_assoc, List.singleton_append]

/-- Whether a place is one of some names in a directory, or below it. -/
def Under (r : Place) (names : String → Prop) (p : Place) : Prop :=
  ∃ name, names name ∧ ∃ inner, p = inner ++ name :: r

/-- The paths of some names in a directory, and of what is below, lead nowhere else, as long as
what they lead to is not on the way to the directory. -/
theorem Leads.fence (h : t.Leads root r) {names : String → Prop}
    (step : ∀ name, names name → Path.IsStep name)
    (stays : ∀ u, SameBut (Under r names) t u → u.Leads root r) :
    t.Fence (fun path => ∃ name, names name ∧ path.IsIn (root.join name)) (Under r names) := by
  have ne := h.ne_nil
  refine ⟨?_, ?_, ?_, ?_⟩
  · rintro _ ⟨name, -, inner, rfl⟩
    simp
  · rintro _ inner ⟨name, mem, rest, rfl⟩
    exact ⟨name, mem, inner ++ rest, (List.append_assoc _ _ _).symm⟩
  · rintro _ ⟨name, mem, inner, steps, rfl⟩
    refine ⟨name, mem, inner.reverse, ?_⟩
    rw [goal_foldl_join steps (Path.toList_join_ne_nil (step name mem) ne),
      goal_join (step name mem) ne, goal_of_place h.place]
  · rintro _ ⟨name, mem, inner, steps, rfl⟩
    have all : ∀ other ∈ name :: inner, Path.IsStep other :=
      List.forall_mem_cons.2 ⟨step name mem, steps⟩
    have start : t.start (inner.foldl Path.join (root.join name)) = t.start root :=
      start_foldl_join all ne
    have walked : t.walk (t.start root) root.steps = .ok r := walk_steps h.directory h.walk
    refine ⟨root.steps, name :: inner, Path.steps_foldl_join all ne, List.cons_ne_nil _ _, ?_, ?_⟩
    · intro front onIt some
      rw [start, follow_append, follow_of_walk walked,
        follow_steps fun other mem => all other (onIt.subset mem)]
      cases front with
      | nil => exact absurd rfl some
      | cons first front =>
          obtain rfl : first = name := (List.cons_prefix_cons.1 onIt).1
          refine ⟨first, mem, front.reverse, ?_⟩
          rw [List.reverse_cons, List.append_assoc, List.singleton_append]
    · intro u same
      have leads := stays u same
      have walked : u.walk (t.start root) root.steps = .ok r := by
        rw [← start_of_here same.here]
        exact walk_steps leads.directory leads.walk
      rw [start, ensure, walked]
      simp only [leads.directory]

end FileTree

end FlatDB
