/-
# Where replacements are prepared

The replacement of a file is prepared under a path that is made from the path of the
file: its last name is changed and what is before it is kept, up to slashes and single
dots that count for nothing.  In a sound tree this is the path of a sibling, whatever the
path of the file is.  Hence every file that can be found has a site, unless the name of
its sibling is too long for the file system.
-/

import FlatDB.Proofs.Disk.Absence
import FlatDB.Proofs.Disk.Sites

namespace FlatDB

/-! ## Parts of a text -/

namespace Split

variable {α : Type} {sep : α} {parts front back : List (List α)}

theorem join_cons (ne : parts ≠ []) (part : List α) :
    join sep (part :: parts) = part ++ sep :: join sep parts := by
  cases parts with
  | nil => exact absurd rfl ne
  | cons next parts => rfl

theorem join_append (front_ne : front ≠ []) (back_ne : back ≠ []) :
    join sep (front ++ back) = join sep front ++ sep :: join sep back := by
  induction front with
  | nil => exact absurd rfl front_ne
  | cons part front ih =>
      cases front with
      | nil => exact join_cons back_ne part
      | cons next front =>
          have ne := List.cons_ne_nil next front
          rw [List.cons_append, join_cons (List.append_ne_nil_of_left_ne_nil ne back), ih ne,
            join_cons ne, List.append_assoc, List.cons_append]

/-- Parts without the separator are the pieces of what they are joined to. -/
theorem pieces_join [DecidableEq α] (ne : parts ≠ []) (none : ∀ part ∈ parts, sep ∉ part) :
    pieces sep (join sep parts) = parts := by
  induction parts with
  | nil => exact absurd rfl ne
  | cons part parts ih =>
      obtain ⟨first, later⟩ := List.forall_mem_cons.1 none
      by_cases last : parts = []
      · rw [last]
        exact pieces_of_not_mem first
      · rw [join_cons last, pieces_append_cons first, ih last later]

/-- A text ends in its last piece. -/
theorem eq_of_pieces_concat [DecidableEq α] {text last : List α}
    (h : pieces sep text = front ++ [last]) :
    front = [] ∧ text = last ∨ text = join sep front ++ sep :: last := by
  have whole : text = join sep (front ++ [last]) := by rw [← h, join_pieces]
  by_cases empty : front = []
  · rw [empty] at whole
    exact .inl ⟨empty, whole⟩
  · rw [join_append empty (List.cons_ne_nil last [])] at whole
    exact .inr whole

end Split

namespace Path

variable {p parent : Path} {name : String} {parts front back : List (List Char)}

/-! ## The last name of a path -/

/-- The names among the parts of a path. -/
def namesOf (parts : List (List Char)) : List String :=
  (parts.filter fun part => !part.isEmpty).map String.ofList

theorem namesOf_append (front back : List (List Char)) :
    namesOf (front ++ back) = namesOf front ++ namesOf back := by
  rw [namesOf, List.filter_append, List.map_append, namesOf, namesOf]

theorem names_eq (p : Path) : p.names = namesOf (Split.pieces '/' p.text.toList) := rfl

/-- What is dropped at an end is idle. -/
theorem exists_append_dropIdleEnd (parts : List (List Char)) :
    ∃ idle, parts = dropIdleEnd parts ++ idle ∧ ∀ part ∈ idle, isIdle part := by
  refine ⟨(parts.reverse.takeWhile isIdle).reverse, ?_, ?_⟩
  · rw [dropIdleEnd, ← List.reverse_append, List.takeWhile_append_dropWhile, List.reverse_reverse]
  · intro part mem
    exact List.all_eq_true.1 List.all_takeWhile part (List.mem_reverse.1 mem)

theorem dropIdleEnd_append_of_idle (idle : ∀ part ∈ back, isIdle part)
    (front : List (List Char)) : dropIdleEnd (front ++ back) = dropIdleEnd front := by
  rw [dropIdleEnd, List.reverse_append, List.dropWhile_append_of_pos, dropIdleEnd]
  simpa using idle

/-- Idle parts name no step. -/
theorem filter_namesOf_of_idle (idle : ∀ part ∈ parts, isIdle part) :
    (namesOf parts).filter (fun n => decide (n ≠ ".")) = [] := by
  rw [List.filter_eq_nil_iff]
  intro n mem
  obtain ⟨part, kept, rfl⟩ := List.mem_map.1 mem
  obtain ⟨inside, filled⟩ := List.mem_filter.1 kept
  have dot := idle part inside
  rw [isIdle, Bool.or_eq_true, beq_iff_eq] at dot
  rcases dot with empty | rfl
  · simp [empty] at filled
  · decide

/-- Parts with a name among them begin where those before the name begin, and if there are any
they are not all idle. -/
theorem beginning_append (step : IsStep name) (front back : List (List Char)) :
    ∃ start rest, beginning (front ++ name.toList :: back) =
        (start, rest ++ name.toList :: back) ∧ start ++ rest = front ∧
      (start ++ dropIdleEnd rest = [] → front = []) := by
  have dot : name.toList ≠ ['.'] := fun e => step.notDot (String.toList_injective e)
  cases front with
  | nil =>
      refine ⟨[], [], ?_, rfl, fun _ => rfl⟩
      simp [beginning, step.nonempty, dot]
  | cons part parts =>
      by_cases absolute : part = []
      · refine ⟨[[]], parts, ?_, by rw [absolute]; rfl, by simp⟩
        rw [absolute]
        cases parts <;> rfl
      · by_cases relative : part = ['.']
        · refine ⟨[['.']], parts, ?_, by rw [relative]; rfl, by simp⟩
          rw [relative]
          rfl
        · refine ⟨[], part :: parts, ?_, rfl, fun none => ?_⟩
          · simp [beginning, absolute, relative]
          · obtain ⟨idle, split, all⟩ := exists_append_dropIdleEnd (part :: parts)
            rw [show dropIdleEnd (part :: parts) = [] from none, List.nil_append] at split
            have first := all part (split ▸ List.mem_cons_self)
            simp [isIdle, absolute, relative] at first

theorem names_mk (step : IsStep name) : (Path.mk name).names = [name] := by
  rw [names_eq, step.pieces, namesOf]
  simp [step.nonempty]

theorem endsInSlash_mk (step : IsStep name) : (Path.mk name).endsInSlash = false := by
  rw [endsInSlash, beq_eq_false_iff_ne]
  exact fun last => step.noSlash (List.mem_of_getLast? last)

/-- What is joined to nothing stands for itself. -/
theorem join_of_empty (step : IsStep name) (empty : p.text.toList = []) : p.join name = ⟨name⟩ := by
  have none : p.text = "" := String.toList_injective empty
  rw [join, step.isAbsolute_eq_false, none]
  simp

/-- The path that some parts without slashes are joined to; a root has one part that is
empty. -/
def ofParts (parts : List (List Char)) : Path :=
  ⟨String.ofList (if parts = [[]] then ['/'] else Split.join '/' parts)⟩

theorem names_ofParts (none : ∀ part ∈ parts, '/' ∉ part) :
    (ofParts parts).names = namesOf parts := by
  rw [names_eq, ofParts, String.toList_ofList]
  split
  · next root => rw [root]; rfl
  · by_cases empty : parts = []
    · rw [empty]
      rfl
    · rw [Split.pieces_join empty none]

/-- A path goes on from what its first parts are joined to. -/
theorem ofParts_prefix (back_ne : back ≠ []) (whole : Split.pieces '/' p.text.toList = front ++ back) :
    (ofParts front).text.toList <+: p.text.toList := by
  have text : p.text.toList = Split.join '/' (front ++ back) := by
    rw [← whole, Split.join_pieces]
  rw [text, ofParts, String.toList_ofList]
  by_cases empty : front = []
  · rw [empty]
    exact List.nil_prefix
  · rw [Split.join_append empty back_ne]
    split
    · next root =>
      rw [root]
      exact ⟨_, rfl⟩
    · exact List.prefix_append _ _

theorem ofParts_eq_nil (none : ∀ part ∈ parts, '/' ∉ part) (h : (ofParts parts).text.toList = []) :
    parts = [] := by
  rw [ofParts, String.toList_ofList] at h
  by_cases empty : parts = []
  · exact empty
  · have pieces := Split.pieces_join empty none
    split at h
    · cases h
    · next root =>
      rw [h, Split.pieces_nil] at pieces
      exact absurd pieces.symm root

/-- The last name of a path is taken off as it stands there, and the names before it stay, up
to single dots. -/
theorem exists_split?_eq (step : IsStep name)
    (whole : Split.pieces '/' p.text.toList = front ++ name.toList :: back)
    (idle : ∀ part ∈ back, isIdle part) :
    ∃ parent : Path, p.split? = some (parent, name) ∧ parent.text.toList <+: p.text.toList ∧
      parent.steps = (namesOf front).filter (fun n => decide (n ≠ ".")) ∧
      (parent.text.toList = [] → front = []) := by
  obtain ⟨start, rest, begins, split, nonempty⟩ := beginning_append step front back
  obtain ⟨dots, dropped, dotted⟩ := exists_append_dropIdleEnd rest
  have ends : dropIdleEnd (rest ++ name.toList :: back) = rest ++ [name.toList] := by
    rw [← List.singleton_append, ← List.append_assoc, dropIdleEnd_append_of_idle idle,
      dropIdleEnd_concat step]
  have notDots : name.toList ≠ ['.', '.'] := fun e => step.notDots (String.toList_injective e)
  have front_eq : front = (start ++ dropIdleEnd rest) ++ dots := by
    rw [List.append_assoc, ← dropped, split]
  have none : ∀ part ∈ start ++ dropIdleEnd rest, '/' ∉ part := by
    intro part mem
    have piece : part ∈ Split.pieces '/' p.text.toList := by
      rw [whole, front_eq]
      simp only [List.mem_append] at mem ⊢
      exact .inl (.inl mem)
    exact Split.not_mem_of_mem_pieces piece
  refine ⟨ofParts (start ++ dropIdleEnd rest), ?_, ?_, ?_, ?_⟩
  · rw [split?, whole, begins]
    simp only [ends, List.getLast?_concat, if_neg notDots, List.dropLast_concat,
      String.ofList_toList]
    rfl
  · have some : dots ++ name.toList :: back ≠ [] := by simp
    apply ofParts_prefix some
    rw [whole, front_eq, List.append_assoc]
  · rw [steps, names_ofParts none, front_eq, namesOf_append (start ++ dropIdleEnd rest),
      List.filter_append, filter_namesOf_of_idle dotted, List.append_nil]
  · exact fun empty => nonempty (ofParts_eq_nil none empty)

end Path

namespace FileTree

variable {t : FileTree} {here p q target : Place} {names : List String} {path parent : Path}
  {name : String} {front : List (List Char)}

/-! ## Siblings of files -/

/-- In a sound tree all names but the last lead to a directory. -/
theorem IsSound.exists_walk_eq (sound : t.IsSound) (start : t.at? here = some .directory)
    (h : t.walk here (names ++ [name]) = .ok p) :
    ∃ q, t.walk here names = .ok q ∧ t.at? q = some .directory ∧ t.walk q [name] = .ok p := by
  induction names generalizing here with
  | nil => exact ⟨here, rfl, start, h⟩
  | cons first rest ih =>
      rcases walk_cons_ok h with
        ⟨rfl, h⟩ | ⟨rfl, h⟩ | ⟨notDot, notDots, short, ⟨last, -⟩ | ⟨found, h⟩⟩
      · rw [walk_dot]
        exact ih start h
      · rw [walk_dots]
        exact ih (sound.tail start) h
      · simp at last
      · rw [walk_down notDot notDots short found]
        exact ih found h

/-- Single dots among names that lead to a directory make no difference. -/
theorem walk_of_steps (directory : t.at? q = some .directory)
    (h : t.walk here (names.filter fun n => decide (n ≠ ".")) = .ok q) :
    t.walk here names = .ok q := by
  induction names generalizing here with
  | nil => exact h
  | cons name rest ih =>
      by_cases dot : name = "."
      · rw [dot, List.filter_cons_of_neg (by decide)] at h
        rw [dot, walk_dot, ih h]
      · rw [List.filter_cons_of_pos (by simpa using dot)] at h
        rcases walk_cons_cases directory h with
          ⟨dot', -⟩ | ⟨rfl, h⟩ | ⟨-, notDots, short, found, h⟩
        · exact absurd dot' dot
        · rw [walk_dots, ih h]
        · rw [walk_down dot notDots short found, ih h]

theorem refusal?_eq_none_iff : refusal? path = none ↔
    '\x00' ∉ path.text.toList ∧ path.text.toList ≠ [] ∧ path.text.utf8ByteSize < 4096 := by
  have empty : path.text.isEmpty = true ↔ path.text.toList = [] := by
    rw [String.isEmpty_iff, ← String.toList_eq_nil_iff]
  rw [refusal?]
  split
  · next null => simp [List.contains_iff_mem.1 null]
  · split
    · next none => simp [empty.1 none]
    · next null some =>
      rw [empty] at some
      rw [List.contains_iff_mem] at null
      simp [null, some]

theorem endsInSlash_of_look {content : Bytes} (h : t.look path = .ok (p, some (.file content))) :
    path.endsInSlash = false := by
  obtain ⟨found, there⟩ := place_of_look h
  rw [look] at h
  simp only [found, Result.ok_bind, ← there] at h
  split at h
  · cases h
  · next plain => simpa using plain

/-- A file that is found under a path is in the directory that the path but for its last name
leads to. -/
theorem IsSound.exists_name_of_look (sound : t.IsSound) {content : Bytes}
    (h : t.look path = .ok (target, some (.file content))) :
    ∃ name q front, target = name :: q ∧ Path.IsStep name ∧
      Split.pieces '/' path.text.toList = front ++ [name.toList] ∧
      t.walk (t.start path) (Path.namesOf front) = .ok q ∧ t.at? q = some .directory := by
  obtain ⟨found, file⟩ := place_of_look h
  have noSlash := endsInSlash_of_look h
  obtain ⟨noNull, nonempty, -⟩ := refusal?_eq_none_iff.1 (refusal?_of_place found)
  obtain none | ⟨front, last, pieces⟩ := List.eq_nil_or_concat (Split.pieces '/' path.text.toList)
  · exact absurd none (Split.pieces_ne_nil _ _)
  rw [List.concat_eq_append] at pieces
  have text := Split.eq_of_pieces_concat pieces
  have filled : last ≠ [] := by
    rintro rfl
    rcases text with ⟨-, none⟩ | slash
    · exact nonempty none
    · simp [Path.endsInSlash, slash] at noSlash
  have walked := walk_of_place found
  rw [Path.names_eq, pieces, Path.namesOf_append,
    show Path.namesOf [last] = [String.ofList last] by simp [Path.namesOf, filled]] at walked
  obtain ⟨q, before, directory, stepped⟩ := sound.exists_walk_eq (sound.start path) walked
  have notDot : String.ofList last ≠ "." := by
    intro dot
    rw [dot, walk_dot] at stepped
    rw [← Except.ok.inj stepped, directory] at file
    cases file
  have notDots : String.ofList last ≠ ".." := by
    intro dots
    rw [dots, walk_dots] at stepped
    rw [← Except.ok.inj stepped, sound.tail directory] at file
    cases file
  have step : Path.IsStep (String.ofList last) := by
    refine ⟨by simpa using filled, ?_, ?_, notDot, notDots⟩
    · rw [String.toList_ofList]
      exact Split.not_mem_of_mem_pieces (pieces ▸ List.mem_append_right front List.mem_cons_self)
    · rw [String.toList_ofList]
      intro null
      apply noNull
      rcases text with ⟨-, whole⟩ | whole <;> simp [whole, null]
  rw [walk_singleton step] at stepped
  split at stepped
  · cases stepped
  · cases stepped
    exact ⟨String.ofList last, q, front, rfl, step, by rw [String.toList_ofList, pieces], before,
      directory⟩

/-- There is nothing wrong with the beginning of a path. -/
theorem refusal?_of_prefix (refused : refusal? path = none)
    (pre : parent.text.toList <+: path.text.toList) (nonempty : parent.text.toList ≠ []) :
    refusal? parent = none := by
  obtain ⟨noNull, -, short⟩ := refusal?_eq_none_iff.1 refused
  obtain ⟨suffix, text⟩ := pre
  have whole : path.text = parent.text ++ String.ofList suffix := by
    apply String.toList_injective
    rw [String.toList_append, String.toList_ofList, text]
  rw [whole, String.utf8ByteSize_append] at short
  refine refusal?_eq_none_iff.2 ⟨fun null => noNull ?_, nonempty, by omega⟩
  rw [← text]
  exact List.mem_append_left suffix null

/-- A name leads from where relative paths start. -/
theorem place_mk (step : Path.IsStep name) :
    t.place ⟨name⟩ = .ok (name :: t.here) ∨ t.place ⟨name⟩ = .error .nameTooLong := by
  have null : name.toList.contains '\x00' = false := by simpa using step.noNull
  have nonempty : name.isEmpty = false := by
    rw [Bool.eq_false_iff]
    intro empty
    exact step.nonempty (by rw [String.isEmpty_iff.1 empty]; rfl)
  rw [place, refusal?, null, nonempty, Path.names_mk step, start, step.isAbsolute_eq_false,
    walk_singleton step]
  by_cases long : 4096 ≤ name.utf8ByteSize
  · simp [long]
  · cases isTooLong name <;> simp [long]

/-- The path of the sibling leads to it, unless it is too long. -/
theorem place_staged (refused : refusal? path = none) (step : Path.IsStep name)
    (pieces : Split.pieces '/' path.text.toList = front ++ [name.toList])
    (walked : t.walk (t.start path) (Path.namesOf front) = .ok q)
    (directory : t.at? q = some .directory) :
    path.staged.endsInSlash = false ∧ Disk.endsInDots path.staged = false ∧
      (t.place path.staged = .ok (stagedName name :: q) ∨
        t.place path.staged = .error .nameTooLong) := by
  obtain ⟨parent, split, pre, steps, top⟩ :=
    Path.exists_split?_eq step pieces (List.forall_mem_nil _)
  have staged : path.staged = parent.join (stagedName name) := by
    rw [Path.staged, Path.lastName, Path.withName, split]
    rfl
  have stagedStep := isStep_stagedName step
  rw [staged]
  by_cases empty : parent.text.toList = []
  · obtain rfl := top empty
    have text : path.text.toList = name.toList := by
      rw [← Split.join_pieces '/' path.text.toList, pieces]
      rfl
    have relative : t.start path = t.here := by
      have same : path = ⟨name⟩ := by
        obtain ⟨text'⟩ := path
        exact congrArg Path.mk (String.toList_injective text)
      rw [start, same, step.isAbsolute_eq_false, if_neg Bool.false_ne_true]
    obtain rfl : t.start path = q := Except.ok.inj walked
    rw [Path.join_of_empty stagedStep empty, relative]
    refine ⟨Path.endsInSlash_mk stagedStep, ?_, place_mk stagedStep⟩
    simp [Disk.endsInDots, Path.names_mk stagedStep, stagedStep.notDot, stagedStep.notDots]
  · have head : parent.text.toList.head? = path.text.toList.head? := by
      obtain ⟨suffix, text⟩ := pre
      rw [← text, List.head?_append, List.head?_eq_some_head empty, Option.some_or]
    have sameStart : t.start parent = t.start path := by
      rw [start, start, Path.isAbsolute, Path.isAbsolute, head]
    have leads : t.Leads parent q := by
      refine ⟨?_, directory⟩
      rw [place, refusal?_of_prefix refused pre empty, sameStart]
      apply walk_of_steps directory
      rw [← Path.steps, steps]
      exact walk_steps directory walked
    refine ⟨Path.endsInSlash_join stagedStep empty, Disk.endsInDots_join stagedStep empty, ?_⟩
    rw [leads.place_join stagedStep]
    split
    · exact .inl rfl
    · exact .inr rfl

/-- There is nothing in a file, nor in what is not there. -/
theorem IsSound.childless (sound : t.IsSound) (notDirectory : t.at? p ≠ some .directory) :
    t.Childless p := by
  intro inner
  induction inner with
  | nil => exact fun nonempty => absurd rfl nonempty
  | cons name inner ih =>
      intro _
      cases there : t.at? (name :: inner ++ p) with
      | none => rfl
      | some entry =>
          have directory := sound.inside name (inner ++ p) (by rw [← List.cons_append, there]; simp)
          by_cases here : inner = []
          · rw [here] at directory
            exact absurd directory notDirectory
          · rw [ih here] at directory
            cases directory

/-- A file that is found has a site, unless its sibling has a path that is too long. -/
theorem IsSound.site_or_tooLong (sound : t.IsSound) {content : Bytes}
    (h : t.look path = .ok (target, some (.file content))) :
    (∃ beside, t.Site path target beside) ∨ t.place path.staged = .error .nameTooLong := by
  obtain ⟨name, q, front, rfl, step, pieces, walked, directory⟩ := sound.exists_name_of_look h
  obtain ⟨found, file⟩ := place_of_look h
  obtain ⟨noSlashStaged, noDotsStaged, placeStaged | long⟩ :=
    place_staged (refusal?_of_place found) step pieces walked directory
  · left
    have notDirectory : t.at? (name :: q) ≠ some .directory := by
      rw [← file]
      nofun
    exact ⟨stagedName name :: q, {
      place := found
      placeStaged
      noSlash := endsInSlash_of_look h
      noSlashStaged
      noDots := by
        simp [Disk.endsInDots, Path.names_eq, pieces, Path.namesOf, step.nonempty, step.notDot,
          step.notDots]
      noDotsStaged
      ne_nil := List.cons_ne_nil _ _
      ne_nil_beside := List.cons_ne_nil _ _
      apart := apart_of_length_eq rfl (by simp [stagedName_ne])
      notDirectory
      childless := sound.childless notDirectory
      childlessBeside := sound.childless }⟩
  · exact .inr long

/-! ## Replacing what is found -/

variable {F : Tolerance} {d : Disk}

/-- What can be read is what is found. -/
theorem step_read_iff {content : Bytes} : (d.step (.read path)).1 = .ok (.content content) ↔
    ∃ target, d.tree.look path = .ok (target, some (.file content)) := by
  rw [Disk.step]
  cases look : d.tree.look path with
  | error fault => simp
  | ok found =>
      obtain ⟨target, _ | content' | -⟩ := found <;> simp

/-- Nothing is prepared under a path that leads nowhere. -/
theorem ensures_replace_of_misplaced {fault : Fault}
    (misplaced : d.tree.place path.staged = .error fault) (bytes : Bytes) (sync : Bool) :
    (Replacement.replace path bytes sync).Ensures F
      (fun x d' => (∃ e, x = .error e) ∧ d' = d) d := by
  have step : d.step (.create path.staged) = (.error fault, d) := by
    have look : d.tree.look path.staged = .error fault := by
      rw [FileTree.look]
      rw [misplaced]
      rfl
    simp only [Disk.step, look]
  have created : (Action.create path.staged).Ensures F
      (fun x d' => (∃ e, x = .error e) ∧ d' = d) d := by
    apply Action.Ensures.call
    · rw [step]
      exact .throw ⟨⟨_, rfl⟩, rfl⟩
    · intro m _
      have same : d.failing (.create path.staged) m.extent = d := by
        cases m.extent <;> simp [Disk.failing, Call.cut?, step]
      exact .throw ⟨⟨_, rfl⟩, same⟩
  -- What follows is never reached.
  have stopped {α β : Type} {a : Action α} {f : α → Action β}
      (first : a.Ensures F (fun x d' => (∃ e, x = .error e) ∧ d' = d) d) :
      (a >>= f).Ensures F (fun x d' => (∃ e, x = .error e) ∧ d' = d) d := by
    apply first.bind
    · rintro _ _ ⟨⟨_, impossible⟩, -⟩
      cases impossible
    · rintro e _ ⟨-, same⟩
      exact ⟨⟨e, rfl⟩, same⟩
  exact stopped (stopped created)

/-- Whatever the path of a file, the file is replaced as a whole or left alone. -/
theorem IsSound.ensures_replace (sound : d.tree.IsSound) (whole : NoLateMoves F) {content : Bytes}
    (h : d.tree.look path = .ok (target, some (.file content))) (bytes : Bytes) (sync : Bool) :
    (Replacement.replace path bytes sync).Ensures F
      (fun x d' => d'.tree.look path = .ok (target, some (.file
        (match x with
        | .ok _ => bytes
        | .error _ => content)))) d := by
  obtain ⟨-, there⟩ := place_of_look h
  rcases sound.site_or_tooLong h with ⟨beside, site⟩ | long
  · apply (site.ensures_replace whole bytes sync).mono
    rintro x d' ⟨stirs, now⟩
    have site' := site.stirs stirs
    rw [look_of_place site'.place site'.noSlash, now]
    cases x with
    | ok _ => rfl
    | error e => rw [there]
  · apply (ensures_replace_of_misplaced long bytes sync).mono
    rintro _ _ ⟨⟨e, rfl⟩, rfl⟩
    exact h

end FileTree

end FlatDB
