/-
# Paths of what is in a directory

A name that has no slash in it and is not one of the two dots stands for one step
down.  Joined to the path of a directory it gives a path with one more name and
a known length, and taking the last name off again gives back what was joined.
-/

import FlatDB.Disk.Replacement

namespace FlatDB

namespace Path

/-! ## Names that are steps -/

/-- Whether a name stands for a step from a directory to what is in it. -/
structure IsStep (name : String) : Prop where
  nonempty : name.toList ≠ []
  noSlash : '/' ∉ name.toList
  noNull : '\x00' ∉ name.toList
  notDot : name ≠ "."
  notDots : name ≠ ".."

/-- A name that is longer than the dots is not one of them. -/
theorem isStep_of_length {name : String} (long : 3 ≤ name.toList.length)
    (noSlash : '/' ∉ name.toList)
    (noNull : '\x00' ∉ name.toList) : IsStep name := by
  refine ⟨?_, noSlash, noNull, ?_, ?_⟩
  · intro e
    rw [e] at long
    exact absurd long (by decide)
  · rintro rfl
    exact absurd long (by decide)
  · rintro rfl
    exact absurd long (by decide)

variable {p : Path} {name : String}

/-- A step has a path of its own that is relative. -/
theorem IsStep.isAbsolute_eq_false (step : IsStep name) : (Path.mk name).isAbsolute = false := by
  rw [isAbsolute]
  rw [beq_eq_false_iff_ne]
  exact fun first => step.noSlash (List.mem_of_head? first)

/-- The pieces of a step are the step. -/
theorem IsStep.pieces (step : IsStep name) : Split.pieces '/' name.toList = [name.toList] :=
  Split.pieces_of_not_mem step.noSlash

/-! ## Joined paths -/

/-- The text of a joined path, up to whether a slash has to be added. -/
theorem toList_join (step : IsStep name) (ne : p.text.toList ≠ []) :
    (p.join name).text.toList =
      p.text.toList ++ (if p.endsInSlash then [] else ['/']) ++ name.toList := by
  have nonempty : p.text.isEmpty = false := by
    rw [Bool.eq_false_iff]
    intro e
    exact ne (by rw [String.isEmpty_iff.1 e]; rfl)
  rw [join]
  rw [if_neg (by rw [step.isAbsolute_eq_false]; exact Bool.false_ne_true), nonempty, Bool.false_or]
  by_cases slash : p.endsInSlash = true
  · simp [slash]
  · simp [slash]

/-- The bytes that the path of what is in a directory takes before its last name. -/
def stem (p : Path) : Nat :=
  p.text.utf8ByteSize + if p.endsInSlash then 0 else 1

theorem utf8ByteSize_join (step : IsStep name) (ne : p.text.toList ≠ []) :
    (p.join name).text.utf8ByteSize = p.stem + name.utf8ByteSize := by
  have nonempty : p.text.isEmpty = false := by
    rw [Bool.eq_false_iff]
    intro e
    exact ne (by rw [String.isEmpty_iff.1 e]; rfl)
  unfold join stem
  rw [if_neg (by rw [step.isAbsolute_eq_false]; exact Bool.false_ne_true), nonempty, Bool.false_or]
  by_cases slash : p.endsInSlash = true
  · simp [slash]
  · have one : ("/" : String).utf8ByteSize = 1 := by decide
    simp [slash, one]

theorem toList_join_ne_nil (step : IsStep name) (ne : p.text.toList ≠ []) :
    (p.join name).text.toList ≠ [] := by
  rw [toList_join step ne]
  simp [step.nonempty]

/-- A joined path ends in its name. -/
theorem endsInSlash_join (step : IsStep name) (ne : p.text.toList ≠ []) :
    (p.join name).endsInSlash = false := by
  rw [endsInSlash, toList_join step ne, beq_eq_false_iff_ne, List.getLast?_append,
    List.getLast?_eq_some_getLast step.nonempty, Option.some_or]
  exact fun last => step.noSlash (Option.some.inj last ▸ List.getLast_mem step.nonempty)

theorem stem_join (step : IsStep name) (ne : p.text.toList ≠ []) :
    (p.join name).stem = p.stem + name.utf8ByteSize + 1 := by
  rw [stem, utf8ByteSize_join step ne, endsInSlash_join step ne]
  rfl

theorem isAbsolute_join (step : IsStep name) (ne : p.text.toList ≠ []) :
    (p.join name).isAbsolute = p.isAbsolute := by
  rw [isAbsolute, isAbsolute, toList_join step ne, List.append_assoc, List.head?_append,
    List.head?_eq_some_head ne, Option.some_or]

theorem contains_null_join (step : IsStep name) (ne : p.text.toList ≠ []) :
    (p.join name).text.toList.contains '\x00' = p.text.toList.contains '\x00' := by
  rw [toList_join step ne, Bool.eq_iff_iff]
  have none := step.noNull
  by_cases slash : p.endsInSlash = true
  · simp [slash, none]
  · simp [slash, none]

/-- A joined path has one more name. -/
theorem names_join (step : IsStep name) (ne : p.text.toList ≠ []) :
    (p.join name).names = p.names ++ [name] := by
  have last : ([name.toList].filter fun part => !part.isEmpty).map String.ofList = [name] := by
    simp [step.nonempty]
  unfold names
  rw [toList_join step ne]
  by_cases slash : p.endsInSlash = true
  · obtain ⟨front, text⟩ := List.getLast?_eq_some_iff.1 (beq_iff_eq.1 slash)
    rw [if_pos slash, text, List.append_nil, List.append_assoc, List.singleton_append,
      Split.pieces_append_separator, Split.pieces_append_separator, step.pieces]
    simp only [Split.pieces_nil, List.filter_append, List.map_append, last]
    simp
  · rw [if_neg slash, List.append_assoc, List.singleton_append, Split.pieces_append_separator,
      step.pieces, List.filter_append, List.map_append, last]

theorem steps_join (step : IsStep name) (ne : p.text.toList ≠ []) :
    (p.join name).steps = p.steps ++ [name] := by
  have here : [name].filter (fun n => decide (n ≠ ".")) = [name] := by simp [step.notDot]
  rw [steps, names_join step ne, List.filter_append, here]
  rfl

/-- Whether the path of a name in a directory is short enough for a file system. -/
def Admits (p : Path) (name : String) : Prop :=
  name.utf8ByteSize ≤ 255 ∧ p.stem + name.utf8ByteSize < 4096

instance (p : Path) (name : String) : Decidable (p.Admits name) :=
  inferInstanceAs (Decidable (_ ∧ _))

/-- There is room for a shorter name. -/
theorem Admits.mono {longer : String} (h : p.Admits longer)
    (shorter : name.utf8ByteSize ≤ longer.utf8ByteSize) : p.Admits name := by
  unfold Admits at h ⊢
  omega

/-- There is room for a directory if there is for something in it. -/
theorem Admits.outer {inner : String} (h : (p.join name).Admits inner) (step : IsStep name)
    (ne : p.text.toList ≠ []) (short : name.utf8ByteSize ≤ 255) : p.Admits name := by
  have stem := stem_join step ne
  unfold Admits at h ⊢
  omega

/-! ## The last name of a joined path -/

/-- A step is not idle. -/
theorem IsStep.isIdle_eq_false (step : IsStep name) : isIdle name.toList = false := by
  have notDot : name.toList ≠ ['.'] := fun e => step.notDot (String.toList_injective e)
  simp [isIdle, step.nonempty, notDot]

/-- Parts that end in a step have no idle end. -/
theorem dropIdleEnd_concat (step : IsStep name) (parts : List (List Char)) :
    dropIdleEnd (parts ++ [name.toList]) = parts ++ [name.toList] := by
  simp [dropIdleEnd, step.isIdle_eq_false]

/-- The pieces of a joined path end in the name. -/
theorem exists_pieces_join (step : IsStep name) (ne : p.text.toList ≠ []) :
    ∃ parts, Split.pieces '/' (p.join name).text.toList = parts ++ [name.toList] := by
  rw [toList_join step ne]
  by_cases slash : p.endsInSlash = true
  · obtain ⟨front, text⟩ := List.getLast?_eq_some_iff.1 (beq_iff_eq.1 slash)
    refine ⟨Split.pieces '/' front, ?_⟩
    rw [if_pos slash, text, List.append_nil, List.append_assoc, List.singleton_append,
      Split.pieces_append_separator, step.pieces]
  · refine ⟨Split.pieces '/' p.text.toList, ?_⟩
    rw [if_neg slash, List.append_assoc, List.singleton_append, Split.pieces_append_separator,
      step.pieces]

/-- Parts that end in a step and one more begin where the first parts begin. -/
theorem beginning_concat (step : IsStep name) (last : List Char) (parts : List (List Char)) :
    ∃ start rest, beginning (parts ++ [name.toList] ++ [last]) =
        (start, rest ++ [name.toList] ++ [last]) ∧ start ++ rest = parts := by
  have dot : name.toList ≠ ['.'] := fun e => step.notDot (String.toList_injective e)
  cases parts with
  | nil =>
      refine ⟨[], [], ?_, rfl⟩
      simp [beginning, step.nonempty, dot]
  | cons part parts =>
      by_cases absolute : part = []
      · refine ⟨[[]], parts, ?_, by rw [absolute]; rfl⟩
        rw [absolute]
        cases parts <;> rfl
      · by_cases relative : part = ['.']
        · refine ⟨[['.']], parts, ?_, by rw [relative]; rfl⟩
          rw [relative]
          rfl
        · refine ⟨[], part :: parts, ?_, rfl⟩
          simp [beginning, absolute, relative]

/-- In a directory whose own path was joined, taking the last name off a path undoes
joining. -/
theorem split?_join_join {directory : String} (hd : IsStep directory) (hn : IsStep name)
    (ne : p.text.toList ≠ []) :
    ((p.join directory).join name).split? = some (p.join directory, name) := by
  obtain ⟨parts, pieces⟩ := exists_pieces_join hd ne
  obtain ⟨start, rest, begins, split⟩ := beginning_concat hd name.toList parts
  have whole : Split.pieces '/' ((p.join directory).join name).text.toList =
      parts ++ [directory.toList] ++ [name.toList] := by
    rw [toList_join hn (toList_join_ne_nil hd ne), endsInSlash_join hd ne,
      if_neg Bool.false_ne_true, List.append_assoc, List.singleton_append,
      Split.pieces_append_separator, pieces, hn.pieces]
  have notDots : name.toList ≠ ['.', '.'] := fun e => hn.notDots (String.toList_injective e)
  have parent : start ++ (rest ++ [directory.toList]) = parts ++ [directory.toList] := by
    rw [← List.append_assoc, split]
  have notRoot : parts ++ [directory.toList] ≠ [[]] := by
    intro e
    have last := congrArg List.getLast? e
    simp [hd.nonempty] at last
  have text : Split.join '/' (parts ++ [directory.toList]) = (p.join directory).text.toList := by
    rw [← pieces, Split.join_pieces]
  rw [split?, whole, begins]
  simp only [dropIdleEnd_concat hn, dropIdleEnd_concat hd, List.getLast?_concat,
    List.dropLast_concat, if_neg notDots, parent, if_neg notRoot, text, String.ofList_toList]

/-- What is beside a file in such a directory. -/
theorem withName_join_join {directory : String} (hd : IsStep directory) (hn : IsStep name)
    (ne : p.text.toList ≠ []) (other : String) :
    ((p.join directory).join name).withName other = (p.join directory).join other := by
  rw [withName, split?_join_join hd hn ne]

/-- The replacement of a file is prepared beside it, under a name of its own. -/
theorem staged_join_join {directory : String} (hd : IsStep directory) (hn : IsStep name)
    (ne : p.text.toList ≠ []) :
    ((p.join directory).join name).staged = (p.join directory).join (name ++ ".swp") := by
  have last : ((p.join directory).join name).lastName = name := by
    rw [lastName, split?_join_join hd hn ne]
  rw [staged, last, withName_join_join hd hn ne]

end Path

end FlatDB
