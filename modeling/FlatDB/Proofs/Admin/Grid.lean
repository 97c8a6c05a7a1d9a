/-
# Grids are aligned

The rows of an answer are shown under each other, so the edges of a column have to be in the same
place on every line.  They are, because a line that is made of fields between edges has them where
the lengths of the fields say, and each field is as long as its column is wide: a column is wide
enough for every text in it and a blank on either side.  Lengths and places are counted in
characters throughout.
-/

import FlatDB.Admin.Grid
import FlatDB.Proofs.Query.Projecting
import FlatDB.Proofs.Text.Numerals
import Mathlib.Data.List.Forall2

namespace FlatDB

/-- A column has room for each of its texts and two more characters. -/
theorem Answer.Fits.le {a : Answer} (fits : a.Fits) {row : List String}
    (mem : row ∈ a.columns :: a.rows) {i : Nat} {text : String} (cell : row[i]? = some text)
    {width : Nat} (here : a.widths[i]? = some width) : text.length + 2 ≤ width := by
  have inside : i < a.columns.length := by
    rw [← fits.length]
    exact (List.getElem?_eq_some_iff.1 here).1
  have longest := fits.longest i _ (List.getElem?_eq_getElem inside)
  rw [here] at longest
  obtain ⟨length, greatest, rfl⟩ := Option.map_eq_some_iff.1 longest.symm
  have bound := (List.max?_eq_some_iff.1 greatest).2 text.length
  apply Nat.add_le_add_right
  apply bound
  apply List.mem_map_of_mem
  rcases List.mem_cons.1 mem with rfl | mem
  · rw [List.getElem?_eq_getElem inside] at cell
    rw [Option.some.inj cell]
    exact List.mem_cons_self
  · exact List.mem_cons_of_mem _ (List.mem_filterMap.2 ⟨row, mem, cell⟩)

namespace Admin

namespace Grid

/-! ## Lines between edges -/

/-- The place of the edge before a column in a line, or of the edge after the last column. -/
def edgeAt (widths : List Nat) (column : Nat) : Nat :=
  (widths.take column).sum + column

/-- Whether a line has edges in the places that the widths of its columns demand, and what is
between two of them is what is to be shown in the column. -/
structure Ruled (edge : Char) (widths : List Nat) (shows : Nat → List Char → Prop)
    (chars : List Char) : Prop where
  /-- Nothing comes after the last edge. -/
  length : chars.length = widths.sum + widths.length + 1
  edges : ∀ column ≤ widths.length, chars[edgeAt widths column]? = some edge
  fields : ∀ column width, widths[column]? = some width →
    shows column ((chars.drop (edgeAt widths column + 1)).take width)

/-- Whether a line separates: between its edges is nothing but dashes. -/
def IsSeparator (widths : List Nat) (line : List Char) : Prop :=
  Ruled '+' widths (fun _ field => ∀ c ∈ field, c = '-') line

/-- Whether a line shows a row: between its edges are the texts of the row, each with one blank
before it and at least one after it. -/
def IsRow (widths : List Nat) (cells : List String) (line : List Char) : Prop :=
  Ruled '|' widths (fun column field => ∃ text blanks, cells[column]? = some text ∧ 0 < blanks ∧
    field = ' ' :: text.toList ++ List.replicate blanks ' ') line

/-- A line of fields, with an edge before and after each. -/
def ruledLine (edge : Char) (fields : List (List Char)) : List Char :=
  edge :: fields.flatMap fun field => field ++ [edge]

theorem ruledLine_cons (edge : Char) (field : List Char) (fields : List (List Char)) :
    ruledLine edge (field :: fields) = (edge :: field) ++ ruledLine edge fields := by
  simp [ruledLine]

theorem edgeAt_cons (width : Nat) (widths : List Nat) (column : Nat) :
    edgeAt (width :: widths) (column + 1) = (width + 1) + edgeAt widths column := by
  simp only [edgeAt, List.take_succ_cons, List.sum_cons]
  omega

/-- The edges of a line are where the lengths of its fields say. -/
theorem ruled_ruledLine (edge : Char) {fields : List (List Char)}
    {shows : Nat → List Char → Prop} (shown : ∀ i field, fields[i]? = some field → shows i field) :
    Ruled edge (fields.map List.length) shows (ruledLine edge fields) := by
  induction fields generalizing shows with
  | nil =>
    refine ⟨rfl, fun column le => ?_, nofun⟩
    rw [Nat.le_zero.1 le]
    rfl
  | cons field fields ih =>
    have later : Ruled edge (fields.map List.length) (fun i => shows (i + 1))
        (ruledLine edge fields) :=
      ih fun i f here => shown (i + 1) f here
    have front : (edge :: field).length = field.length + 1 := rfl
    rw [ruledLine_cons, List.map_cons]
    refine ⟨?_, fun column le => ?_, fun column width here => ?_⟩
    · rw [List.length_append, later.length, front, List.sum_cons, List.length_cons]
      omega
    · cases column with
      | zero => rfl
      | succ column =>
        rw [edgeAt_cons, ← front, List.getElem?_append_right (Nat.le_add_right _ _),
          Nat.add_sub_cancel_left]
        exact later.edges column (Nat.le_of_succ_le_succ le)
    · cases column with
      | zero =>
        obtain rfl : field.length = width := Option.some.inj here
        show shows 0 ((field ++ ruledLine edge fields).take field.length)
        rw [List.take_left]
        exact shown 0 field rfl
      | succ column =>
        rw [edgeAt_cons, ← front, Nat.add_assoc, List.drop_length_add_append]
        exact later.fields column width here

theorem not_mem_ruledLine {c edge : Char} {fields : List (List Char)} (ne : c ≠ edge)
    (none : ∀ field ∈ fields, c ∉ field) : c ∉ ruledLine edge fields := by
  rw [ruledLine, List.mem_cons, List.mem_flatMap]
  rintro (here | ⟨field, mem, inside⟩)
  · exact ne here
  · rcases List.mem_append.1 inside with inside | inside
    · exact none field mem inside
    · exact ne (List.mem_singleton.1 inside)

/-- A line of a grid is one of fields between edges. -/
theorem toList_line {bar : String} {edge : Char} (single : bar.toList = [edge])
    {cells : List String} (some : cells ≠ []) :
    (line bar cells).toList = ruledLine edge (cells.map String.toList) ++ ['\n'] := by
  have between (fields : List (List Char)) (ne : fields ≠ []) :
      [edge].intercalate fields ++ [edge] = fields.flatMap fun field => field ++ [edge] := by
    induction fields with
    | nil => exact absurd rfl ne
    | cons field fields ih =>
      cases fields with
      | nil => simp
      | cons next fields =>
        rw [List.intercalate_cons_cons, List.append_assoc, ih (List.cons_ne_nil _ _),
          List.flatMap_cons (x := field)]
  simp only [line, String.toList_append, String.toList_intercalate, single]
  rw [List.append_assoc [edge], between _ (by simpa using some)]
  rfl

/-! ## Separators and rows -/

variable {widths : List Nat} {cells : List String}

/-- The line of a separator. -/
def separatorLine (widths : List Nat) : List Char :=
  ruledLine '+' (widths.map fun width => List.replicate width '-')

theorem isSeparator_separatorLine (widths : List Nat) :
    IsSeparator widths (separatorLine widths) := by
  have ruled : Ruled '+' _ (fun _ field => ∀ c ∈ field, c = '-') (separatorLine widths) :=
    ruled_ruledLine '+' fun i field here c inside => by
      obtain ⟨width, -, rfl⟩ := List.mem_map.1 (List.mem_of_getElem? here)
      exact List.eq_of_mem_replicate inside
  rw [IsSeparator]
  simpa [Function.comp_def] using ruled

theorem toList_separator (some : widths ≠ []) :
    (separator widths).toList = separatorLine widths ++ ['\n'] := by
  have bar : "+".toList = ['+'] := rfl
  rw [separator, toList_line bar (by simpa using some), List.map_map]
  congr 2
  simp [Function.comp_def]

theorem newline_not_mem_separatorLine (widths : List Nat) : '\n' ∉ separatorLine widths := by
  refine not_mem_ruledLine (by decide) fun field mem inside => ?_
  obtain ⟨width, -, rfl⟩ := List.mem_map.1 mem
  exact absurd (List.eq_of_mem_replicate inside) (by decide)

/-- The line of a row. -/
def rowLine (widths : List Nat) (cells : List String) : List Char :=
  ruledLine '|' ((List.zipWith cell cells widths).map String.toList)

/-- Whether there is room for each cell of a row and two more characters. -/
def Roomy (widths : List Nat) (cells : List String) : Prop :=
  List.Forall₂ (fun text width => text.length + 2 ≤ width) cells widths

theorem Roomy.getElem? (roomy : Roomy widths cells) {i : Nat} {text : String} {width : Nat}
    (first : cells[i]? = some text) (second : widths[i]? = some width) :
    text.length + 2 ≤ width := by
  obtain ⟨inside, rfl⟩ := List.getElem?_eq_some_iff.1 first
  obtain ⟨inside', rfl⟩ := List.getElem?_eq_some_iff.1 second
  exact List.Forall₂.get roomy inside inside'

theorem Roomy.length_eq (roomy : Roomy widths cells) : cells.length = widths.length :=
  List.Forall₂.length_eq roomy

/-- A column with room for two characters has a width to take one from. -/
theorem Roomy.pos (roomy : Roomy widths cells) : ∀ width ∈ widths, 0 < width := by
  induction roomy with
  | nil => exact List.forall_mem_nil _
  | cons room _ ih => exact List.forall_mem_cons.2 ⟨by omega, ih⟩

/-- With that, the fields are as long as the columns are wide. -/
theorem Roomy.lengths (roomy : Roomy widths cells) :
    ((List.zipWith cell cells widths).map String.toList).map List.length = widths := by
  induction roomy with
  | nil => rfl
  | @cons text width _ _ room _ ih =>
    rw [List.zipWith_cons_cons, List.map_cons, List.map_cons, ih]
    congr 1
    simp only [cell, String.toList_ofList, List.length_append, List.length_cons,
      List.length_replicate, String.length_toList]
    omega

theorem isRow_rowLine (roomy : Roomy widths cells) : IsRow widths cells (rowLine widths cells) := by
  have ruled : Ruled '|' (((List.zipWith cell cells widths).map String.toList).map List.length)
      (fun column field => ∃ text blanks, cells[column]? = some text ∧ 0 < blanks ∧
        field = ' ' :: text.toList ++ List.replicate blanks ' ') (rowLine widths cells) := by
    apply ruled_ruledLine
    intro i field here
    rw [List.getElem?_map, Option.map_eq_some_iff] at here
    obtain ⟨shown, zipped, rfl⟩ := here
    obtain ⟨text, width, first, second, rfl⟩ := List.getElem?_zipWith_eq_some.1 zipped
    have room : text.length + 2 ≤ width := roomy.getElem? first second
    refine ⟨text, width - 1 - text.length, first, by omega, ?_⟩
    rw [cell, String.toList_ofList]
  rwa [roomy.lengths] at ruled

theorem toList_row (roomy : Roomy widths cells) (some : cells ≠ []) :
    (row widths cells).toList = rowLine widths cells ++ ['\n'] := by
  have fields : List.zipWith cell cells widths ≠ [] := by
    intro none
    have length := congrArg List.length none
    rw [List.length_zipWith, ← roomy.length_eq, Nat.min_self] at length
    exact some (List.eq_nil_of_length_eq_zero length)
  have bar : "|".toList = ['|'] := rfl
  exact toList_line bar fields

theorem newline_not_mem_rowLine (widths : List Nat) (plain : ∀ text ∈ cells, '\n' ∉ text.toList) :
    '\n' ∉ rowLine widths cells := by
  refine not_mem_ruledLine (by decide) fun field mem inside => ?_
  obtain ⟨shown, zipped, rfl⟩ := List.mem_map.1 mem
  obtain ⟨i, here⟩ := List.getElem?_of_mem zipped
  obtain ⟨text, width, first, -, rfl⟩ := List.getElem?_zipWith_eq_some.1 here
  rw [cell, String.toList_ofList, List.cons_append, List.mem_cons, List.mem_append] at inside
  rcases inside with impossible | inside | blank
  · exact absurd impossible (by decide)
  · exact plain text (List.mem_of_getElem? first) inside
  · exact absurd (List.eq_of_mem_replicate blank) (by decide)

/-! ## Grids -/

/-- Lines that each end in a newline, and what comes after the last, are the pieces of their
text. -/
theorem pieces_flatMap_newline {lines : List (List Char)} {last : List Char}
    (whole : ∀ line ∈ lines, '\n' ∉ line) (rest : '\n' ∉ last) :
    Split.pieces '\n' (lines.flatMap (· ++ ['\n']) ++ last) = lines ++ [last] := by
  induction lines with
  | nil => exact Split.pieces_of_not_mem rest
  | cons line lines ih =>
    obtain ⟨first, later⟩ := List.forall_mem_cons.1 whole
    rw [List.flatMap_cons, List.append_assoc, List.append_assoc, List.singleton_append,
      Split.pieces_append_cons first, ih later, List.cons_append]

/-- The columns of an answer of rows have room for all rows and for the headers. -/
theorem roomy_ofRows {columns : List String} {rows : List (List String)}
    (even : ∀ cells ∈ rows, cells.length = columns.length) :
    ∀ cells ∈ columns :: rows, Roomy (Answer.ofRows columns rows).widths cells := by
  intro cells mem
  have fits := Answer.fits_ofRows columns rows
  have length : cells.length = (Answer.ofRows columns rows).widths.length := by
    rw [fits.length]
    rcases List.mem_cons.1 mem with rfl | mem
    · rfl
    · exact even cells mem
  refine List.forall₂_iff_get.2 ⟨length, fun i first second => ?_⟩
  exact fits.le mem (List.getElem?_eq_getElem first) (List.getElem?_eq_getElem second)

/-- The lines of a grid. -/
def lines (a : Answer) : List (List Char) :=
  [separatorLine a.widths, rowLine a.widths a.columns, separatorLine a.widths] ++
    a.rows.map (rowLine a.widths) ++ if a.rows = [] then [] else [separatorLine a.widths]

/-- The line below a grid. -/
def count (a : Answer) : String :=
  Numeral.ofNat a.rows.length ++ " row(s) returned"

theorem newline_not_mem_count (a : Answer) : '\n' ∉ (count a).toList := by
  rw [count, String.toList_append, List.mem_append, not_or]
  exact ⟨Numeral.not_mem_ofNat (by decide), by decide⟩

/-- No line of a grid is broken if no text in it is. -/
theorem newline_not_mem_lines {a : Answer}
    (plain : ∀ cells ∈ a.columns :: a.rows, ∀ text ∈ cells, '\n' ∉ text.toList) :
    ∀ line ∈ lines a, '\n' ∉ line := by
  obtain ⟨header, body⟩ := List.forall_mem_cons.1 plain
  have separator := newline_not_mem_separatorLine a.widths
  have shown : ∀ line ∈ a.rows.map (rowLine a.widths), '\n' ∉ line :=
    List.forall_mem_map.2 fun cells mem => newline_not_mem_rowLine a.widths (body cells mem)
  have closing : ∀ line ∈ if a.rows = [] then [] else [separatorLine a.widths], '\n' ∉ line := by
    split
    · exact List.forall_mem_nil _
    · exact List.forall_mem_singleton.2 separator
  rw [lines, List.forall_mem_append, List.forall_mem_append, List.forall_mem_cons,
    List.forall_mem_cons, List.forall_mem_singleton]
  exact ⟨⟨⟨separator, newline_not_mem_rowLine a.widths header, separator⟩, shown⟩, closing⟩

theorem toList_ofAnswer {a : Answer} (some : a.columns ≠ [])
    (roomy : ∀ cells ∈ a.columns :: a.rows, Roomy a.widths cells) :
    (ofAnswer a).toList = (lines a).flatMap (· ++ ['\n']) ++ (count a).toList := by
  obtain ⟨header, body⟩ := List.forall_mem_cons.1 roomy
  have columns : a.widths ≠ [] := by
    intro none
    have length := header.length_eq
    rw [none] at length
    exact some (List.eq_nil_of_length_eq_zero length)
  have rows : (String.join (a.rows.map (row a.widths))).toList =
      (a.rows.map (rowLine a.widths)).flatMap (· ++ ['\n']) := by
    rw [String.toList_join, List.flatMap_map, List.flatMap_map]
    apply List.flatMap_congr
    intro cells mem
    have roomy := body cells mem
    apply toList_row roomy
    intro none
    apply columns
    rw [← List.length_eq_zero_iff, ← roomy.length_eq, none, List.length_nil]
  have closing : (if a.rows.isEmpty then "" else separator a.widths).toList =
      (if a.rows = [] then [] else [separatorLine a.widths]).flatMap (· ++ ['\n']) := by
    by_cases none : a.rows = []
    · simp [none]
    · simp [none, toList_separator columns]
  rw [ofAnswer, if_neg (by simpa using some), ofRows]
  simp only [String.toList_append, toList_separator columns, toList_row header some, rows, closing,
    lines, count, List.flatMap_append, List.flatMap_cons, List.flatMap_nil, List.append_assoc,
    List.append_nil]

/-- Rows under headers are shown in a grid: the headers between two separators, a line for each
row, another separator if there are any rows, and their number.  No column is so narrow that the
blank before its texts has no room.  All lines but the last are equally long, and the edges of the
columns are in the same places on all of them. -/
theorem lines_aligned {columns : List String} {rows : List (List String)} (some : columns ≠ [])
    (even : ∀ cells ∈ rows, cells.length = columns.length)
    (plain : ∀ cells ∈ columns :: rows, ∀ text ∈ cells, '\n' ∉ text.toList) :
    let a := Answer.ofRows columns rows
    (∀ width ∈ a.widths, 0 < width) ∧
    ∃ separator header body,
      Split.pieces '\n' (ofAnswer a).toList =
        [separator, header, separator] ++ body ++ (if rows = [] then [] else [separator]) ++
          [(Numeral.ofNat rows.length ++ " row(s) returned").toList] ∧
      IsSeparator a.widths separator ∧ IsRow a.widths columns header ∧
      List.Forall₂ (IsRow a.widths) rows body ∧
      ∀ line ∈ separator :: header :: body, line.length = a.widths.sum + columns.length + 1 := by
  intro a
  have roomy : ∀ cells ∈ columns :: rows, Roomy a.widths cells := roomy_ofRows even
  obtain ⟨roomyHeader, roomyBody⟩ := List.forall_mem_cons.1 roomy
  have separates := isSeparator_separatorLine a.widths
  have shows := isRow_rowLine roomyHeader
  have body : List.Forall₂ (IsRow a.widths) rows (rows.map (rowLine a.widths)) := by
    rw [List.forall₂_map_right_iff, List.forall₂_same]
    exact fun cells mem => isRow_rowLine (roomyBody cells mem)
  refine ⟨roomyHeader.pos, separatorLine a.widths, rowLine a.widths columns,
    rows.map (rowLine a.widths), ?_, separates, shows, body, ?_⟩
  · have whole : ∀ line ∈ lines a, '\n' ∉ line := newline_not_mem_lines plain
    rw [toList_ofAnswer some roomy, pieces_flatMap_newline whole (newline_not_mem_count a)]
    rfl
  · rw [roomyHeader.length_eq]
    refine List.forall_mem_cons.2 ⟨separates.length, List.forall_mem_cons.2 ⟨shows.length, ?_⟩⟩
    intro line mem
    obtain ⟨cells, inside, rfl⟩ := List.mem_map.1 mem
    exact (isRow_rowLine (roomyBody cells inside)).length

/-- Texts are as wide as they have characters, and an edge in a text is not taken for one of the
grid. -/
theorem lines_aligned_sample :
    let columns := ["Tables", "n"]
    let rows := [["caf\u00e9", "|"], ["\u4e16\u754c", "-100"]]
    let a := Answer.ofRows columns rows
    a.widths = [8, 6] ∧
    ∃ separator header body,
      Split.pieces '\n' (ofAnswer a).toList =
        [separator, header, separator] ++ body ++ [separator] ++
          [(Numeral.ofNat 2 ++ " row(s) returned").toList] ∧
      IsSeparator a.widths separator ∧ IsRow a.widths columns header ∧
      List.Forall₂ (IsRow a.widths) rows body ∧
      ∀ line ∈ separator :: header :: body, line.length = 8 + (6 + 0) + 2 + 1 := by
  intro columns rows a
  have even : ∀ cells ∈ rows, cells.length = columns.length := by decide
  obtain ⟨-, aligned⟩ := lines_aligned (by decide) even (by decide)
  exact ⟨by decide, aligned⟩

example :
    ofAnswer (Answer.ofRows ["Tables", "n"] [["caf\u00e9", "|"]]) =
      "+--------+---+\n| Tables | n |\n+--------+---+\n| caf\u00e9   | | |\n+--------+---+\n" ++
        "1 row(s) returned" := by
  decide +kernel

end Grid

end Admin

end FlatDB
