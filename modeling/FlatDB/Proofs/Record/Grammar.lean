/-
# The grammar of record lines

Which lines are read as records can be said without reading them: the first part of the line is
a numeral, and in the other parts every backslash that opens an escape has a letter after it.
Which backslashes open escapes is decided from the left, because the second character of an
escape may be a backslash itself.

More lines are read than are written.  A line is the one that is written for what is read from
it just if its numeral is the shortest one and no line ending stands in it unescaped.
-/

import FlatDB.Proofs.Date
import FlatDB.Proofs.Record.RoundTrip
import Mathlib.Data.List.Induction

namespace FlatDB

/-- The pieces of a list are those between the separators. -/
theorem Split.pieces_eq_splitOn {α : Type} [DecidableEq α] (sep : α) (xs : List α) :
    pieces sep xs = xs.splitOn sep := by
  induction xs with
  | nil => rfl
  | cons x xs ih =>
      rw [List.splitOn_cons_eq_if_modifyHead, pieces, ih]
      simp only [beq_iff_eq]

theorem Split.pieces_inj {α : Type} [DecidableEq α] (sep : α) {xs ys : List α} :
    pieces sep xs = pieces sep ys ↔ xs = ys := by
  refine ⟨fun same => ?_, congrArg (pieces sep)⟩
  rw [← join_pieces sep xs, same, join_pieces]

/-! ## Numerals -/

namespace Numeral

/-- Whether some characters are a numeral of a number: one digit or more, possibly after a plus
sign. -/
def Denotes (cs : List Char) (n : Nat) : Prop :=
  ∃ digits, (cs = digits ∨ cs = '+' :: digits) ∧ digits ≠ [] ∧
    (∀ c ∈ digits, c.isDigit = true) ∧ Nat.ofDigitChars 10 digits 0 = n

/-- Whether a numeral is the shortest of its number: it has no plus sign, and no zero in front of
other digits. -/
def Shortest (cs : List Char) : Prop :=
  '+' ∉ cs ∧ ∀ rest, cs = '0' :: rest → rest = []

theorem digits?_dropPlus {cs : List Char} {n : Nat} :
    digits? (dropPlus cs) = some n ↔ Denotes cs n := by
  have value (digits : List Char) : value digits = Nat.ofDigitChars 10 digits 0 :=
    Nat.ofDigitChars_eq_foldl.symm
  constructor
  · intro read
    obtain ⟨filled, digits, denotes⟩ := digits?_eq_some.1 read
    refine ⟨dropPlus cs, ?_, filled, digits, (value _).symm.trans denotes⟩
    unfold dropPlus
    split
    · exact .inr rfl
    · exact .inl rfl
  · rintro ⟨digits, shape, filled, all, denotes⟩
    have dropped : dropPlus cs = digits := by
      rcases shape with rfl | rfl
      · unfold dropPlus
        split
        · next rest =>
          have digit : '+'.isDigit = true := all '+' List.mem_cons_self
          cases digit
        · rfl
      · rfl
    rw [dropped]
    exact digits?_eq_some.2 ⟨filled, all, (value _).trans denotes⟩

/-- There is nothing but digits in a numeral, except for a plus sign. -/
theorem Denotes.not_mem {cs : List Char} {n : Nat} (denotes : Denotes cs n) {c : Char}
    (digit : c.isDigit = false) (plus : c ≠ '+') : c ∉ cs := by
  obtain ⟨digits, shape, -, all, -⟩ := denotes
  have early : c ∉ digits := fun mem => by simp [all c mem] at digit
  rcases shape with rfl | rfl
  · exact early
  · simp [plus, early]

/-- An id is read from the numerals of the numbers below 2 to the 64, and is that number. -/
theorem uint64?_eq_some {s : String} {id : UInt64} :
    uint64? s = some id ↔ Denotes s.toList id.toNat := by
  simp only [uint64?, natBelow?, Option.map_eq_some_iff, Option.filter_eq_some_iff,
    decide_eq_true_iff, digits?_dropPlus]
  constructor
  · rintro ⟨n, ⟨denotes, small⟩, rfl⟩
    rwa [UInt64.toNat_ofNat_of_lt' small]
  · intro denotes
    exact ⟨id.toNat, ⟨denotes, id.toNat_lt_size⟩, UInt64.ofNat_toNat⟩

theorem isSome_uint64? {s : String} :
    (uint64? s).isSome = true ↔ ∃ n, Denotes s.toList n ∧ n < 2 ^ 64 := by
  simp only [Option.isSome_iff_exists, uint64?_eq_some]
  constructor
  · rintro ⟨id, denotes⟩
    exact ⟨id.toNat, denotes, id.toNat_lt_size⟩
  · rintro ⟨n, denotes, small⟩
    exact ⟨UInt64.ofNat n, by rwa [UInt64.toNat_ofNat_of_lt' small]⟩

/-- Digits without a leading zero are those of the number that they denote. -/
theorem toDigits_value {digits : List Char} (filled : digits ≠ [])
    (all : ∀ c ∈ digits, c.isDigit = true) (leading : ∀ rest, digits = '0' :: rest → rest = []) :
    Nat.toDigits 10 (value digits) = digits := by
  induction digits using List.reverseRecOn with
  | nil => exact absurd rfl filled
  | append_singleton front c ih =>
      have digit : c.isDigit = true := all c (by simp)
      have last : Nat.toDigits 10 (c.toNat - '0'.toNat) = [c] := by
        rw [Nat.toDigits_of_lt_base (digit_lt digit), digitChar_of_isDigit digit]
      cases front with
      | nil => simpa [value] using last
      | cons a front =>
          have zero : a ≠ '0' := by
            rintro rfl
            simpa using leading (front ++ [c]) rfl
          have early : Nat.toDigits 10 (value (a :: front)) = a :: front :=
            ih (List.cons_ne_nil a front) (fun x mem => all x (List.mem_append_left _ mem))
              fun rest same => absurd (List.cons.inj same).1 zero
          have positive : 0 < value (a :: front) := by
            rw [Nat.pos_iff_ne_zero]
            intro none
            rw [none, Nat.toDigits_zero] at early
            exact zero (List.cons.inj early).1.symm
          rw [value_concat, ← Nat.toDigits_append_toDigits (by decide) positive (digit_lt digit),
            early, last]

/-- The numeral that is written for a number is the shortest one. -/
theorem toDigits_eq_iff {cs : List Char} {n : Nat} (denotes : Denotes cs n) :
    Nat.toDigits 10 n = cs ↔ Shortest cs := by
  constructor
  · rintro rfl
    refine ⟨fun plus => absurd (isDigit_of_mem_toDigits plus) (by decide), fun rest same => ?_⟩
    by_cases zero : n = 0
    · rw [zero, Nat.toDigits_zero] at same
      exact (List.cons.inj same).2.symm
    · exact absurd same (head_toDigits_ne_zero zero)
  · rintro ⟨unsigned, leading⟩
    obtain ⟨digits, rfl | rfl, filled, all, rfl⟩ := denotes
    · rw [Nat.ofDigitChars_eq_foldl]
      exact toDigits_value filled all leading
    · exact absurd List.mem_cons_self unsigned

end Numeral

/-! ## Fields -/

namespace Field

/-- Whether an escape opens at a place: a backslash stands there, and it is not the second
character of an escape. -/
def opens (cs : List Char) : Nat → Bool
  | 0 => cs[0]? = some '\\'
  | i + 1 => cs[i + 1]? = some '\\' && !opens cs i

/-- Whether every escape has a letter that stands for something. -/
def WellEscaped (cs : List Char) : Prop :=
  ∀ i, opens cs i = true → ∃ letter ∈ ['\\', 't', 'n', 'r'], cs[i + 1]? = some letter

variable {c : Char} {cs rest : List Char}

/-- A character that is no backslash keeps the places of the escapes after it. -/
theorem opens_cons_succ (h : c ≠ '\\') (i : Nat) : opens (c :: rest) (i + 1) = opens rest i := by
  induction i with
  | zero => simp [opens, h]
  | succ i ih => rw [opens, ih, opens, List.getElem?_cons_succ]

/-- So does an escape. -/
theorem opens_escape_succ (i : Nat) : opens ('\\' :: c :: rest) (i + 2) = opens rest i := by
  induction i with
  | zero => simp [opens]
  | succ i ih => rw [opens, ih, opens, List.getElem?_cons_succ, List.getElem?_cons_succ]

theorem wellEscaped_nil : WellEscaped [] := by
  intro i opened
  cases i <;> simp [opens] at opened

theorem wellEscaped_cons (h : c ≠ '\\') : WellEscaped (c :: rest) ↔ WellEscaped rest := by
  constructor
  · intro well i opened
    exact well (i + 1) ((opens_cons_succ h i).trans opened)
  · intro well i opened
    cases i with
    | zero => simp [opens, h] at opened
    | succ i => exact well i ((opens_cons_succ h i).symm.trans opened)

theorem wellEscaped_escape :
    WellEscaped ('\\' :: c :: rest) ↔ c ∈ ['\\', 't', 'n', 'r'] ∧ WellEscaped rest := by
  constructor
  · intro well
    refine ⟨?_, fun i opened => well (i + 2) ((opens_escape_succ i).trans opened)⟩
    obtain ⟨letter, mem, same⟩ := well 0 (by simp [opens])
    cases same
    exact mem
  · rintro ⟨letter, well⟩ i opened
    match i with
    | 0 => exact ⟨c, letter, rfl⟩
    | 1 => simp [opens] at opened
    | i + 2 => exact well i ((opens_escape_succ i).symm.trans opened)

/-- A backslash at the end opens an escape that nothing follows. -/
theorem not_wellEscaped_backslash : ¬ WellEscaped ['\\'] := by
  intro well
  obtain ⟨letter, -, found⟩ := well 0 (by simp [opens])
  cases found

/-- A character that is read as itself is no backslash. -/
theorem ne_backslash (lone : c = '\\' → rest = [] → False)
    (pair : ∀ letter more, c = '\\' → rest = letter :: more → False) : c ≠ '\\' := by
  intro backslash
  cases rest with
  | nil => exact lone backslash rfl
  | cons letter more => exact pair letter more backslash rfl

theorem isSome_letter? : (letter? c).isSome = true ↔ c ∈ ['\\', 't', 'n', 'r'] := by
  simp only [letter?, List.mem_cons, List.not_mem_nil, or_false]
  grind

/-- A field can be read just if its escapes are spelled right. -/
theorem isOk_unescape : (unescape cs).isOk = true ↔ WellEscaped cs := by
  fun_induction unescape cs with
  | case1 => exact iff_of_true rfl wellEscaped_nil
  | case2 => exact iff_of_false Bool.false_ne_true not_wellEscaped_backslash
  | case3 c rest meant found ih =>
      have letter := isSome_letter?.1 (Option.isSome_of_eq_some found)
      rw [wellEscaped_escape, ← ih]
      cases unescape rest <;> simp [letter]
  | case4 c rest found =>
      have letter : c ∉ ['\\', 't', 'n', 'r'] := fun mem => by
        simpa [found] using isSome_letter?.2 mem
      rw [wellEscaped_escape]
      exact iff_of_false Bool.false_ne_true fun well => letter well.1
  | case5 c rest lone pair ih =>
      rw [wellEscaped_cons (ne_backslash lone pair), ← ih]
      cases unescape rest <;> simp

/-- What stands for a character in a field, if it is not the character itself, is how that
character is written. -/
theorem escapeChar_of_letter? {letter meant : Char} (h : letter? letter = some meant) :
    escapeChar meant = ['\\', letter] := by
  unfold letter? at h
  grind [escapeChar]

/-- A field that can be read is written like this again just if nothing in it should have been
escaped. -/
theorem escape_eq_iff {text : List Char} (read : unescape cs = .ok text) :
    escape text = cs ↔ '\t' ∉ cs ∧ '\n' ∉ cs ∧ '\r' ∉ cs := by
  constructor
  · rintro rfl
    exact ⟨not_mem_escape (.inl rfl) text, not_mem_escape (.inr (.inl rfl)) text,
      not_mem_escape (.inr (.inr rfl)) text⟩
  · intro raw
    fun_induction unescape cs generalizing text with
    | case1 =>
        cases read
        rfl
    | case2 => cases read
    | case3 c rest meant found ih =>
        obtain ⟨more, readMore, same⟩ := Result.bind_eq_ok.1 read
        cases same
        have early : escape more = rest := ih readMore (by simp_all)
        rw [escape, List.flatMap_cons, escapeChar_of_letter? found]
        exact congrArg _ early
    | case4 => cases read
    | case5 c rest lone pair ih =>
        obtain ⟨more, readMore, same⟩ := Result.bind_eq_ok.1 read
        cases same
        have early : escape more = rest := ih readMore (by simp_all)
        have plain : escapeChar c = [c] := by
          have backslash := ne_backslash lone pair
          simp only [List.mem_cons, not_or] at raw
          simp [escapeChar, backslash, Ne.symm raw.1.1, Ne.symm raw.2.1.1, Ne.symm raw.2.2.1]
        rw [escape, List.flatMap_cons, plain]
        exact congrArg _ early

end Field

/-! ## Lines -/

namespace Record

variable {part : List Char} {line : String} {id : RecordId} {r : Record}

theorem parseId_eq_ok : parseId part = .ok id ↔ Numeral.Denotes part id.toNat := by
  rw [← String.toList_ofList (l := part), ← Numeral.uint64?_eq_some, String.toList_ofList, parseId]
  cases Numeral.uint64? (String.ofList part) <;> simp

theorem isOk_parseId : (parseId part).isOk = true ↔ ∃ n, Numeral.Denotes part n ∧ n < 2 ^ 64 := by
  rw [← String.toList_ofList (l := part), ← Numeral.isSome_uint64?, String.toList_ofList, parseId]
  cases Numeral.uint64? (String.ofList part) <;> simp

theorem parseField_eq_ok {field : String} :
    parseField part = .ok field ↔ Field.unescape part = .ok field.toList := by
  rw [parseField, Result.bind_eq_ok]
  constructor
  · rintro ⟨text, read, same⟩
    cases same
    rw [read, String.toList_ofList]
  · intro read
    exact ⟨field.toList, read, congrArg Except.ok String.ofList_toList⟩

theorem isOk_parseField : (parseField part).isOk = true ↔ Field.WellEscaped part := by
  rw [← Field.isOk_unescape, parseField]
  cases Field.unescape part <;> simp

/-- A line is read part by part. -/
theorem ofLine_eq_ok :
    ofLine line = .ok (id, r) ↔ parseId ((line.toList.splitOn '\t').headD []) = .ok id ∧
      List.Forall₂ (fun part field => parseField part = .ok field)
        (line.toList.splitOn '\t').tail r.fields := by
  simp only [ofLine, Split.pieces_eq_splitOn, Result.bind_eq_ok, ← Result.mapM_eq_ok]
  constructor
  · rintro ⟨_, read, fields, more, same⟩
    cases same
    exact ⟨read, more⟩
  · rintro ⟨read, more⟩
    exact ⟨id, read, r.fields, more, rfl⟩

theorem isOk_ofLine :
    (ofLine line).isOk = true ↔ (parseId ((line.toList.splitOn '\t').headD [])).isOk = true ∧
      ∀ part ∈ (line.toList.splitOn '\t').tail, (parseField part).isOk = true := by
  rw [← Result.isOk_mapM, ofLine, Split.pieces_eq_splitOn]
  cases parseId ((line.toList.splitOn '\t').headD []) with
  | error e => simp
  | ok id =>
      cases (line.toList.splitOn '\t').tail.mapM parseField <;>
        simp

/-- The line of a record is a given one just if it agrees with that in every part. -/
theorem line_eq_append_iff :
    r.line id = line ++ "\n" ↔
      (Numeral.ofUInt64 id).toList = (line.toList.splitOn '\t').headD [] ∧
        (r.fields.map fun field => Field.escape field.toList) =
          (line.toList.splitOn '\t').tail := by
  rw [line_eq, String.append_left_inj, ← String.toList_inj, ← Split.pieces_inj '\t',
    pieces_lineBody, ← Split.pieces_eq_splitOn]
  cases parts : Split.pieces '\t' line.toList with
  | nil => exact absurd parts (Split.pieces_ne_nil _ _)
  | cons first others => rw [List.cons.injEq, List.headD_cons, List.tail_cons]

/-- Fields are written as the parts that they were read from just if these hold no line ending. -/
theorem map_escape_eq_iff {parts : List (List Char)} {fields : List String}
    (read : List.Forall₂ (fun part field => parseField part = .ok field) parts fields)
    (separate : ∀ part ∈ parts, '\t' ∉ part) :
    (fields.map fun field => Field.escape field.toList) = parts ↔
      ∀ part ∈ parts, '\n' ∉ part ∧ '\r' ∉ part := by
  induction read with
  | nil => simp
  | @cons part field parts fields first _ ih =>
      rw [List.forall_mem_cons] at separate
      rw [List.map_cons, List.cons.injEq, ih separate.2,
        Field.escape_eq_iff (parseField_eq_ok.1 first), List.forall_mem_cons]
      simp only [separate.1, not_false_eq_true, true_and]

/-- A line that was read is written like this again just if its numeral is the shortest one and
there is no line ending in any part. -/
theorem line_eq_iff_of_ofLine (read : ofLine line = .ok (id, r)) :
    r.line id = line ++ "\n" ↔ Numeral.Shortest ((line.toList.splitOn '\t').headD []) ∧
      ∀ part ∈ line.toList.splitOn '\t', '\n' ∉ part ∧ '\r' ∉ part := by
  obtain ⟨first, fields⟩ := ofLine_eq_ok.1 read
  have separate : ∀ part ∈ line.toList.splitOn '\t', '\t' ∉ part := by
    rw [← Split.pieces_eq_splitOn]
    exact fun part mem => Split.not_mem_of_mem_pieces mem
  rw [line_eq_append_iff]
  cases parts : line.toList.splitOn '\t' with
  | nil => exact absurd parts (List.splitOn_ne_nil _ _)
  | cons numeral others =>
      rw [parts] at first fields separate
      rw [List.tail_cons] at fields
      have denotes : Numeral.Denotes numeral id.toNat := parseId_eq_ok.1 first
      have clean : '\n' ∉ numeral ∧ '\r' ∉ numeral :=
        ⟨denotes.not_mem (by decide) (by decide), denotes.not_mem (by decide) (by decide)⟩
      rw [List.forall_mem_cons] at separate ⊢
      rw [List.headD_cons, List.tail_cons, map_escape_eq_iff fields separate.2, Numeral.ofUInt64,
        Numeral.toList_ofNat, Numeral.toDigits_eq_iff denotes, and_iff_right clean]

/-- A line is read just if its first part is a numeral of a number below 2 to the 64 and the
escapes in its other parts are spelled right.  Then it has a field for every tab, and its id is
that number.  It is the line that is written for the record just if the numeral is the shortest
one and there is no line ending in any part. -/
theorem ofLine_grammar (line : String) :
    let parts := line.toList.splitOn '\t'
    ((ofLine line).isOk = true ↔
        (∃ n, Numeral.Denotes (parts.headD []) n ∧ n < 2 ^ 64) ∧
          ∀ part ∈ parts.tail, Field.WellEscaped part) ∧
      ∀ id r, ofLine line = .ok (id, r) →
        Numeral.Denotes (parts.headD []) id.toNat ∧ r.arity = line.toList.count '\t' ∧
          idOfLine line = .ok id ∧
            (r.line id = line ++ "\n" ↔ Numeral.Shortest (parts.headD []) ∧
              ∀ part ∈ parts, '\n' ∉ part ∧ '\r' ∉ part) := by
  intro parts
  refine ⟨?_, fun id r read => ?_⟩
  · rw [isOk_ofLine, isOk_parseId]
    simp only [isOk_parseField]
    rfl
  · obtain ⟨first, fields⟩ := ofLine_eq_ok.1 read
    refine ⟨parseId_eq_ok.1 first, ?_, ?_, line_eq_iff_of_ofLine read⟩
    · rw [arity, ← fields.length_eq, List.length_tail, ← Split.pieces_eq_splitOn,
        Split.length_pieces, Nat.add_sub_cancel]
    · rw [idOfLine, Split.pieces_eq_splitOn]
      exact first

/-- The numeral may be longer than it has to be, and a carriage return may stand in a field. -/
theorem ofLine_grammar_lenient :
    let line := "+07\t\\\\n\ta\rb"
    let r : Record := ⟨["\\n", "a\rb"]⟩
    ofLine line = .ok (7, r) ∧ r.arity = 2 ∧ idOfLine line = .ok 7 ∧ r.line 7 ≠ line ++ "\n" := by
  intro line r
  have read : ofLine line = .ok (7, r) := by decide
  obtain ⟨-, law⟩ := ofLine_grammar line
  obtain ⟨-, arity, known, written⟩ := law 7 r read
  refine ⟨read, arity.trans (by decide), known, fun same => ?_⟩
  obtain ⟨⟨unsigned, -⟩, -⟩ := written.1 same
  exact unsigned (by decide)

end Record

end FlatDB
