/-
# Typed records

A column admits the texts that some literal is stored as in it, and a record is
typed if it has one admitted text for every column.  Checked rows are typed, and
a typed record stays so when a field is set to an admitted text.  An integer
column therefore always has a key.
-/

import FlatDB.Proofs.Index.Holding
import FlatDB.Proofs.Schema.Columns
import FlatDB.Query.Execute
import Mathlib.Data.List.Forall2

namespace FlatDB

/-! ## Texts of a column -/

/-- Whether a text can be stored in a column. -/
def Column.Admits (c : Column) (text : String) : Prop :=
  match c.type with
  | .int => ∃ n : Int32, text = Numeral.ofInt32 n
  | .char bound => text.utf8ByteSize ≤ bound
  | .date => (Date.parse? text).isSome

namespace Column

variable {c : Column}

/-- The literals that are stored in a column, and the texts that they are stored as. -/
theorem storedText_eq_ok {table text : String} {value : Literal} :
    c.storedText table value = .ok text ↔
      (c.type = .int ∧ ∃ n : Int32, value = .integer n.toInt ∧ text = Numeral.ofInt32 n) ∨
        (∃ bound, c.type = .char bound ∧ value = .text text ∧ text.utf8ByteSize ≤ bound) ∨
          (c.type = .date ∧ value = .text text ∧ (Date.parse? text).isSome) := by
  constructor
  · intro stored
    unfold storedText at stored
    split at stored
    · next n int =>
      split at stored
      · next v found =>
        cases stored
        exact .inl ⟨int, v, by rw [Numeral.int32OfInt?_eq_some.1 found], rfl⟩
      · cases stored
    · next bound s char =>
      split at stored
      · next fits =>
        cases stored
        exact .inr (.inl ⟨bound, char, rfl, fits⟩)
      · cases stored
    · next s date =>
      split at stored
      · next valid =>
        cases stored
        exact .inr (.inr ⟨date, rfl, valid⟩)
      · cases stored
    · cases stored
  · unfold storedText
    rintro (⟨int, n, rfl, rfl⟩ | ⟨bound, char, rfl, fits⟩ | ⟨date, rfl, valid⟩)
    · simp [int]
    · simp [char, fits]
    · simp [date, valid]

/-- The texts that a column admits are those that literals are stored as in it. -/
theorem admits_iff {table text : String} :
    c.Admits text ↔ ∃ value, c.storedText table value = .ok text := by
  simp only [storedText_eq_ok]
  unfold Admits
  cases c.type with
  | int => simp
  | char bound => simp
  | date => simp

/-- What a literal is stored as is admitted. -/
theorem admits_of_storedText {table text : String} {value : Literal}
    (h : c.storedText table value = .ok text) : c.Admits text :=
  admits_iff.2 ⟨value, h⟩

/-- What an expression is stored as is admitted. -/
theorem admits_of_storedValue {table text : String} {value : Expr}
    (h : c.storedValue table value = .ok text) : c.Admits text := by
  obtain ⟨literal, _, stored⟩ := Result.bind_eq_ok.1 h
  exact admits_of_storedText stored

/-- The texts of an integer column are keys. -/
theorem isSome_int32?_of_admits (int : c.type = .int) {text : String} (h : c.Admits text) :
    (Numeral.int32? text).isSome := by
  rw [Admits, int] at h
  obtain ⟨n, rfl⟩ := h
  simp

end Column

/-! ## Records of a schema -/

/-- Whether a record has an admitted text for every column. -/
def Record.Typed (s : Schema) (r : Record) : Prop :=
  List.Forall₂ Column.Admits s.columns r.fields

namespace Record

variable {s : Schema} {r : Record}

theorem Typed.arity (h : Typed s r) : r.arity = s.arity :=
  h.length_eq.symm

/-- The field of a column is there and admitted. -/
theorem Typed.get? (h : Typed s r) (proper : s.Proper) {c : Column} (mem : c ∈ s.columns) :
    ∃ text, r.get? c.position = some text ∧ c.Admits text := by
  have place := proper.getElem?_position mem
  have below : c.position < s.columns.length := proper.position_lt mem
  have inside : c.position < r.fields.length := h.length_eq ▸ below
  refine ⟨r.fields[c.position], List.getElem?_eq_getElem inside, ?_⟩
  have admits : s.columns[c.position].Admits r.fields[c.position] := h.get _ inside
  rw [List.getElem?_eq_getElem below, Option.some.injEq] at place
  rwa [place] at admits

/-- A record has a key in every integer column. -/
theorem Typed.isSome_key? (h : Typed s r) (proper : s.Proper) {c : Column} (mem : c ∈ s.columns)
    (int : c.type = .int) : (r.key? c.position).isSome := by
  obtain ⟨text, field, admits⟩ := h.get? proper mem
  rw [key?, field, Option.bind_some]
  exact Column.isSome_int32?_of_admits int admits

/-- Setting a field to an admitted text. -/
theorem Typed.set (h : Typed s r) (proper : s.Proper) {c : Column} (mem : c ∈ s.columns)
    {text : String} (admits : c.Admits text) : Typed s (r.set c.position text) := by
  rw [Typed, List.forall₂_iff_get] at h ⊢
  refine ⟨by simpa [Record.set] using h.1, fun i below inside => ?_⟩
  have place := proper.getElem?_position mem
  simp only [Record.set, List.get_eq_getElem, List.getElem_set]
  by_cases here : c.position = i
  · rw [if_pos here]
    rw [here, List.getElem?_eq_getElem below, Option.some.injEq] at place
    rwa [place]
  · rw [if_neg here]
    exact h.2 i below (by simpa [Record.set] using inside)

end Record

namespace Statement

/-- The texts stored for checked values are admitted by their columns. -/
theorem forall₂_admits_of_storedRow {table : String} {columns : List Column} {values : List Expr}
    (length : columns.length = values.length) {texts : List String}
    (h : storedRow table columns values = .ok texts) : List.Forall₂ Column.Admits columns
      texts := by
  induction columns generalizing values texts with
  | nil =>
      cases values with
      | nil =>
          cases h
          exact .nil
      | cons value values => cases length
  | cons column columns ih =>
      cases values with
      | nil => cases length
      | cons value values =>
          obtain ⟨text, stored, rest⟩ := Result.bind_eq_ok.1 h
          obtain ⟨others, more, made⟩ := Result.bind_eq_ok.1 rest
          cases made
          exact .cons (Column.admits_of_storedValue stored) (ih (Nat.succ.inj length) more)

/-- A checked row holds the texts stored for its values, one for each column. -/
theorem storedRow_of_recordOf {d : Definition} {columns : Option (List String)} {values : List Expr}
    {record : Record} (h : recordOf d columns values = .ok record) :
    d.schema.arity = values.length ∧
      ∃ texts, storedRow d.name d.schema.columns values = .ok texts ∧ record = ⟨texts⟩ := by
  rw [recordOf] at h
  dsimp only at h
  split at h
  · cases h
  split at h
  · cases h
  split at h
  · cases h
  · next enough notMore =>
    obtain ⟨texts, stored, made⟩ := Result.bind_eq_ok.1 h
    cases made
    have length : d.schema.arity = values.length :=
      Nat.le_antisymm (Nat.not_lt.1 enough) (Nat.not_lt.1 notMore)
    exact ⟨length, texts, stored, rfl⟩

/-- So it is typed. -/
theorem typed_of_recordOf {d : Definition} {columns : Option (List String)} {values : List Expr}
    {record : Record} (h : recordOf d columns values = .ok record) : record.Typed d.schema := by
  obtain ⟨length, texts, stored, rfl⟩ := storedRow_of_recordOf h
  exact forall₂_admits_of_storedRow length stored

end Statement

end FlatDB
