/-
# Well-formed schemas

A schema made from checked declarations has columns with different names, each
an identifier, and every column knows its own place.  The columns are exactly
the declared ones in the declared order, so looking a column up by its name and
picking a field by the column's position are two ways to the same value.
-/

import FlatDB.Proofs.Result
import FlatDB.Proofs.Text.Numerals
import FlatDB.Schema.Definition

namespace FlatDB

/-! ## Identifiers -/

namespace Identifier

/-- An identifier holds no character that cannot occur in one. -/
theorem not_mem_of_isValid {name : String} (h : isValid name = true) {c : Char}
    (hc : isIdentifierChar c = false) : c ∉ name.toList := by
  intro mem
  have all : name.toList.all isIdentifierChar = true := (Bool.and_eq_true_iff.1 h).2
  simp [List.all_eq_true.1 all c mem] at hc

theorem toList_ne_nil_of_isValid {name : String} (h : isValid name = true) : name.toList ≠ [] := by
  have nonempty := (Bool.and_eq_true_iff.1 h).1
  intro e
  simp [e] at nonempty

/-- The characters of identifiers by their numbers. -/
theorem range_of_isIdentifierChar {c : Char} (h : isIdentifierChar c = true) :
    (65 ≤ c.toNat ∧ c.toNat ≤ 90 ∨ 97 ≤ c.toNat ∧ c.toNat ≤ 122) ∨
      48 ≤ c.toNat ∧ c.toNat ≤ 57 ∨ c.toNat = 95 := by
  have ranges : (((decide (65 ≤ c.val ∧ c.val ≤ 90) ||
      decide (97 ≤ c.val) && decide (c.val ≤ 122)) ||
      decide (48 ≤ c.val) && decide (c.val ≤ 57)) || c == '_') = true := h
  simp only [Bool.or_eq_true, Bool.and_eq_true, decide_eq_true_eq, beq_iff_eq,
    UInt32.le_iff_toNat_le] at ranges
  rcases ranges with ((h | h) | h) | rfl
  · exact .inl (.inl h)
  · exact .inl (.inr h)
  · exact .inr (.inl h)
  · exact .inr (.inr rfl)

/-- A character of an identifier is not a blank. -/
theorem isBlank_of_isIdentifierChar {c : Char} (h : isIdentifierChar c = true) :
    Blank.isBlank c = false := by
  have range := range_of_isIdentifierChar h
  simp only [Blank.isBlank, Bool.or_eq_false_iff, Bool.and_eq_false_iff, decide_eq_false_iff_not,
    beq_eq_false_iff_ne]
  omega

/-- There is nothing to trim from an identifier. -/
theorem trim_of_isValid {name : String} (h : isValid name = true) : Blank.trim name = name := by
  have all : name.toList.all isIdentifierChar = true := (Bool.and_eq_true_iff.1 h).2
  exact Blank.trim_of_forall_not_isBlank fun c mem =>
    isBlank_of_isIdentifierChar (List.all_eq_true.1 all c mem)

theorem check_eq_ok {name : String} : check name = .ok () ↔ isValid name = true := by
  rw [check]
  split <;> simp_all

end Identifier

/-! ## Schemas -/

namespace Schema

/-- Columns with different names, all of them identifiers, and each at the
position it says. -/
structure Proper (s : Schema) : Prop where
  /-- No two columns have one name. -/
  distinct : s.columnNames.Nodup
  /-- Every name is an identifier. -/
  valid : ∀ c ∈ s.columns, Identifier.isValid c.name = true
  /-- Every column knows its place. -/
  positioned : ∀ {i : Nat} {c : Column}, s.columns[i]? = some c → c.position = i

theorem proper_empty : Proper empty :=
  ⟨List.nodup_nil, by simp [empty], by simp [empty]⟩

theorem hasColumn_eq_true_iff {s : Schema} {name : String} :
    s.hasColumn name = true ↔ name ∈ s.columnNames := by
  simp [hasColumn, columnNames]

/-- A column with a new name goes to the end. -/
theorem columns_add_of_new {s : Schema} {d : Declaration} (h : s.hasColumn d.name = false) :
    (s.add d).columns = s.columns ++ [{ d with position := s.arity }] := by
  simp [add, h]

/-- Adding a column with a new name keeps a schema well formed. -/
theorem Proper.add {s : Schema} (h : s.Proper) {d : Declaration}
    (valid : Identifier.isValid d.name = true) (new : s.hasColumn d.name = false) :
    (s.add d).Proper := by
  have unnamed : d.name ∉ s.columnNames := by
    rw [← hasColumn_eq_true_iff, new]
    exact Bool.false_ne_true
  refine ⟨?_, ?_, ?_⟩
  · rw [columnNames, columns_add_of_new new, List.map_append, List.nodup_append]
    refine ⟨h.distinct, by simp, ?_⟩
    intro a ha b hb e
    simp only [List.map_cons, List.map_nil, List.mem_singleton] at hb
    exact unnamed (hb ▸ e ▸ ha)
  · rw [columns_add_of_new new]
    intro c mem
    rcases List.mem_append.1 mem with mem | mem
    · exact h.valid c mem
    · rw [List.mem_singleton.1 mem]
      exact valid
  · rw [columns_add_of_new new]
    intro i c place
    rcases Nat.lt_trichotomy i s.columns.length with below | rfl | beyond
    · rw [List.getElem?_append_left below] at place
      exact h.positioned place
    · simp only [List.getElem?_concat_length, Option.some.injEq] at place
      rw [← place, arity]
    · rw [List.getElem?_eq_none (by simpa using Nat.succ_le_of_lt beyond)] at place
      cases place

/-- Checked declarations make a well-formed schema. -/
theorem Proper.foldlM_addChecked {table : String} {ds : List Declaration} {s s' : Schema}
    (h : s.Proper) (made : ds.foldlM (addChecked table) s = .ok s') : s'.Proper := by
  induction ds generalizing s with
  | nil =>
      cases made
      exact h
  | cons d ds ih =>
      obtain ⟨next, added, made⟩ := Result.bind_eq_ok.1 made
      obtain ⟨_, checked, added⟩ := Result.bind_eq_ok.1 added
      cases new : s.hasColumn d.name with
      | true => simp [new] at added
      | false =>
          simp only [new, Bool.false_eq_true, if_false] at added
          cases added
          exact ih (h.add (Identifier.check_eq_ok.1 checked) new) made

/-- A schema of checked declarations is well formed. -/
theorem Proper.of_ofDeclarations? {table : String} {ds : List Declaration} {s : Schema}
    (h : ofDeclarations? table ds = .ok s) : s.Proper := by
  rw [ofDeclarations?] at h
  split at h
  · cases h
  · exact proper_empty.foldlM_addChecked h

variable {s : Schema}

/-- Among columns with different names each is found by its name. -/
theorem find?_name {columns : List Column} (distinct : (columns.map fun c => c.name).Nodup)
    {c : Column} (mem : c ∈ columns) : (columns.find? fun other => other.name == c.name) =
      some c := by
  induction columns with
  | nil => cases mem
  | cons a columns ih =>
      rw [List.map_cons, List.nodup_cons] at distinct
      rcases List.mem_cons.1 mem with rfl | mem
      · simp
      · have other : a.name ≠ c.name := fun e =>
          distinct.1 (e ▸ List.mem_map_of_mem (f := fun c : Column => c.name) mem)
        rw [List.find?_cons_of_neg (by simpa using other)]
        exact ih distinct.2 mem

/-- Looking a column up by its name finds it. -/
theorem Proper.column?_name (h : s.Proper) {c : Column} (mem : c ∈ s.columns) :
    s.column? c.name = some c :=
  find?_name h.distinct mem

theorem mem_of_column? {name : String} {c : Column} (h : s.column? name = some c) :
    c ∈ s.columns :=
  List.mem_of_find?_eq_some h

theorem name_of_column? {name : String} {c : Column} (h : s.column? name = some c) :
    c.name = name := by
  simpa using List.find?_some h

/-- Two columns of one name are one. -/
theorem Proper.eq_of_name_eq (h : s.Proper) {c c' : Column} (mem : c ∈ s.columns)
    (mem' : c' ∈ s.columns) (e : c.name = c'.name) : c = c' := by
  have found := h.column?_name mem
  rw [e, h.column?_name mem'] at found
  exact (Option.some.inj found).symm

/-- Every column is at its place. -/
theorem Proper.getElem?_position (h : s.Proper) {c : Column} (mem : c ∈ s.columns) :
    s.columns[c.position]? = some c := by
  obtain ⟨i, place⟩ := List.mem_iff_getElem?.1 mem
  rw [h.positioned place, place]

/-- A column's place is below the number of columns. -/
theorem Proper.position_lt (h : s.Proper) {c : Column} (mem : c ∈ s.columns) :
    c.position < s.arity :=
  (List.getElem?_eq_some_iff.1 (h.getElem?_position mem)).1

/-- Two columns in one place are one. -/
theorem Proper.eq_of_position_eq (h : s.Proper) {c c' : Column} (mem : c ∈ s.columns)
    (mem' : c' ∈ s.columns) (e : c.position = c'.position) : c = c' := by
  have place := h.getElem?_position mem
  rw [e, h.getElem?_position mem'] at place
  exact (Option.some.inj place).symm

end Schema

/-- Only columns of the table are found. -/
theorem Definition.column_eq_ok {d : Definition} {name : String} {c : Column} :
    d.column name = .ok c ↔ d.schema.column? name = some c := by
  rw [Definition.column]
  cases d.schema.column? name with
  | none => simp
  | some column => simp

end FlatDB
