/-
# Headers that are written are read back

What a header tells is the declarations of a table's columns, in their order, so
reading a written header declares the columns anew.  For a well-formed definition
that comes to the same definition, provided its numbers have at most 64 bits.  A
definition with a greater number can be written but not read: reading it is an
error, and never yields another definition.

All that is asked of the names is that they hold no separator of fields and no end
of a line.  That they are different matters only for what is read being the same.
-/

import FlatDB.Proofs.Schema.Declarations
import FlatDB.Proofs.Text.Lines
import FlatDB.Schema.Header

namespace FlatDB

namespace Definition

/-- An identifier as a name, and a well-formed schema. -/
structure Proper (d : Definition) : Prop where
  /-- The name is an identifier. -/
  name : Identifier.isValid d.name = true
  /-- The schema is well formed. -/
  schema : d.schema.Proper

/-- The definition with its columns declared anew, in their order. -/
def redeclared (d : Definition) : Definition :=
  { d with schema := .ofDeclarations (d.schema.columns.map Column.toDeclaration) }

theorem Proper.redeclared_eq {d : Definition} (h : d.Proper) : d.redeclared = d := by
  rw [redeclared, Schema.ofDeclarations_declarations h.schema.distinct h.schema.positioned]

end Definition

namespace Header

/-! ## Fields and lines -/

/-- Whether a text can be a field of a header: it holds neither the separator of
fields nor a line ending. -/
def IsField (text : String) : Prop :=
  '\t' ∉ text.toList ∧ '\n' ∉ text.toList ∧ '\r' ∉ text.toList

/-- Whether a text can be a name in a header.  Other fields always follow a name, so
a carriage return at its end does no harm. -/
def IsName (text : String) : Prop :=
  '\t' ∉ text.toList ∧ '\n' ∉ text.toList

theorem IsField.isName {text : String} (h : IsField text) : IsName text :=
  ⟨h.1, h.2.1⟩

theorem isName_of_isValid {name : String} (h : Identifier.isValid name = true) : IsName name :=
  ⟨Identifier.not_mem_of_isValid h (by decide), Identifier.not_mem_of_isValid h (by decide)⟩

theorem isField_ofNat (n : Nat) : IsField (Numeral.ofNat n) :=
  ⟨Numeral.not_mem_ofNat (by decide), Numeral.not_mem_ofNat (by decide),
    Numeral.not_mem_ofNat (by decide)⟩

theorem isField_flag (b : Bool) : IsField (if b then "1" else "0") := by
  cases b <;> exact ⟨by decide, by decide, by decide⟩

/-- Fields are separated again where they were put together. -/
theorem fields_intercalate {fs : List String} (ne : fs ≠ []) (h : ∀ f ∈ fs, IsName f) :
    fields ("\t".intercalate fs) = fs := by
  induction fs with
  | nil => exact absurd rfl ne
  | cons f fs ih =>
      have first : '\t' ∉ f.toList := (h f List.mem_cons_self).1
      cases fs with
      | nil => simp [fields, Split.pieces_of_not_mem first]
      | cons g gs =>
          have rest := ih (List.cons_ne_nil g gs) fun x mem => h x (List.mem_cons_of_mem f mem)
          have joined : ("\t".intercalate (f :: g :: gs)).toList =
              f.toList ++ '\t' :: ("\t".intercalate (g :: gs)).toList := by
            rw [String.intercalate_cons_cons]
            simp
          unfold fields at rest ⊢
          rw [joined, Split.pieces_append_cons first, List.map_cons, rest, String.ofList_toList]

theorem mem_intercalate {fs : List String} {c : Char}
    (h : c ∈ ("\t".intercalate fs).toList) : c = '\t' ∨ ∃ f ∈ fs, c ∈ f.toList := by
  induction fs with
  | nil => simp at h
  | cons f fs ih =>
      cases fs with
      | nil => exact .inr ⟨f, List.mem_cons_self, by simpa using h⟩
      | cons g gs =>
          rw [String.intercalate_cons_cons] at h
          simp only [String.toList_append, List.mem_append] at h
          rcases h with (h | h) | h
          · exact .inr ⟨f, List.mem_cons_self, h⟩
          · exact .inl (by simpa using h)
          · rcases ih h with h | ⟨x, mem, h⟩
            · exact .inl h
            · exact .inr ⟨x, List.mem_cons_of_mem f mem, h⟩

/-- Fields end with the last of them. -/
theorem getLast?_intercalate {fs : List String} {c : Char}
    (h : ("\t".intercalate fs).toList.getLast? = some c) :
    c = '\t' ∨ ∃ f, fs.getLast? = some f ∧ c ∈ f.toList := by
  induction fs with
  | nil => simp at h
  | cons f fs ih =>
      cases fs with
      | nil => exact .inr ⟨f, rfl, List.mem_of_getLast? (by simpa using h)⟩
      | cons g gs =>
          rw [String.intercalate_cons_cons, String.toList_append, String.toList_append,
            List.getLast?_append] at h
          cases rest : ("\t".intercalate (g :: gs)).toList.getLast? with
          | none =>
              rw [rest] at h
              exact .inl (by simpa using h.symm)
          | some last =>
              rw [rest, Option.some_or] at h
              exact ih (rest.trans h)

/-- Fields make a line if the last of them holds no carriage return. -/
theorem isLine_intercalate {fs : List String} (h : ∀ f ∈ fs, IsName f)
    (last : ∀ f, fs.getLast? = some f → IsField f) : Source.IsLine ("\t".intercalate fs) := by
  constructor
  · intro mem
    rcases mem_intercalate mem with e | ⟨f, hf, mem⟩
    · cases e
    · exact (h f hf).2 mem
  · intro ending
    rcases getLast?_intercalate ending with e | ⟨f, hf, mem⟩
    · cases e
    · exact (last f hf).2.2 mem

/-! ## Columns -/

/-- The fields on the line of a column. -/
def columnFields (c : Column) : List String :=
  [c.name, Numeral.ofNat c.type.tag, Numeral.ofNat c.type.length, if c.nullable then "1" else "0"]

theorem isName_columnFields {c : Column} (h : IsName c.name) : ∀ f ∈ columnFields c, IsName f := by
  intro f mem
  simp only [columnFields, List.mem_cons, List.not_mem_nil, or_false] at mem
  rcases mem with rfl | rfl | rfl | rfl
  · exact h
  · exact (isField_ofNat _).isName
  · exact (isField_ofNat _).isName
  · exact (isField_flag _).isName

theorem isLine_columnFields {c : Column} (h : IsName c.name) :
    Source.IsLine ("\t".intercalate (columnFields c)) := by
  refine isLine_intercalate (isName_columnFields h) fun f last => ?_
  obtain rfl : (if c.nullable then "1" else "0") = f := by simpa [columnFields] using last
  exact isField_flag _

/-- A number is read back if it is below the bound. -/
theorem number_ofNat (bound : Nat) (field : String) (n : Nat) :
    number bound field (Numeral.ofNat n) =
      if n < bound then .ok n else .error (.notANumber field (Numeral.ofNat n)) := by
  unfold number
  rw [Numeral.trim_ofNat, Numeral.natBelow?_ofNat]
  by_cases below : n < bound
  · simp [below]
  · simp [below]

theorem flag_ite (b : Bool) : flag (if b then "1" else "0") = .ok b := by
  cases b <;> rfl

/-- A column is read back from its line if its length has at most 64 bits. -/
theorem column_columnFields {c : Column} (h : IsName c.name) :
    column ("\t".intercalate (columnFields c)) =
      if c.type.length < UInt64.size then .ok c.toDeclaration
      else .error (.notANumber "column length" (Numeral.ofNat c.type.length)) := by
  have tag : c.type.tag < UInt8.size := by cases c.type <;> simp [ColumnType.tag, UInt8.size]
  unfold column
  rw [fields_intercalate (by simp [columnFields]) (isName_columnFields h)]
  simp only [columnFields, number_ofNat, if_pos tag, Result.ok_bind]
  split
  · simp [flag_ite]
  · rfl

/-- The lines of columns declare these columns, or one of them is damaged. -/
theorem columns_columnFields {back : List Column} (h : ∀ c ∈ back, IsName c.name)
    (position : Nat) (s : Schema) :
    columns back.length position s (back.map fun c => .ok ("\t".intercalate (columnFields c))) =
      match back.find? fun c => UInt64.size ≤ c.type.length with
      | none => .ok ((back.map Column.toDeclaration).foldl Schema.add s)
      | some c => .error (.notANumber "column length" (Numeral.ofNat c.type.length)) := by
  induction back generalizing s position with
  | nil => simp [columns]
  | cons c back ih =>
      simp only [List.length_cons, List.map_cons, columns,
        column_columnFields (h c List.mem_cons_self)]
      by_cases fits : c.type.length < UInt64.size
      · rw [if_pos fits, Result.ok_bind, List.find?_cons_of_neg (by simpa using fits),
          List.foldl_cons]
        exact ih (fun c' mem => h c' (List.mem_cons_of_mem c mem)) (position + 1) _
      · rw [if_neg fits, List.find?_cons_of_pos (by simpa using fits)]
        rfl

/-! ## Headers -/

/-- Whether the names of a definition can be names in a header. -/
structure Legible (d : Definition) : Prop where
  /-- The name of the table. -/
  name : IsName d.name
  /-- The names of the columns. -/
  columns : ∀ c ∈ d.schema.columns, IsName c.name

theorem legible_of_proper {d : Definition} (h : d.Proper) : Legible d :=
  ⟨isName_of_isValid h.name, fun c mem => isName_of_isValid (h.schema.valid c mem)⟩

/-- The fields on the first line of a header. -/
def headerFields (d : Definition) : List String :=
  [d.name, Numeral.ofNat d.schema.arity, Numeral.ofNat d.recordSize]

theorem isName_headerFields {d : Definition} (h : Legible d) : ∀ f ∈ headerFields d, IsName f := by
  intro f mem
  simp only [headerFields, List.mem_cons, List.not_mem_nil, or_false] at mem
  rcases mem with rfl | rfl | rfl
  · exact h.name
  · exact (isField_ofNat _).isName
  · exact (isField_ofNat _).isName

theorem isLine_headerFields {d : Definition} (h : Legible d) :
    Source.IsLine ("\t".intercalate (headerFields d)) := by
  refine isLine_intercalate (isName_headerFields h) fun f last => ?_
  obtain rfl : Numeral.ofNat d.recordSize = f := by simpa [headerFields] using last
  exact isField_ofNat _

/-- The lines of a header: one for the table and one for each column. -/
theorem lines_ofDef {d : Definition} (h : Legible d) :
    (Source.content (Utf8.encode (ofDef d))).lines =
      .ok ("\t".intercalate (headerFields d)) ::
        d.schema.columns.map fun c => .ok ("\t".intercalate (columnFields c)) := by
  have rest : ∀ l ∈ d.schema.columns.map fun c => "\t".intercalate (columnFields c),
      Source.IsLine l := by
    intro l mem
    obtain ⟨c, hc, rfl⟩ := List.mem_map.1 mem
    exact isLine_columnFields (h.columns c hc)
  have columns := Source.lines_encode_join rest
  rw [List.map_map, List.map_map] at columns
  rw [ofDef, line, ← headerFields, Source.lines_encode_append (isLine_headerFields h)]
  exact congrArg _ columns

/-- Whether all numbers of a definition have at most 64 bits. -/
def Fits (d : Definition) : Prop :=
  d.schema.arity < UInt64.size ∧ d.recordSize < UInt64.size ∧
    ∀ c ∈ d.schema.columns, c.type.length < UInt64.size

instance (d : Definition) : Decidable (Fits d) :=
  inferInstanceAs (Decidable (_ ∧ _ ∧ _))

/-- What reading the header of a definition under a name comes to. -/
theorem parse_ofDef {d : Definition} (h : Legible d) (name : String) :
    parse name (Source.content (Utf8.encode (ofDef d))).lines =
      if d.name = name then ofTable name (do
        let count ← number UInt64.size "column count" (Numeral.ofNat d.schema.arity)
        let size ← number UInt64.size "record size" (Numeral.ofNat d.recordSize)
        let schema ← columns count 0 .empty
          (d.schema.columns.map fun c => .ok ("\t".intercalate (columnFields c)))
        return ⟨d.name, schema, size⟩)
      else .error (.foreignHeader name d.name) := by
  have first : fields ("\t".intercalate (headerFields d)) = headerFields d :=
    fields_intercalate (by simp [headerFields]) (isName_headerFields h)
  rw [lines_ofDef h]
  simp only [parse, first]
  rfl

/-- What reading the header of a definition comes to. -/
def reread (d : Definition) : Except Error Definition :=
  parse d.name (Source.content (Utf8.encode (ofDef d))).lines

/-- Reading the header of a definition whose numbers fit declares its columns anew. -/
theorem reread_of_legible {d : Definition} (h : Legible d) (fits : Fits d) :
    reread d = .ok d.redeclared := by
  obtain ⟨arity, size, lengths⟩ := fits
  have none : (d.schema.columns.find? fun c => decide (UInt64.size ≤ c.type.length)) = none :=
    List.find?_eq_none.2 fun c mem => by simpa using lengths c mem
  have read := columns_columnFields h.columns 0 .empty
  simp only [none] at read
  rw [reread, parse_ofDef h, if_pos rfl, number_ofNat, if_pos arity, number_ofNat, if_pos size,
    Result.ok_bind, Result.ok_bind, Schema.arity, read]
  rfl

/-- A definition whose numbers fit is read back from its header. -/
theorem reread_of_fits {d : Definition} (h : d.Proper) (fits : Fits d) : reread d = .ok d := by
  rw [reread_of_legible (legible_of_proper h) fits, h.redeclared_eq]

/-- A definition with a number that does not fit cannot be read. -/
theorem reread_of_not_fits {d : Definition} (h : d.Proper) (unfit : ¬ Fits d) :
    ∃ damage, reread d = .error (.unreadableHeader d.name damage) := by
  rw [reread, parse_ofDef (legible_of_proper h), if_pos rfl, number_ofNat, number_ofNat]
  by_cases arity : d.schema.arity < UInt64.size
  · by_cases size : d.recordSize < UInt64.size
    · obtain ⟨c, found⟩ : ∃ c, (d.schema.columns.find? fun c =>
          decide (UInt64.size ≤ c.type.length)) = some c := by
        rw [← Option.isSome_iff_exists, List.find?_isSome]
        simpa [Fits, arity, size] using unfit
      have read := columns_columnFields (legible_of_proper h).columns 0 .empty
      simp only [found] at read
      rw [if_pos arity, if_pos size, Result.ok_bind, Result.ok_bind, Schema.arity, read]
      exact ⟨_, rfl⟩
    · rw [if_pos arity, if_neg size]
      exact ⟨_, rfl⟩
  · rw [if_neg arity]
    exact ⟨_, rfl⟩

/-- A definition is read back from its header if and only if its numbers fit. -/
theorem reread_eq_ok_iff {d : Definition} (h : d.Proper) : reread d = .ok d ↔ Fits d := by
  constructor
  · intro read
    by_contra unfit
    obtain ⟨damage, failed⟩ := reread_of_not_fits h unfit
    rw [failed] at read
    cases read
  · exact reread_of_fits h

end Header

/-! ## Declared tables -/

/-- Declarations of more columns, or of a longer text, than a machine word can count. -/
def Declaration.Oversized (ds : List Declaration) : Prop :=
  UInt64.size ≤ ds.length ∨ ∃ d ∈ ds, UInt64.size ≤ d.type.length

/-- The definition of a table fits its header if and only if its declarations are not
oversized. -/
theorem Header.fits_iff_not_oversized {name : String} {ds : List Declaration} {s : Schema}
    (h : Schema.ofDeclarations? name ds = .ok s) :
    Fits (.ofSchema name s) ↔ ¬ Declaration.Oversized ds := by
  have declared := Schema.declarations_of_ofDeclarations? h
  have arity : s.arity = ds.length := by simp [Schema.arity, ← declared]
  have size : s.recordSize < UInt64.size := Nat.mod_lt _ (by decide)
  have lengths : (∀ c ∈ s.columns, c.type.length < UInt64.size) ↔
      ∀ d ∈ ds, d.type.length < UInt64.size := by
    rw [← declared, List.forall_mem_map]
  have fits : Fits (.ofSchema name s) ↔
      ds.length < UInt64.size ∧ ∀ d ∈ ds, d.type.length < UInt64.size := by
    rw [← arity, ← lengths]
    exact and_congr_right fun _ => and_iff_right size
  rw [fits, Declaration.Oversized, not_or, Nat.not_le]
  exact and_congr_right fun _ => by simp only [not_exists, not_and, Nat.not_le]

/-- What reading the header of a declared table fails with. -/
theorem Header.reread_of_declared {name : String} {ds : List Declaration} {s : Schema} {e : Error}
    (valid : Identifier.check name = .ok ()) (h : Schema.ofDeclarations? name ds = .ok s)
    (failed : reread (.ofSchema name s) = .error e) :
    ∃ damage, e = .unreadableHeader name damage ∧ Declaration.Oversized ds := by
  have proper : (Definition.ofSchema name s).Proper :=
    ⟨Identifier.check_eq_ok.1 valid, .of_ofDeclarations? h⟩
  by_cases small : Declaration.Oversized ds
  · have unfit : ¬ Fits (.ofSchema name s) := fun fits => by
      rw [reread_of_fits proper fits] at failed
      cases failed
    obtain ⟨damage, unread⟩ := reread_of_not_fits proper unfit
    exact ⟨damage, Except.error.inj (failed.symm.trans unread), small⟩
  · rw [reread_of_fits proper ((fits_iff_not_oversized h).2 small)] at failed
    cases failed

end FlatDB
