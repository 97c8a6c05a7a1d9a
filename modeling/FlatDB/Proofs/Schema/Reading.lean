/-
# What is read from a header

A header announces how many columns there are and declares each of them on a line
of its own.  What is read is the schema of these declarations, and nothing checks
them: their names need not be identifiers, and not even different.

If the names are different, what is read is as good as what was once written: a
column for every declaration, each at its own place, and the same definition when it
is written and read again.  If a name is repeated, none of the three holds.
-/

import FlatDB.Proofs.Schema.RoundTrip

namespace FlatDB

namespace Split

variable {α : Type} [DecidableEq α]

/-- The pieces hold nothing that the whole does not. -/
theorem mem_of_mem_pieces {sep x : α} {xs piece : List α} (h : piece ∈ pieces sep xs)
    (mem : x ∈ piece) : x ∈ xs := by
  induction xs generalizing piece with
  | nil =>
      rw [pieces_nil, List.mem_singleton] at h
      exact h ▸ mem
  | cons y ys ih =>
      unfold pieces at h
      split at h
      · rcases List.mem_cons.1 h with rfl | h
        · cases mem
        · exact List.mem_cons_of_mem y (ih h mem)
      · cases cut : pieces sep ys with
        | nil => exact absurd cut (pieces_ne_nil sep ys)
        | cons first more =>
            rw [cut, List.modifyHead_cons] at h
            rcases List.mem_cons.1 h with rfl | h
            · rcases List.mem_cons.1 mem with rfl | mem
              · exact List.mem_cons_self
              · exact List.mem_cons_of_mem y (ih (cut ▸ List.mem_cons_self) mem)
            · exact List.mem_cons_of_mem y (ih (cut ▸ List.mem_cons_of_mem first h) mem)

end Split

namespace Schema

/-- Every column was declared. -/
theorem toDeclaration_mem_of_mem_ofDeclarations {ds : List Declaration} {c : Column}
    (h : c ∈ (ofDeclarations ds).columns) : c.toDeclaration ∈ ds := by
  induction ds using List.reverseRecOn generalizing c with
  | nil => cases h
  | append_singleton ds d ih =>
      rw [ofDeclarations_append_singleton] at h
      unfold add at h
      rw [List.mem_append, List.mem_singleton]
      split at h
      · obtain ⟨old, mem, rfl⟩ := List.mem_map.1 h
        split
        · exact .inr rfl
        · exact .inl (ih mem)
      · rcases List.mem_append.1 h with mem | mem
        · exact .inl (ih mem)
        · exact .inr (by rw [List.mem_singleton.1 mem])

end Schema

namespace Header

/-! ## Fields -/

/-- A field of a line without newline can be a name. -/
theorem isName_of_mem_fields {line field : String} (whole : '\n' ∉ line.toList)
    (h : field ∈ fields line) : IsName field := by
  obtain ⟨piece, mem, rfl⟩ := List.mem_map.1 h
  rw [IsName, String.toList_ofList]
  exact ⟨Split.not_mem_of_mem_pieces mem,
    fun newline => whole (Split.mem_of_mem_pieces mem newline)⟩

/-- A number that is read is below the bound. -/
theorem lt_of_number {bound n : Nat} {field text : String} (h : number bound field text = .ok n) :
    n < bound := by
  unfold number at h
  split at h
  · next n' read =>
      cases h
      unfold Numeral.natBelow? at read
      simpa using (Option.filter_eq_some_iff.1 read).2
  · cases h

theorem length_of_ofTag? {tag length : Nat} {type : ColumnType}
    (h : ColumnType.ofTag? tag length = some type) : type.length ≤ length := by
  unfold ColumnType.ofTag? at h
  split at h
  · cases h; exact Nat.zero_le _
  · cases h; exact Nat.le_refl _
  · cases h; exact Nat.zero_le _
  · cases h

/-- What is known of a column that was read from a line. -/
theorem of_column {line : String} {d : Declaration} (whole : '\n' ∉ line.toList)
    (h : column line = .ok d) : IsName d.name ∧ d.type.length < UInt64.size := by
  unfold column at h
  split at h
  · next name tag length nullable split =>
      obtain ⟨tag, -, h⟩ := Result.bind_eq_ok.1 h
      obtain ⟨length, numbered, h⟩ := Result.bind_eq_ok.1 h
      split at h
      · next type typed =>
          obtain ⟨nullable, -, h⟩ := Result.bind_eq_ok.1 h
          cases h
          exact ⟨isName_of_mem_fields whole (split ▸ List.mem_cons_self),
            Nat.lt_of_le_of_lt (length_of_ofTag? typed) (lt_of_number numbered)⟩
      · cases h
  · cases h

/-! ## Declarations -/

/-- Whether the lines of a header declare these columns of a table of this name and give
this size of a record.  Lines after the announced columns say nothing. -/
def Announces (lines : List (Except Fault String)) (name : String) (ds : List Declaration)
    (size : Nat) : Prop :=
  ∃ first count size' declared rest, lines = .ok first :: (declared.map .ok ++ rest) ∧
    fields first = [name, count, size'] ∧
    number UInt64.size "column count" count = .ok ds.length ∧
    number UInt64.size "record size" size' = .ok size ∧
    List.Forall₂ (fun line d => column line = .ok d) declared ds

/-- The columns that are read are those that the lines declare. -/
theorem columns_eq_ok {missing position : Nat} {s s' : Schema}
    {lines : List (Except Fault String)} :
    columns missing position s lines = .ok s' ↔
      ∃ declared rest ds, lines = declared.map .ok ++ rest ∧ ds.length = missing ∧
        List.Forall₂ (fun line d => column line = .ok d) declared ds ∧
          s' = ds.foldl Schema.add s := by
  constructor
  · intro read
    induction missing generalizing position s lines with
    | zero =>
        refine ⟨[], lines, [], rfl, rfl, .nil, ?_⟩
        simpa [columns] using read.symm
    | succ missing ih =>
        cases lines with
        | nil => cases read
        | cons line lines =>
            cases line with
            | error fault => cases read
            | ok line =>
                obtain ⟨d, one, read⟩ := Result.bind_eq_ok.1 read
                obtain ⟨declared, rest, ds, split, length, all, made⟩ := ih read
                exact ⟨line :: declared, rest, d :: ds, by rw [split]; rfl,
                  congrArg (· + 1) length, .cons one all, made⟩
  · rintro ⟨declared, rest, ds, rfl, rfl, all, rfl⟩
    induction all generalizing position s with
    | nil => simp [columns]
    | cons one all ih =>
        simp only [List.length_cons, List.map_cons, List.cons_append, columns, one, Result.ok_bind,
          List.foldl_cons]
        exact ih

/-- What is read is what the lines announce, made into a schema without any check. -/
theorem parse_eq_ok {name : String} {lines : List (Except Fault String)} {d : Definition} :
    parse name lines = .ok d ↔
      ∃ ds, Announces lines name ds d.recordSize ∧
        d = ⟨name, .ofDeclarations ds, d.recordSize⟩ := by
  constructor
  · intro read
    unfold parse at read
    split at read
    · cases read
    · cases read
    · next first rest =>
        split at read
        · next found count size split =>
            split at read
            · next same =>
                cases inner : (do
                    let count ← number UInt64.size "column count" count
                    let size ← number UInt64.size "record size" size
                    return Definition.mk found (← columns count 0 .empty rest) size :
                      Except HeaderDamage Definition) with
                | error damage =>
                    rw [inner] at read
                    cases read
                | ok made =>
                    rw [inner] at read
                    cases read
                    obtain ⟨n, counted, inner⟩ := Result.bind_eq_ok.1 inner
                    obtain ⟨m, sized, inner⟩ := Result.bind_eq_ok.1 inner
                    obtain ⟨s, listed, inner⟩ := Result.bind_eq_ok.1 inner
                    cases inner
                    obtain ⟨declared, rest, ds, rfl, rfl, all, rfl⟩ := columns_eq_ok.1 listed
                    subst same
                    exact ⟨ds,
                      ⟨first, count, size, declared, rest, rfl, split, counted, sized, all⟩, rfl⟩
            · cases read
        · cases read
  · rintro ⟨ds, ⟨first, count, size, declared, rest, rfl, split, counted, sized, all⟩, made⟩
    have listed :
        columns ds.length 0 .empty (declared.map .ok ++ rest) = .ok (.ofDeclarations ds) :=
      columns_eq_ok.2 ⟨declared, rest, ds, rfl, rfl, all, rfl⟩
    rw [made]
    simp only [parse, split, if_true, counted, sized, listed, Result.ok_bind]
    rfl

/-- A header is read as that of the table asked for. -/
theorem name_of_parse {name : String} {lines : List (Except Fault String)} {d : Definition}
    (h : parse name lines = .ok d) : d.name = name := by
  obtain ⟨_, -, made⟩ := parse_eq_ok.1 h
  rw [made]

/-- Reading fails in two ways only: the header is damaged, or it is that of another table. -/
theorem parse_eq_error {name : String} {lines : List (Except Fault String)} {e : Error}
    (h : parse name lines = .error e) :
    (∃ damage, e = .unreadableHeader name damage) ∨
      ∃ found, found ≠ name ∧ e = .foreignHeader name found := by
  unfold parse at h
  split at h
  · exact .inl ⟨_, (Except.error.inj h).symm⟩
  · exact .inl ⟨_, (Except.error.inj h).symm⟩
  · split at h
    · split at h
      · unfold ofTable at h
        split at h
        · cases h
        · exact .inl ⟨_, (Except.error.inj h).symm⟩
      · next found _ _ _ other => exact .inr ⟨found, other, (Except.error.inj h).symm⟩
    · exact .inl ⟨_, (Except.error.inj h).symm⟩

/-! ## Writing what was read -/

variable {lines : List (Except Fault String)} {name : String} {ds : List Declaration} {size : Nat}

/-- The declared columns have names that can be written again, and lengths that can be read. -/
theorem Announces.of_mem (h : Announces lines name ds size)
    (whole : ∀ line, .ok line ∈ lines → '\n' ∉ line.toList) {d : Declaration} (mem : d ∈ ds) :
    IsName d.name ∧ d.type.length < UInt64.size := by
  obtain ⟨first, count, size', declared, rest, rfl, -, -, -, all⟩ := h
  obtain ⟨i, below, rfl⟩ := List.mem_iff_getElem.1 mem
  have inside : i < declared.length := all.length_eq ▸ below
  refine of_column (whole declared[i] ?_) (all.get inside below)
  exact List.mem_cons_of_mem _
    (List.mem_append_left _ (List.mem_map_of_mem (List.getElem_mem inside)))

theorem Announces.legible (h : Announces lines name ds size)
    (whole : ∀ line, .ok line ∈ lines → '\n' ∉ line.toList) :
    Legible ⟨name, .ofDeclarations ds, size⟩ := by
  refine ⟨?_, fun c mem =>
    (h.of_mem whole (Schema.toDeclaration_mem_of_mem_ofDeclarations mem)).1⟩
  obtain ⟨first, count, size', declared, rest, rfl, split, -⟩ := h
  exact isName_of_mem_fields (whole first List.mem_cons_self) (split ▸ List.mem_cons_self)

theorem Announces.fits (h : Announces lines name ds size)
    (whole : ∀ line, .ok line ∈ lines → '\n' ∉ line.toList) :
    Fits ⟨name, .ofDeclarations ds, size⟩ := by
  refine ⟨?_, ?_, fun c mem =>
    (h.of_mem whole (Schema.toDeclaration_mem_of_mem_ofDeclarations mem)).2⟩
  · obtain ⟨_, _, _, _, _, _, _, counted, -⟩ := h
    exact Nat.lt_of_le_of_lt (Schema.arity_ofDeclarations_le ds) (lt_of_number counted)
  · obtain ⟨_, _, _, _, _, _, _, -, sized, -⟩ := h
    exact lt_of_number sized

/-- What was read comes back from its own header if and only if no name was repeated. -/
theorem Announces.reread_eq_self_iff (h : Announces lines name ds size)
    (whole : ∀ line, .ok line ∈ lines → '\n' ∉ line.toList) :
    reread ⟨name, .ofDeclarations ds, size⟩ = .ok ⟨name, .ofDeclarations ds, size⟩ ↔
      (ds.map Declaration.name).Nodup := by
  rw [reread_of_legible (h.legible whole) (h.fits whole), Except.ok.injEq,
    Definition.redeclared]
  simp only [Definition.mk.injEq, true_and, and_true]
  constructor
  · intro same
    by_contra repeated
    -- Declared anew, every column knows its place, but one of those that were read does not.
    obtain ⟨i, c, place, beyond⟩ := Schema.exists_displaced_ofDeclarations repeated
    have distinct : (((Schema.ofDeclarations ds).columns.map Column.toDeclaration).map
        Declaration.name).Nodup := by
      rw [List.map_map]
      exact Schema.nodup_columnNames_ofDeclarations ds
    rw [← same] at place
    exact Nat.ne_of_lt beyond (Schema.position_of_ofDeclarations distinct place).symm
  · intro distinct
    exact Schema.ofDeclarations_declarations (Schema.nodup_columnNames_ofDeclarations ds)
      (Schema.position_of_ofDeclarations distinct)

end Header

end FlatDB
