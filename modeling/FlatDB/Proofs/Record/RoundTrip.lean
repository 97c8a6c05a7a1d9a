/-
# Records that are written are read back

A data file is the lines of its records, and reading it yields exactly these
records, in the same order and without an error, whatever text their fields
hold.  Escaping is what makes this work: the written form of a field has neither
a tab nor a line ending, so the separators of a line are the only ones in it.

The counter beside the records is read back too.
-/

import FlatDB.Proofs.Result
import FlatDB.Proofs.Text.Lines
import FlatDB.Proofs.Text.Numerals
import FlatDB.Record.File

namespace FlatDB

namespace Field

/-- The written form of a field holds none of the characters that structure a
data file. -/
theorem not_mem_escape {c : Char} (hc : c = '\t' ∨ c = '\n' ∨ c = '\r') (cs : List Char) :
    c ∉ escape cs := by
  intro mem
  obtain ⟨a, _, ha⟩ := List.mem_flatMap.1 mem
  rw [escapeChar] at ha
  rcases hc with rfl | rfl | rfl <;> grind

end Field

namespace Record

/-! ## One line -/

/-- What stands on the line of a record before its newline. -/
def lineBody (id : RecordId) (r : Record) : String :=
  String.ofList ((Numeral.ofUInt64 id).toList ++
    r.fields.flatMap fun field => '\t' :: Field.escape field.toList)

theorem line_eq (id : RecordId) (r : Record) : r.line id = r.lineBody id ++ "\n" := by
  apply String.toList_injective
  simp [line, lineBody]

theorem toList_lineBody (id : RecordId) (r : Record) :
    (r.lineBody id).toList = (Numeral.ofUInt64 id).toList ++
      r.fields.flatMap fun field => '\t' :: Field.escape field.toList := by
  simp [lineBody]

/-- The id of a record and the tabs are all there is on a line besides what the
fields are written as. -/
theorem not_mem_lineBody {c : Char} (hc : c = '\n' ∨ c = '\r') (id : RecordId) (r : Record) :
    c ∉ (r.lineBody id).toList := by
  rw [toList_lineBody, List.mem_append, List.mem_flatMap]
  rintro (mem | ⟨field, _, mem⟩)
  · exact Numeral.not_mem_ofUInt64 (by rcases hc with rfl | rfl <;> decide) mem
  · rcases List.mem_cons.1 mem with rfl | mem
    · rcases hc with h | h <;> cases h
    · exact Field.not_mem_escape (.inr hc) _ mem

theorem isLine_lineBody (id : RecordId) (r : Record) : Source.IsLine (r.lineBody id) :=
  ⟨not_mem_lineBody (.inl rfl) id r,
    fun h => not_mem_lineBody (.inr rfl) id r (List.mem_of_getLast? h)⟩

/-- No line of a record is empty: it has an id. -/
theorem isEmpty_lineBody (id : RecordId) (r : Record) : (r.lineBody id).isEmpty = false := by
  rw [Bool.eq_false_iff]
  intro empty
  have : (r.lineBody id).toList = [] := by simp [String.isEmpty_iff.1 empty]
  rw [toList_lineBody] at this
  have digits : Nat.toDigits 10 id.toNat = [] := by
    simpa only [Numeral.ofUInt64, Numeral.toList_ofNat] using (List.append_eq_nil_iff.1 this).1
  exact Nat.toDigits_ne_nil digits

/-- Splitting at tabs separates what was put on the line. -/
theorem pieces_fields {front : List Char} (h : '\t' ∉ front) (fields : List String) :
    Split.pieces '\t' (front ++ fields.flatMap fun field => '\t' :: Field.escape field.toList) =
      front :: fields.map fun field => Field.escape field.toList := by
  induction fields generalizing front with
  | nil => simp [Split.pieces_of_not_mem h]
  | cons field fields ih =>
      rw [List.flatMap_cons, List.cons_append, Split.pieces_append_cons h, List.map_cons,
        ih (Field.not_mem_escape (.inl rfl) _)]

theorem pieces_lineBody (id : RecordId) (r : Record) :
    Split.pieces '\t' (r.lineBody id).toList =
      (Numeral.ofUInt64 id).toList :: r.fields.map fun field => Field.escape field.toList := by
  rw [toList_lineBody, pieces_fields (Numeral.not_mem_ofUInt64 (by decide))]

theorem parseId_ofUInt64 (id : RecordId) : parseId (Numeral.ofUInt64 id).toList = .ok id := by
  simp [parseId]

/-- The fields of a line are the texts they were written for. -/
theorem mapM_parseField (fields : List String) :
    (fields.map fun field => Field.escape field.toList).mapM parseField = .ok fields := by
  induction fields with
  | nil => rfl
  | cons field fields ih =>
      simp [ih, parseField]

/-- Only the id is needed to know whose line it is. -/
@[simp]
theorem idOfLine_lineBody (id : RecordId) (r : Record) : idOfLine (r.lineBody id) = .ok id := by
  simp [idOfLine, pieces_lineBody, parseId_ofUInt64]

/-- A record is read back from its line. -/
@[simp]
theorem ofLine_lineBody (id : RecordId) (r : Record) : ofLine (r.lineBody id) = .ok (id, r) := by
  simp only [ofLine, pieces_lineBody, List.headD_cons, List.tail_cons, parseId_ofUInt64,
    mapM_parseField]
  rfl

theorem ofLineWithArity_eq_ok {arity : Nat} {line : String} {s : RecordId × Record} :
    ofLineWithArity arity line = .ok s ↔ ofLine line = .ok s ∧ s.2.arity = arity := by
  rw [ofLineWithArity, Result.bind_eq_ok]
  constructor
  · rintro ⟨⟨id, r⟩, read, h⟩
    dsimp only at h
    split at h
    · next fits =>
      cases h
      exact ⟨read, fits⟩
    · cases h
  · rintro ⟨read, fits⟩
    exact ⟨s, read, if_pos fits⟩

/-- A record is read back where records have as many fields as it has. -/
theorem ofLineWithArity_lineBody (id : RecordId) (r : Record) :
    ofLineWithArity r.arity (r.lineBody id) = .ok (id, r) := by
  simp [ofLineWithArity]

end Record

/-! ## A whole file -/

namespace Entries

theorem text_cons (s : Stored) (stored : List Stored) :
    text (s :: stored) = s.2.lineBody s.1 ++ "\n" ++ text stored := by
  simp [text, Record.line_eq]

theorem text_singleton (s : Stored) : text [s] = s.2.line s.1 := by
  simp [text]

theorem text_append (front back : List Stored) :
    text (front ++ back) = text front ++ text back := by
  simp [text, String.join_append]

/-- The lines of a data file are those of its records. -/
theorem lines_text (stored : List Stored) :
    (Source.content (Utf8.encode (text stored))).lines =
      stored.map fun s => .ok (s.2.lineBody s.1) := by
  induction stored with
  | nil => rfl
  | cons s stored ih =>
      rw [text_cons, Source.lines_encode_append (Record.isLine_lineBody s.1 s.2), ih, List.map_cons]

variable {table : String} {arity : Nat}

theorem ofLines_lineBody {stored : List Stored} (h : ∀ s ∈ stored, s.2.arity = arity)
    (number : Nat) :
    ofLines table arity number (stored.map fun s => .ok (s.2.lineBody s.1)) =
      stored.map .ok := by
  induction stored generalizing number with
  | nil => rfl
  | cons s stored ih =>
      have fits : s.2.arity = arity := h s List.mem_cons_self
      simp only [List.map_cons, ofLines, Record.isEmpty_lineBody, ← fits,
        Record.ofLineWithArity_lineBody, atLine]
      rw [fits, ih fun s' mem => h s' (List.mem_cons_of_mem s mem)]
      simp

theorem atLine_eq_ok {α : Type} {number : Nat} {read : Except RecordDamage α} {a : α}
    (h : atLine table number read = .ok a) : read = .ok a := by
  cases read <;> cases h
  rfl

/-- What is read as a record has as many fields as there are columns. -/
theorem arity_of_mem_ofLines {lines : List (Except Fault String)} {number : Nat} {r : Stored}
    (mem : .ok r ∈ ofLines table arity number lines) : r.2.arity = arity := by
  induction lines generalizing number with
  | nil => cases mem
  | cons line lines ih =>
      cases line with
      | error fault => cases List.mem_singleton.1 mem
      | ok line =>
          rw [ofLines] at mem
          split at mem
          · exact ih mem
          · rcases List.mem_cons.1 mem with first | later
            · exact (Record.ofLineWithArity_eq_ok.1 (atLine_eq_ok first.symm)).2
            · exact ih later

/-- Reading a data file yields the records it was written for. -/
theorem ofSource_text {stored : List Stored} (h : ∀ s ∈ stored, s.2.arity = arity) :
    ofSource table arity (.content (Utf8.encode (text stored))) = stored.map .ok := by
  rw [ofSource, lines_text, ofLines_lineBody h]

/-- Only records that were written are read, whatever their arity. -/
theorem mem_of_ok_mem_ofSource_text {stored : List Stored} {r : Stored}
    (mem : .ok r ∈ ofSource table arity (.content (Utf8.encode (text stored)))) : r ∈ stored := by
  rw [ofSource, lines_text] at mem
  generalize 1 = number at mem
  induction stored generalizing number with
  | nil => cases mem
  | cons s stored ih =>
      simp only [List.map_cons, ofLines, Record.isEmpty_lineBody, Bool.false_eq_true, if_false,
        List.mem_cons] at mem
      rcases mem with first | later
      · by_cases fits : s.2.arity = arity
        · rw [← fits, Record.ofLineWithArity_lineBody, atLine] at first
          exact List.mem_cons.2 (.inl (Except.ok.inj first))
        · simp [Record.ofLineWithArity, fits, atLine] at first
      · exact List.mem_cons_of_mem s (ih _ later)

@[simp]
theorem all_map_ok (stored : List Stored) : all (stored.map .ok) = .ok stored := by
  induction stored with
  | nil => rfl
  | cons s stored ih =>
      simp [all, ih]

/-- Counting lines counts records. -/
theorem count_text (stored : List Stored) :
    count (Source.content (Utf8.encode (text stored))).lines = .ok stored.length := by
  rw [lines_text]
  induction stored with
  | nil => rfl
  | cons s stored ih =>
      simp [count, ih, Record.isEmpty_lineBody]
      omega

end Entries

/-! ## The counter -/

/-- A counter is read back from its numeral. -/
@[simp]
theorem RecordFile.counterOfText_ofUInt64 (table : String) (id : RecordId) :
    counterOfText table (Numeral.ofUInt64 id) = .ok id := by
  have trimmed : Blank.trim (Numeral.ofUInt64 id) = Numeral.ofUInt64 id :=
    Numeral.trim_ofNat id.toNat
  unfold counterOfText
  rw [trimmed, Numeral.uint64?_ofUInt64]

end FlatDB
