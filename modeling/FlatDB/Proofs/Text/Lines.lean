/-
# Texts that are written line by line

A text made of lines, each ended by a newline, is cut into the same lines again
once it is a file.  Cutting is done on bytes and writing on characters, so the
passage rests on two facts about UTF-8: an ASCII character is a single byte, and
no byte of any other character is an ASCII byte.  A line that ends in a carriage
return is the one exception, because that would be taken for part of the ending.

A text put after another is read by itself if the other ends in a newline.  If it
does not, the last line of the one goes on with the first line of the other.
-/

import FlatDB.Disk.Source

namespace FlatDB

namespace Utf8

/-! ## Bytes of characters -/

/-- An ASCII character is written as the byte with its number. -/
theorem encodeChar_of_lt {c : Char} (h : c.toNat < 128) :
    String.utf8EncodeChar c = [UInt8.ofNat c.toNat] := by
  simp only [String.utf8EncodeChar, Char.toNat_val]
  exact if_pos (Nat.le_of_lt_succ h)

/-- All bytes of a character that is not ASCII are beyond ASCII. -/
theorem le_of_mem_encodeChar {c : Char} (h : 128 ≤ c.toNat) {b : UInt8}
    (mem : b ∈ String.utf8EncodeChar c) : 128 ≤ b.toNat := by
  have large : ¬ c.val.toNat ≤ 0x7f := Nat.not_le_of_gt h
  simp only [String.utf8EncodeChar, large, if_false] at mem
  split at mem
  · simp only [List.mem_cons, List.not_mem_nil, or_false] at mem
    rcases mem with rfl | rfl <;> simp only [UInt8.toNat_ofNat'] <;> omega
  split at mem
  · simp only [List.mem_cons, List.not_mem_nil, or_false] at mem
    rcases mem with rfl | rfl | rfl <;> simp only [UInt8.toNat_ofNat'] <;> omega
  · simp only [List.mem_cons, List.not_mem_nil, or_false] at mem
    rcases mem with rfl | rfl | rfl | rfl <;> simp only [UInt8.toNat_ofNat'] <;> omega

/-- An ASCII byte among the bytes of a character is that character. -/
theorem eq_of_mem_encodeChar {c a : Char} (ha : a.toNat < 128)
    (mem : UInt8.ofNat a.toNat ∈ String.utf8EncodeChar c) : c = a := by
  have value : (UInt8.ofNat a.toNat).toNat = a.toNat := by
    rw [UInt8.toNat_ofNat']
    omega
  by_cases hc : c.toNat < 128
  · rw [encodeChar_of_lt hc, List.mem_singleton] at mem
    have same : (UInt8.ofNat c.toNat).toNat = c.toNat := by
      rw [UInt8.toNat_ofNat']
      omega
    have numbers : c.toNat = a.toNat := by rw [← value, mem, same]
    exact Char.toNat_inj.1 numbers
  · have beyond := le_of_mem_encodeChar (Nat.le_of_not_lt hc) mem
    omega

/-- An ASCII byte occurs in a text's encoding only if its character occurs in
the text. -/
theorem not_mem_encode {s : String} {a : Char} (ha : a.toNat < 128) (h : a ∉ s.toList) :
    UInt8.ofNat a.toNat ∉ encode s := by
  intro mem
  obtain ⟨c, hc, hb⟩ := List.mem_flatMap.1 mem
  exact h (eq_of_mem_encodeChar ha hb ▸ hc)

/-- The last byte of a text is an ASCII byte only if its last character is that
ASCII character. -/
theorem getLast?_encode_ne {s : String} {a : Char} (ha : a.toNat < 128)
    (h : s.toList.getLast? ≠ some a) : (encode s).getLast? ≠ some (UInt8.ofNat a.toNat) := by
  rw [encode]
  cases hs : s.toList.reverse with
  | nil => simp [List.reverse_eq_nil_iff.1 hs]
  | cons c front =>
      have split : s.toList = front.reverse ++ [c] := by
        rw [← List.reverse_reverse s.toList, hs, List.reverse_cons]
      have last : c ≠ a := by
        intro e
        exact h (by simp [split, e])
      have ending := List.getLast?_eq_some_getLast (String.utf8EncodeChar_ne_nil (c := c))
      intro e
      rw [split, List.flatMap_append, List.flatMap_singleton, List.getLast?_append, ending,
        Option.some_or, ← ending] at e
      exact last (eq_of_mem_encodeChar ha (List.mem_of_getLast? e))

end Utf8

namespace Lines

theorem newline_not_mem_dropReturn {line : Bytes} (h : newline ∉ line) :
    newline ∉ dropReturn line := by
  unfold dropReturn
  split
  · exact fun mem => h (List.dropLast_subset line mem)
  · exact h

/-- No line holds a newline. -/
theorem newline_not_mem_of_mem_ofBytes {bytes line : Bytes} (h : line ∈ ofBytes bytes) :
    newline ∉ line := by
  have none_in_lines : ∀ pieces : List Bytes, (∀ piece ∈ pieces, newline ∉ piece) →
      ∀ line ∈ ofPieces pieces, newline ∉ line := by
    intro pieces
    induction pieces with
    | nil => simp [ofPieces]
    | cons piece pieces ih =>
        intro none line mem
        cases pieces with
        | nil =>
            unfold ofPieces at mem
            split at mem
            · cases mem
            · exact none line mem
        | cons next pieces =>
            rcases List.mem_cons.1 mem with rfl | mem
            · exact newline_not_mem_dropReturn (none piece List.mem_cons_self)
            · exact ih (fun p inside => none p (List.mem_cons_of_mem piece inside)) line mem
  exact none_in_lines _ (fun _ => Split.not_mem_of_mem_pieces) line h

end Lines

namespace Source

/-- A text that is written is read back. -/
@[simp]
theorem text_encode (s : String) : (content (Utf8.encode s)).text = .ok s := by
  rw [text, decode, Utf8.decode?_encode]

/-! ## Lines -/

/-- Whether a text can be written on a line of its own and read back from it. -/
def IsLine (line : String) : Prop :=
  '\n' ∉ line.toList ∧ line.toList.getLast? ≠ some '\r'

/-- A line is read off the front of a file. -/
theorem lines_encode_append {line : String} (h : IsLine line) (rest : String) :
    (content (Utf8.encode (line ++ "\n" ++ rest))).lines =
      .ok line :: (content (Utf8.encode rest)).lines := by
  have newline : Lines.newline ∉ Utf8.encode line := Utf8.not_mem_encode (a := '\n') (by decide) h.1
  have ending : Lines.dropReturn (Utf8.encode line) = Utf8.encode line :=
    if_neg (Utf8.getLast?_encode_ne (a := '\r') (by decide) h.2)
  have bytes : Utf8.encode (line ++ "\n" ++ rest) =
      Utf8.encode line ++ Lines.newline :: Utf8.encode rest := by
    simp [Utf8.encode, Lines.newline, String.utf8EncodeChar]
  simp only [lines, bytes, Lines.ofBytes_append_newline newline, ending, List.map_cons, decode,
    Utf8.decode?_encode]

/-- A line that is read holds no newline. -/
theorem not_mem_of_ok_mem_lines {source : Source} {line : String} (h : .ok line ∈ source.lines) :
    '\n' ∉ line.toList := by
  cases source with
  | directory => simp [lines] at h
  | content bytes =>
      obtain ⟨cut, mem, decoded⟩ := List.mem_map.1 h
      have encoded : Utf8.encode line = cut := by
        unfold decode at decoded
        split at decoded
        · next s read =>
            cases decoded
            exact Utf8.encode_of_decode? read
        · cases decoded
      intro newline
      have inside : Lines.newline ∈ Utf8.encode line :=
        List.mem_flatMap.2 ⟨'\n', newline, by decide⟩
      exact Lines.newline_not_mem_of_mem_ofBytes mem (encoded ▸ inside)

/-- A text written as lines is read as these lines. -/
theorem lines_encode_join {ls : List String} (h : ∀ l ∈ ls, IsLine l) :
    (content (Utf8.encode (String.join (ls.map (· ++ "\n"))))).lines = ls.map .ok := by
  induction ls with
  | nil => rfl
  | cons l ls ih =>
      rw [List.map_cons, String.join_cons, lines_encode_append (h l List.mem_cons_self),
        ih fun l' mem => h l' (List.mem_cons_of_mem l mem), List.map_cons]

end Source

/-! ## Texts one after the other -/

namespace Lines

theorem ofPieces_append (front : List Bytes) {back : List Bytes} (h : back ≠ []) :
    ofPieces (front ++ back) = front.map dropReturn ++ ofPieces back := by
  induction front with
  | nil => rfl
  | cons p front ih =>
      rw [List.map_cons, List.cons_append, List.cons_append, ← ih]
      cases rest : front ++ back with
      | nil => exact absurd (List.append_eq_nil_iff.1 rest).2 h
      | cons q qs => rfl

/-- What comes after a newline is cut into lines by itself. -/
theorem ofBytes_append_sep (a b : Bytes) :
    ofBytes (a ++ newline :: b) = ofBytes (a ++ [newline]) ++ ofBytes b := by
  have pieces (b : Bytes) : ofBytes (a ++ newline :: b) =
      (Split.pieces newline a).map dropReturn ++ ofBytes b := by
    rw [ofBytes, Split.pieces_append_separator, ofPieces_append _ (Split.pieces_ne_nil _ _),
      ofBytes]
  rw [pieces, pieces, ofBytes_nil, List.append_nil]

/-- What has no newline is one line, as long as it is not empty. -/
theorem ofBytes_of_not_mem {line : Bytes} (h : newline ∉ line) (ne : line ≠ []) :
    ofBytes line = [line] := by
  rw [ofBytes, Split.pieces_of_not_mem h]
  simp [ofPieces, ne]

end Lines

namespace Source

/-- Whether the last line of a text, if there is one, has its newline. -/
def IsEnded (text : String) : Prop :=
  text = "" ∨ text.toList.getLast? = some '\n'

instance (text : String) : Decidable (IsEnded text) :=
  inferInstanceAs (Decidable (_ ∨ _))

/-- What comes after an ended line is read by itself. -/
theorem lines_append {a : String} (h : IsEnded a) (b : String) :
    (content (Utf8.encode (a ++ b))).lines =
      (content (Utf8.encode a)).lines ++ (content (Utf8.encode b)).lines := by
  rcases h with rfl | last
  · simp [lines]
  · obtain ⟨front, split⟩ := List.getLast?_eq_some_iff.1 last
    have bytes : Utf8.encode a = front.flatMap String.utf8EncodeChar ++ [Lines.newline] := by
      simp [Utf8.encode, split, Lines.newline, String.utf8EncodeChar]
    have both : Utf8.encode (a ++ b) =
        front.flatMap String.utf8EncodeChar ++ Lines.newline :: Utf8.encode b := by
      simp [bytes]
    simp only [lines, both, bytes, Lines.ofBytes_append_sep _ (Utf8.encode b), List.map_append]

/-- A line without a newline is read as it is, even if it ends in a carriage return. -/
theorem lines_of_not_mem {line : String} (h : '\n' ∉ line.toList) (ne : line ≠ "") :
    (content (Utf8.encode line)).lines = [.ok line] := by
  have newline : Lines.newline ∉ Utf8.encode line := Utf8.not_mem_encode (a := '\n') (by decide) h
  have bytes : Utf8.encode line ≠ [] := by
    intro none
    have decoded := Utf8.decode?_encode line
    rw [none] at decoded
    exact ne (Option.some.inj decoded).symm
  rw [lines, Lines.ofBytes_of_not_mem newline bytes, List.map_singleton, decode,
    Utf8.decode?_encode]

/-- Without a carriage return at its end a text is a text. -/
theorem exists_dropReturn (line : String) :
    ∃ line', Lines.dropReturn (Utf8.encode line) = Utf8.encode line' := by
  by_cases last : line.toList.getLast? = some '\r'
  · obtain ⟨front, split⟩ := List.getLast?_eq_some_iff.1 last
    have bytes : Utf8.encode line =
        Utf8.encode (String.ofList front) ++ [Lines.carriageReturn] := by
      simp [Utf8.encode, split, Lines.carriageReturn, String.utf8EncodeChar]
    refine ⟨String.ofList front, ?_⟩
    rw [Lines.dropReturn, bytes, if_pos List.getLast?_concat, List.dropLast_concat]
  · exact ⟨line, if_neg (Utf8.getLast?_encode_ne (a := '\r') (by decide) last)⟩

/-- All lines of a text are texts. -/
theorem exists_lines (cs : List Char) :
    ∃ ls : List String, (content (Utf8.encode (String.ofList cs))).lines = ls.map .ok := by
  by_cases ends : '\n' ∈ cs
  · obtain ⟨line, rest, split, none⟩ := List.eq_append_cons_of_mem ends
    obtain ⟨ls, read⟩ := exists_lines rest
    obtain ⟨line', shortened⟩ := exists_dropReturn (String.ofList line)
    have newline : Lines.newline ∉ Utf8.encode (String.ofList line) :=
      Utf8.not_mem_encode (a := '\n') (by decide) (by simpa using none)
    have bytes : Utf8.encode (String.ofList cs) =
        Utf8.encode (String.ofList line) ++
          Lines.newline :: Utf8.encode (String.ofList rest) := by
      simp [split, Utf8.encode, Lines.newline, String.utf8EncodeChar]
    refine ⟨line' :: ls, ?_⟩
    rw [lines] at read ⊢
    rw [bytes, Lines.ofBytes_append_newline newline, List.map_cons, read, shortened, decode,
      Utf8.decode?_encode, List.map_cons]
  · by_cases empty : cs = []
    · exact ⟨[], by rw [empty]; rfl⟩
    · exact ⟨[String.ofList cs], lines_of_not_mem (by simpa using ends) (by simpa using empty)⟩
termination_by cs.length
decreasing_by
  rw [split, List.length_append, List.length_cons]
  omega

/-- A text is ended lines and what follows them without a newline. -/
theorem exists_isEnded_append (text : String) :
    ∃ front rest, text = front ++ rest ∧ IsEnded front ∧ '\n' ∉ rest.toList := by
  by_cases ends : '\n' ∈ text.toList
  · obtain ⟨rest, front, split, none⟩ := List.eq_append_cons_of_mem (List.mem_reverse.2 ends)
    refine ⟨String.ofList (front.reverse ++ ['\n']), String.ofList rest.reverse, ?_, ?_, ?_⟩
    · apply String.toList_injective
      rw [← List.reverse_reverse text.toList, split]
      simp
    · exact .inr (by simp)
    · simpa using none
  · exact ⟨"", text, by simp, .inl rfl, ends⟩

/-- What has no newline and is not empty has not been ended. -/
theorem isEnded_append_iff {front rest : String} (h : IsEnded front) (none : '\n' ∉ rest.toList) :
    IsEnded (front ++ rest) ↔ rest = "" := by
  refine ⟨fun ended => ?_, fun empty => ?_⟩
  · rcases ended with empty | last
    · exact (String.append_eq_empty_iff.1 empty).2
    · by_cases more : rest.toList = []
      · simpa using more
      · rw [String.toList_append, List.getLast?_append, List.getLast?_eq_some_getLast more,
          Option.some_or, ← List.getLast?_eq_some_getLast more] at last
        exact absurd (List.mem_of_getLast? last) none
  · simpa [empty] using h

end Source

end FlatDB
