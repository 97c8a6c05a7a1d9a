/-
# Quoted texts are read back

What stands between the quotes of a JSON string is read as the text it was
written for, for every text.  The escapes are undone one character at a time;
the only form that needs care is the one with four hexadecimal digits, because
its reader looks beyond them for the second half of a surrogate pair.  Escaping
writes control characters only in this form, and these are no surrogates.
-/

import FlatDB.Json.Quoted
import FlatDB.Proofs.Text.Lines

namespace FlatDB

namespace Json

namespace Quoted

/-- What stands between the quotes of a text. -/
def escaped (s : String) : String :=
  String.ofList (s.toList.flatMap escape)

theorem quote_eq (s : String) : quote s = "\"" ++ escaped s ++ "\"" := by
  apply String.toList_injective
  simp [quote, escaped]

/-- The bytes of some characters. -/
def bytesOf (cs : List Char) : Bytes :=
  cs.flatMap String.utf8EncodeChar

theorem encode_escaped (s : String) :
    Utf8.encode (escaped s) = s.toList.flatMap fun c => bytesOf (escape c) := by
  simp [Utf8.encode, escaped, bytesOf, List.flatMap_assoc]

/-! ## The shapes of an escape -/

/-- The letter that a character is escaped by, if it has one. -/
def escapeLetter? (c : Char) : Option Char :=
  if c = '"' then some '"'
  else if c = '\\' then some '\\'
  else if c = '\x08' then some 'b'
  else if c = '\x0c' then some 'f'
  else if c = '\n' then some 'n'
  else if c = '\r' then some 'r'
  else if c = '\t' then some 't'
  else none

/-- A character is escaped by a letter, or by its number, or stands for itself. -/
theorem escape_eq (c : Char) :
    escape c =
      match escapeLetter? c with
      | some letter => ['\\', letter]
      | none =>
        if c.toNat < 0x20 then
          ['\\', 'u', '0', '0', hexDigit (c.toNat / 16), hexDigit c.toNat]
        else [c] := by
  unfold escape escapeLetter?
  grind

/-- The byte of an escape letter stands for the byte of the escaped character,
and is not the one that announces a number. -/
theorem letter?_escapeLetter? {c letter : Char} (h : escapeLetter? c = some letter) :
    letter.toNat < 128 ∧ c.toNat < 128 ∧ UInt8.ofNat letter.toNat ≠ 117 ∧
      letter? (UInt8.ofNat letter.toNat) = some (UInt8.ofNat c.toNat) := by
  rw [escapeLetter?] at h
  repeat' split at h
  all_goals first
    | (cases h; subst c; decide)
    | cases h

/-- The two digits of a small number are read as that number. -/
theorem hex4?_hexDigit {n : Nat} (h : n < 0x20) :
    (hexDigit (n / 16)).toNat < 128 ∧ (hexDigit n).toNat < 128 ∧
      hex4? 48 48 (UInt8.ofNat (hexDigit (n / 16)).toNat) (UInt8.ofNat (hexDigit n).toNat) =
        some n := by
  revert n
  decide

/-- Whatever four bytes have a value as digits, each of them is a digit. -/
theorem isSome_of_hex4? {a b c d : UInt8} {n : Nat} (h : hex4? a b c d = some n) :
    ∀ x ∈ [a, b, c, d], (hexValue? x).isSome = true := by
  simp only [hex4?, Option.bind_eq_bind, Option.bind_eq_some_iff] at h
  obtain ⟨i, hi, j, hj, k, hk, l, hl, -⟩ := h
  simp [hi, hj, hk, hl]

/-- A character that stands for itself has no special byte. -/
theorem plain_of_mem_encodeChar {c : Char} (h : escapeLetter? c = none) (low : ¬ c.toNat < 0x20)
    {b : UInt8} (mem : b ∈ String.utf8EncodeChar c) : b ≠ 34 ∧ b ≠ 92 ∧ ¬ b < 32 := by
  have quote : c ≠ '"' := by
    rintro rfl
    cases h
  have backslash : c ≠ '\\' := by
    rintro rfl
    cases h
  refine ⟨?_, ?_, ?_⟩
  · rintro rfl
    exact quote (Utf8.eq_of_mem_encodeChar (a := '"') (by decide) mem)
  · rintro rfl
    exact backslash (Utf8.eq_of_mem_encodeChar (a := '\\') (by decide) mem)
  · intro control
    have value : b.toNat < 32 := UInt8.lt_iff_toNat_lt.1 control
    by_cases ascii : c.toNat < 128
    · rw [Utf8.encodeChar_of_lt ascii, List.mem_singleton] at mem
      rw [mem, UInt8.toNat_ofNat'] at value
      omega
    · have := Utf8.le_of_mem_encodeChar (Nat.le_of_not_lt ascii) mem
      omega

/-! ## Reading -/

theorem unescape?_plain {b : UInt8} (h : b ≠ 92) (rest : Bytes) :
    unescape? (b :: rest) = (unescape? rest).map (b :: ·) := by
  rw [unescape?.eq_6 b rest (by simp [h]) (by simp [h]) (by simp [h]) (by simp [h]),
    Option.map_eq_bind]
  rfl

theorem unescape?_letter {b : UInt8} (h : b ≠ 117) (rest : Bytes) :
    unescape? (92 :: b :: rest) =
      (letter? b).bind fun meant => (unescape? rest).map (meant :: ·) := by
  rw [unescape?.eq_4 b rest (by simp [h]) (by simp [h])]
  simp only [Option.map_eq_bind]
  rfl

theorem unescape?_number {a b c d : UInt8} {n : Nat} (h : hex4? a b c d = some n)
    (low : n < 0x20) (rest : Bytes) :
    unescape? (92 :: 117 :: a :: b :: c :: d :: rest) =
      (unescape? rest).map (String.utf8EncodeChar (Char.ofNat n) ++ ·) := by
  have high : isHighSurrogate n = false := by
    simp [isHighSurrogate]
    omega
  have second : isLowSurrogate n = false := by
    simp [isLowSurrogate]
    omega
  rw [Option.map_eq_bind]
  by_cases pair : ∃ a' b' c' d' r, rest = 92 :: 117 :: a' :: b' :: c' :: d' :: r
  · obtain ⟨a', b', c', d', r, rfl⟩ := pair
    simp only [unescape?.eq_2, h, Option.bind_eq_bind, Option.bind_some, high, second]
    rfl
  · rw [unescape?.eq_3 a b c d rest fun a' b' c' d' r e => pair ⟨a', b', c', d', r, e⟩]
    simp only [h, Option.bind_eq_bind, Option.bind_some, high, second]
    rfl

/-- Reading one escaped character gives the bytes of that character. -/
theorem unescape?_escape (c : Char) (rest : Bytes) :
    unescape? (bytesOf (escape c) ++ rest) =
      (unescape? rest).map (String.utf8EncodeChar c ++ ·) := by
  rw [escape_eq]
  cases h : escapeLetter? c with
  | some letter =>
      obtain ⟨ascii, small, notNumber, meant⟩ := letter?_escapeLetter? h
      have bytes : bytesOf ['\\', letter] = [92, UInt8.ofNat letter.toNat] := by
        simp [bytesOf, Utf8.encodeChar_of_lt ascii]
        rfl
      simp only [bytes, List.cons_append, List.nil_append, unescape?_letter notNumber, meant,
        Option.bind_some, Utf8.encodeChar_of_lt small]
  | none =>
      by_cases low : c.toNat < 0x20
      · obtain ⟨first, second, value⟩ := hex4?_hexDigit low
        have bytes : bytesOf ['\\', 'u', '0', '0', hexDigit (c.toNat / 16), hexDigit c.toNat] =
            [92, 117, 48, 48, UInt8.ofNat (hexDigit (c.toNat / 16)).toNat,
              UInt8.ofNat (hexDigit c.toNat).toNat] := by
          simp only [bytesOf, List.flatMap_cons, List.flatMap_nil, Utf8.encodeChar_of_lt first,
            Utf8.encodeChar_of_lt second]
          rfl
        simp only [low, if_true, bytes, List.cons_append, List.nil_append,
          unescape?_number value low, Char.ofNat_toNat]
      · simp only [low, if_false, bytesOf, List.flatMap_cons, List.flatMap_nil, List.append_nil]
        have plain (b : UInt8) (mem : b ∈ String.utf8EncodeChar c) : b ≠ 92 :=
          (plain_of_mem_encodeChar h low mem).2.1
        generalize String.utf8EncodeChar c = bytes at plain
        induction bytes with
        | nil => simp
        | cons b bytes ih =>
            rw [List.cons_append, unescape?_plain (plain b List.mem_cons_self),
              ih fun b' mem => plain b' (List.mem_cons_of_mem b mem)]
            simp [Function.comp_def]

/-- Reading undoes escaping. -/
theorem unescape?_escaped (s : String) :
    unescape? (Utf8.encode (escaped s)) = some (Utf8.encode s) := by
  rw [encode_escaped, Utf8.encode]
  generalize s.toList = cs
  induction cs with
  | nil => rfl
  | cons c cs ih => simp [List.flatMap_cons, unescape?_escape, ih]

/-- What stands between the quotes of a text is read as that text. -/
@[simp]
theorem unquote?_escaped (s : String) : unquote? (Utf8.encode (escaped s)) = some s := by
  simp [unquote?, unescape?_escaped]

end Quoted

end Json

end FlatDB
