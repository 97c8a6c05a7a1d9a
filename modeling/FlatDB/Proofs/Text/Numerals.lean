/-
# Numerals that are written are read back

Counters, ids, header fields and the keys of indexes are numbers that go to a
file as numerals and come back from it.  This module shows that each of the
readers gives back exactly the number that was written, and collects what the
formats around numerals need to know of them: they are runs of digits, possibly
after a minus sign, so they hold no blank, no separator and no line ending.
-/

import FlatDB.Text.Blank
import FlatDB.Text.Numeral
import Std.Data.String.ToInt

namespace FlatDB

/-! ## Blanks -/

namespace Blank

/-- A digit is not a blank. -/
theorem isBlank_of_isDigit {c : Char} (h : c.isDigit = true) : isBlank c = false := by
  simp only [Char.isDigit, ge_iff_le, Bool.and_eq_true, decide_eq_true_eq, UInt32.le_iff_toNat_le]
    at h
  have low : 48 ≤ c.toNat := h.1
  have high : c.toNat ≤ 57 := h.2
  simp only [isBlank, Bool.or_eq_false_iff, Bool.and_eq_false_iff, decide_eq_false_iff_not,
    beq_eq_false_iff_ne]
  omega

/-- Trimming only takes blanks away. -/
theorem trim_of_forall_not_isBlank {s : String} (h : ∀ c ∈ s.toList, isBlank c = false) :
    trim s = s := by
  have front : s.toList.dropWhile isBlank = s.toList := by
    cases hs : s.toList with
    | nil => rfl
    | cons c cs => simp [h c (by simp [hs])]
  have back : s.toList.reverse.dropWhile isBlank = s.toList.reverse := by
    cases hs : s.toList.reverse with
    | nil => rfl
    | cons c cs => simp [h c (by simpa using (hs ▸ List.mem_cons_self : c ∈ s.toList.reverse))]
  rw [trim, front, back, List.reverse_reverse, String.ofList_toList]

end Blank

namespace Numeral

/-! ## Digits -/

theorem value_toDigits (n : Nat) : value (Nat.toDigits 10 n) = n :=
  (Nat.ofDigitChars_eq_foldl).symm.trans Nat.ofDigitChars_ten_toDigits

theorem isDigit_of_mem_toDigits {n : Nat} {c : Char} (h : c ∈ Nat.toDigits 10 n) :
    c.isDigit = true :=
  Nat.isDigit_of_mem_toDigits (by decide) (by decide) h

/-- The digits of a number denote it. -/
@[simp]
theorem digits?_toDigits (n : Nat) : digits? (Nat.toDigits 10 n) = some n := by
  have digits : (Nat.toDigits 10 n).all Char.isDigit = true :=
    List.all_eq_true.2 fun _ h => isDigit_of_mem_toDigits h
  simp [digits?, digits, Nat.toDigits_ne_nil, value_toDigits]

@[simp]
theorem toList_ofNat (n : Nat) : (ofNat n).toList = Nat.toDigits 10 n :=
  Nat.toList_repr

/-- No sign stands before the digits of a number. -/
theorem toDigits_ne_cons {n : Nat} {c : Char} {cs : List Char} (h : c.isDigit = false) :
    Nat.toDigits 10 n ≠ c :: cs := by
  intro e
  have : c.isDigit = true := isDigit_of_mem_toDigits (n := n) (e ▸ List.mem_cons_self)
  simp [h] at this

@[simp]
theorem dropPlus_toDigits (n : Nat) : dropPlus (Nat.toDigits 10 n) = Nat.toDigits 10 n := by
  unfold dropPlus
  split
  · next cs e => exact absurd e (toDigits_ne_cons (by decide))
  · rfl

/-- Only zero is written with a leading zero. -/
theorem head_toDigits_ne_zero {n : Nat} (h : n ≠ 0) {cs : List Char} :
    Nat.toDigits 10 n ≠ '0' :: cs := by
  induction n using Nat.strongRecOn generalizing cs with
  | _ n ih =>
      by_cases small : n < 10
      · rw [Nat.toDigits_of_lt_base small]
        intro e
        have : n.digitChar = '0' := (List.cons.inj e).1
        have value := Nat.toNat_digitChar_sub_48_of_lt_ten small
        rw [this] at value
        exact h value.symm
      · rw [Nat.toDigits_of_base_le (by decide) (by omega)]
        intro e
        have inner : n / 10 ≠ 0 := by omega
        cases hd : Nat.toDigits 10 (n / 10) with
        | nil => exact Nat.toDigits_ne_nil hd
        | cons d ds =>
            rw [hd, List.cons_append] at e
            have : d = '0' := (List.cons.inj e).1
            exact ih (n / 10) (by omega) inner (this ▸ hd)

/-! ## Natural numbers -/

/-- A number is read back if it is below the bound, and refused if it is not. -/
theorem natBelow?_ofNat (bound n : Nat) :
    natBelow? bound (ofNat n) = if n < bound then some n else none := by
  simp [natBelow?, Option.filter]

/-- The numeral of a number holds digits only. -/
theorem isDigit_of_mem_ofNat {n : Nat} {c : Char} (h : c ∈ (ofNat n).toList) :
    c.isDigit = true :=
  isDigit_of_mem_toDigits (by simpa using h)

@[simp]
theorem trim_ofNat (n : Nat) : Blank.trim (ofNat n) = ofNat n :=
  Blank.trim_of_forall_not_isBlank fun _ h => Blank.isBlank_of_isDigit (isDigit_of_mem_ofNat h)

/-- A character that is no digit does not occur in the numeral of a number. -/
theorem not_mem_ofNat {n : Nat} {c : Char} (h : c.isDigit = false) : c ∉ (ofNat n).toList := by
  intro mem
  simp [isDigit_of_mem_ofNat mem] at h

theorem not_mem_ofUInt64 {n : UInt64} {c : Char} (h : c.isDigit = false) :
    c ∉ (ofUInt64 n).toList :=
  not_mem_ofNat h

/-- An id is read back. -/
@[simp]
theorem uint64?_ofUInt64 (n : UInt64) : uint64? (ofUInt64 n) = some n := by
  simp [uint64?, ofUInt64, natBelow?_ofNat, n.toNat_lt_size]

/-! ## Integers -/

/-- The characters of an integer's numeral: a minus sign where it is negative,
and the digits of its absolute value. -/
theorem toList_ofInt (n : Int) :
    (ofInt n).toList =
      if n < 0 then '-' :: Nat.toDigits 10 n.natAbs else Nat.toDigits 10 n.natAbs := by
  cases n with
  | ofNat n => simp [ofInt]
  | negSucc n => simp [ofInt, Int.negSucc_lt_zero]

/-- The numeral of an integer holds digits and possibly a minus sign. -/
theorem isDigit_of_mem_ofInt {n : Int} {c : Char} (h : c ∈ (ofInt n).toList) :
    c = '-' ∨ c.isDigit = true := by
  rw [toList_ofInt] at h
  split at h
  · rcases List.mem_cons.1 h with h | h
    · exact .inl h
    · exact .inr (isDigit_of_mem_toDigits h)
  · exact .inr (isDigit_of_mem_toDigits h)

/-- No two integers have the same numeral. -/
theorem ofInt_inj {m n : Int} : ofInt m = ofInt n ↔ m = n := by
  have written (n : Int) : ofInt n = n.repr := by cases n <;> rfl
  rw [written, written, Int.repr_inj]

theorem isSome_int32OfInt? {n : Int} :
    (int32OfInt? n).isSome = true ↔ -2147483648 ≤ n ∧ n ≤ 2147483647 := by
  unfold int32OfInt?
  split <;> simp_all

/-- The 32-bit number of an integer is the one with its value. -/
theorem int32OfInt?_eq_some {n : Int} {v : Int32} : int32OfInt? n = some v ↔ v.toInt = n := by
  constructor
  · intro found
    have range := isSome_int32OfInt?.1 (Option.isSome_of_eq_some found)
    rw [int32OfInt?, if_pos range] at found
    rw [← Option.some.inj found]
    exact Int32.toInt_ofInt_of_le range.1 (by omega)
  · rintro rfl
    exact int32OfInt?_toInt v

/-- A 32-bit number is read back. -/
@[simp]
theorem int32?_ofInt32 (n : Int32) : int32? (ofInt32 n) = some n := by
  unfold int32? ofInt32
  rw [toList_ofInt]
  by_cases negative : n.toInt < 0
  · have whole : -(n.toInt.natAbs : Int) = n.toInt := by omega
    rw [if_pos negative]
    simp only [digits?_toDigits, Option.bind_some]
    rw [whole]
    exact int32OfInt?_toInt n
  · have whole : (n.toInt.natAbs : Int) = n.toInt := by omega
    rw [if_neg negative]
    split
    · next cs e => exact absurd e (toDigits_ne_cons (by decide))
    · simp only [dropPlus_toDigits, digits?_toDigits, Option.bind_some]
      rw [whole]
      exact int32OfInt?_toInt n

end Numeral

end FlatDB
