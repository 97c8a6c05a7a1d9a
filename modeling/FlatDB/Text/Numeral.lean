/-
# Numerals

Decimal numerals as they are read from files: one or more digits after an
optional plus sign, and for signed numbers an optional minus sign instead.
Leading zeros are allowed, the value must fit the type that is asked for, and
nothing else may surround the digits.  What is written is always the shortest
such numeral, without a plus sign.
-/

namespace FlatDB

namespace Numeral

/-- The number that a sequence of digits denotes, most significant digit first. -/
def value (digits : List Char) : Nat :=
  digits.foldl (fun n c => 10 * n + (c.toNat - '0'.toNat)) 0

/-- The value of a non-empty sequence of ASCII digits. -/
def digits? (cs : List Char) : Option Nat :=
  if !cs.isEmpty && cs.all Char.isDigit then some (value cs) else none

/-- Remove one leading plus sign. -/
def dropPlus : List Char → List Char
  | '+' :: cs => cs
  | cs => cs

/-- A numeral for a natural number below `bound`. -/
def natBelow? (bound : Nat) (s : String) : Option Nat :=
  (digits? (dropPlus s.toList)).filter (· < bound)

/-- A numeral for a number of at most 64 bits. -/
def uint64? (s : String) : Option UInt64 :=
  (natBelow? UInt64.size s).map UInt64.ofNat

/-- A 32-bit number given by its value, if it is in range. -/
def int32OfInt? (n : Int) : Option Int32 :=
  if -2147483648 ≤ n ∧ n ≤ 2147483647 then some (Int32.ofInt n) else none

/-- A numeral for a signed number of 32 bits. -/
def int32? (s : String) : Option Int32 :=
  match s.toList with
  | '-' :: cs => (digits? cs).bind fun n => int32OfInt? (-n)
  | cs => (digits? (dropPlus cs)).bind fun n => int32OfInt? n

/-- The digits of a natural number. -/
def ofNat (n : Nat) : String :=
  Nat.repr n

/-- The numeral of an integer: a minus sign if it is negative, then digits. -/
def ofInt : Int → String
  | .ofNat n => ofNat n
  | .negSucc n => "-" ++ ofNat (n + 1)

/-- The numeral of a 32-bit number. -/
def ofInt32 (n : Int32) : String :=
  ofInt n.toInt

/-- The numeral of a 64-bit number. -/
def ofUInt64 (n : UInt64) : String :=
  ofNat n.toNat

/-- Every 32-bit number is in range. -/
@[simp]
theorem int32OfInt?_toInt (n : Int32) : int32OfInt? n.toInt = some n := by
  have below := n.le_toInt
  have above := n.toInt_lt
  rw [int32OfInt?, if_pos (by omega), Int32.ofInt_toInt]

end Numeral

end FlatDB
