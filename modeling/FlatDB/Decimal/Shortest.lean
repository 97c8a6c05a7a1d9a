/-
# The shortest decimal that reads back

A binary floating-point number stands for an interval of reals: those that
round to it.  Its shortest decimal is one with the fewest significant digits in
that interval and, among those, the one nearest to the number itself; when two
are equally near, the larger one.

Everything is exact arithmetic on natural numbers.  The number and the ends of
its interval are numerators over one denominator, a decimal with `k`
significant digits is a multiple of a power of ten, and if the interval
contains any multiple of that power then it contains one of the two that
enclose the number.  So each digit count is settled by two tests, and seventeen
digits always suffice for a double.
-/

namespace FlatDB

/-- The number `digits · 10 ^ exponent`. -/
structure Decimal where
  /-- The significant digits, read as one number. -/
  digits : Nat
  /-- The power of ten they are scaled by. -/
  exponent : Int
  deriving DecidableEq, Repr

namespace Decimal

/-- A positive number together with the reals that round to it. -/
structure Interval where
  /-- Numerator of the number. -/
  value : Nat
  /-- Numerator of the lower end. -/
  low : Nat
  /-- Numerator of the upper end. -/
  high : Nat
  /-- The common denominator. -/
  den : Nat
  /-- Whether the ends themselves round to the number. -/
  closed : Bool

namespace Interval

/-- The interval of `significand · 2 ^ exponent`.  The gap below a power of two
is half the gap above it, which `narrowBelow` says. -/
def ofBinary (significand : Nat) (exponent : Int) (narrowBelow : Bool) : Interval :=
  let scale := if 2 ≤ exponent then Nat.pow 2 (exponent - 2).toNat else 1
  { value := 4 * significand * scale
    low := (4 * significand - if narrowBelow then 1 else 2) * scale
    high := (4 * significand + 2) * scale
    den := if 2 ≤ exponent then 1 else Nat.pow 2 (2 - exponent).toNat
    closed := significand % 2 == 0 }

/-- Whether a decimal lies in the interval. -/
def contains (i : Interval) (d : Decimal) : Bool :=
  let num := if 0 ≤ d.exponent then d.digits * Nat.pow 10 d.exponent.toNat else d.digits
  let den := if 0 ≤ d.exponent then 1 else Nat.pow 10 (-d.exponent).toNat
  if i.closed then i.low * den ≤ num * i.den && num * i.den ≤ i.high * den
  else i.low * den < num * i.den && num * i.den < i.high * den

/-- The exponent of the leading decimal digit: the greatest `e` such that the
number is at least `10 ^ e`. -/
def magnitude (i : Interval) : Int :=
  if i.den ≤ i.value then ((Nat.toDigits 10 (i.value / i.den)).length : Int) - 1
  else
    match (List.range 400).find? fun k => i.den ≤ i.value * Nat.pow 10 k with
    | some k => -(k : Int)
    | none => -400

/-- The best decimal with `count` significant digits, if the interval holds one. -/
def withDigits? (i : Interval) (count : Nat) : Option Decimal :=
  let exponent := i.magnitude - (count : Int) + 1
  let num := if 0 ≤ exponent then i.value else i.value * Nat.pow 10 (-exponent).toNat
  let den := if 0 ≤ exponent then i.den * Nat.pow 10 exponent.toNat else i.den
  let below : Decimal := ⟨num / den, exponent⟩
  let above : Decimal := ⟨num / den + 1, exponent⟩
  match i.contains below, i.contains above with
  | true, true => some (if 2 * (num % den) < den then below else above)
  | true, false => some below
  | false, true => some above
  | false, false => none

/-- The shortest decimal of the interval. -/
def shortest (i : Interval) : Decimal :=
  ((List.range 17).findSome? fun k => i.withDigits? (k + 1)).getD ⟨0, 0⟩

end Interval

end Decimal

end FlatDB
