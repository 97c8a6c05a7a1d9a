/-
# Floating-point numbers as text

A finite number is written with its shortest digits in positional notation,
never with an exponent, and without a point when it is whole.  The sign of a
negative zero is kept.  What is not finite has a name.
-/

import FlatDB.Decimal.Shortest

namespace FlatDB

namespace Decimal

/-- Digits without the zeros at their end. -/
def dropTrailingZeros (digits : List Char) : List Char :=
  (digits.reverse.dropWhile (· == '0')).reverse

/-- A decimal in positional notation. -/
def positional (d : Decimal) : String :=
  let written := Nat.toDigits 10 d.digits
  let digits := dropTrailingZeros written
  let point := (written.length : Int) + d.exponent
  if point ≤ 0 then
    String.ofList ("0.".toList ++ List.replicate (-point).toNat '0' ++ digits)
  else if (digits.length : Int) ≤ point then
    String.ofList (digits ++ List.replicate (point.toNat - digits.length) '0')
  else
    String.ofList (digits.take point.toNat ++ '.' :: digits.drop point.toNat)

/-- The text of a floating-point number with the given bits: one sign bit,
eleven bits of exponent and fifty-two of significand. -/
def ofBits (bits : Nat) : String :=
  let sign := if (bits >>> 63) % 2 = 1 then "-" else ""
  let exponent : Nat := (bits >>> 52) % 2048
  let fraction : Nat := bits % 4503599627370496
  if exponent = 2047 then
    if fraction = 0 then sign ++ "inf" else "NaN"
  else if exponent = 0 then
    if fraction = 0 then sign ++ "0"
    else sign ++ (Interval.ofBinary fraction (-1074) false).shortest.positional
  else
    let narrowBelow := fraction == 0 && 1 < exponent
    let interval := Interval.ofBinary (fraction + 4503599627370496) ((exponent : Int) - 1075) narrowBelow
    sign ++ interval.shortest.positional

/-- The text of a floating-point number. -/
def ofFloat (x : Float) : String :=
  ofBits x.toBits.toNat

end Decimal

end FlatDB
