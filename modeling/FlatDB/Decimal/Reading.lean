/-
# Reading floating-point numbers

The numerals of floating-point numbers: an optional sign, then either digits
with an optional point and an optional exponent, or one of the names of what is
not finite, in any case.  At least one digit is needed before or after the
point.
-/

import FlatDB.Text.Numeral

namespace FlatDB

namespace Decimal

/-- Read an exponent: nothing, or `e`, an optional sign and digits. -/
def exponent? : List Char → Option Int
  | [] => some 0
  | e :: cs =>
    if e = 'e' ∨ e = 'E' then
      match cs with
      | '-' :: ds => (Numeral.digits? ds).map fun n => -(n : Int)
      | '+' :: ds => (Numeral.digits? ds).map fun n => (n : Int)
      | ds => (Numeral.digits? ds).map fun n => (n : Int)
    else none

/-- The float nearest to `digits · 10 ^ exponent`.  Beyond the four hundredth
decimal place either way there is nothing but zero and infinity. -/
def nearest (digits : Nat) (exponent : Int) : Float :=
  let leading := ((Nat.toDigits 10 digits).length : Int) + exponent
  if digits = 0 ∨ leading < -400 then 0.0
  else if 400 < leading then 1.0 / 0.0
  else if exponent < 0 then Float.ofScientific digits true (-exponent).toNat
  else Float.ofScientific digits false exponent.toNat

/-- Read a numeral without sign. -/
def magnitude? (cs : List Char) : Option Float :=
  let name := (String.ofList (cs.map Char.toLower))
  if name = "inf" ∨ name = "infinity" then some (1.0 / 0.0)
  else if name = "nan" then some (0.0 / 0.0)
  else
    let whole := cs.takeWhile Char.isDigit
    let rest := cs.dropWhile Char.isDigit
    let (fraction, tail) :=
      match rest with
      | '.' :: ds => (ds.takeWhile Char.isDigit, ds.dropWhile Char.isDigit)
      | _ => ([], rest)
    match Numeral.digits? (whole ++ fraction), exponent? tail with
    | some digits, some exponent => some (nearest digits (exponent - fraction.length))
    | _, _ => none

/-- Read a floating-point number. -/
def float? (s : String) : Option Float :=
  match s.toList with
  | '-' :: cs => (magnitude? cs).map Float.neg
  | '+' :: cs => magnitude? cs
  | cs => magnitude? cs

end Decimal

end FlatDB
