/-
# Calendar dates

A date is a day of the proleptic Gregorian calendar in a year of at most four
digits.  Its written form is day, month and year, of exactly two, two and four
digits and separated by hyphens, so every date has one written form and every
text is the form of at most one date.  Dates are ordered by year, then month,
then day, which is not the order of their written forms.
-/

import FlatDB.Text.Numeral

namespace FlatDB

/-- Whether a year has a twenty-ninth of February. -/
def isLeapYear (year : Nat) : Bool :=
  year % 4 == 0 && (year % 100 != 0 || year % 400 == 0)

/-- The number of days of a month; zero if there is no such month. -/
def daysIn (year month : Nat) : Nat :=
  if month = 2 then (if isLeapYear year then 29 else 28)
  else if month = 4 ∨ month = 6 ∨ month = 9 ∨ month = 11 then 30
  else if 1 ≤ month ∧ month ≤ 12 then 31
  else 0

/-- A day of the calendar, in the years 0 to 9999. -/
structure Date where
  /-- The year. -/
  year : Nat
  /-- The month, January being 1. -/
  month : Nat
  /-- The day of the month, from 1. -/
  day : Nat
  year_lt : year < 10000 := by decide
  one_le_day : 1 ≤ day := by decide
  day_le : day ≤ daysIn year month := by decide
  deriving DecidableEq

namespace Date

/-- The order of dates in time. -/
instance : Ord Date where
  compare a b := (compare a.year b.year).then ((compare a.month b.month).then (compare a.day b.day))

/-- The last digits of a number, as many as asked for. -/
def lastDigits : Nat → Nat → List Char
  | 0, _ => []
  | count + 1, n => lastDigits count (n / 10) ++ [Nat.digitChar (n % 10)]

/-- The written form: day, month and year. -/
def written (d : Date) : String :=
  String.ofList (lastDigits 2 d.day ++ '-' :: lastDigits 2 d.month ++ '-' :: lastDigits 4 d.year)

/-- The form that sorts: year, month and day. -/
def sortable (d : Date) : String :=
  String.ofList (lastDigits 4 d.year ++ '-' :: lastDigits 2 d.month ++ '-' :: lastDigits 2 d.day)

/-- The day with the given numbers, if the calendar has it. -/
def ofNumbers? (year month day : Nat) : Option Date :=
  if h : year < 10000 ∧ 1 ≤ day ∧ day ≤ daysIn year month then
    some ⟨year, month, day, h.1, h.2.1, h.2.2⟩
  else none

/-- Read a written form. -/
def parse? (s : String) : Option Date :=
  match s.toList with
  | [d₁, d₂, '-', m₁, m₂, '-', y₁, y₂, y₃, y₄] => do
    let year ← Numeral.digits? [y₁, y₂, y₃, y₄]
    let month ← Numeral.digits? [m₁, m₂]
    let day ← Numeral.digits? [d₁, d₂]
    ofNumbers? year month day
  | _ => none

end Date

end FlatDB
