/-
# Dates and the calendar

The texts that are read as dates are those that spell a day of the calendar with two digits for
the day, two for the month and four for the year.  The calendar is the proleptic Gregorian one as
the standard library has it, so leap years and the lengths of months are not taken from the
reader's own tables.  Nothing is said of years beyond 9999 or before 0: no text spells them.
-/

import FlatDB.Proofs.Date
import Mathlib.Data.Prod.Lex
import Mathlib.Tactic.IntervalCases
import Std.Time.Date.PlainDate

namespace FlatDB

namespace Date

/-! ## The days of the calendar -/

/-- Whether the calendar has the day with the given numbers. -/
def InCalendar (year month day : Nat) : Prop :=
  ∃ p : Std.Time.PlainDate, p.year.toInt = year ∧ p.month.val = month ∧ p.day.val = day

/-- The calendar has the leap years that are taken for such. -/
theorem isLeap_ofNat (year : Nat) :
    (Std.Time.Year.Offset.ofNat year).isLeap = isLeapYear year := by
  have rest (n : Int) : (year : Int).tmod n = year % n :=
    Int.tmod_eq_emod_of_nonneg (Int.natCast_nonneg year)
  have leap : (Std.Time.Year.Offset.ofNat year).isLeap = true ↔
      (year : Int).tmod 4 = 0 ∧ ((year : Int).tmod 100 ≠ 0 ∨ (year : Int).tmod 400 = 0) :=
    decide_eq_true_iff
  rw [Bool.eq_iff_iff, leap, rest, rest, rest, isLeapYear]
  simp only [Bool.and_eq_true, Bool.or_eq_true, beq_iff_eq, bne_iff_ne]
  omega

/-- The months of the calendar are as long as they are taken to be. -/
theorem days_eq_daysIn (year : Nat) (month : Std.Time.Month.Ordinal) :
    (month.days (isLeapYear year)).val = daysIn year month.val.toNat := by
  obtain ⟨number, low, high⟩ := month
  unfold daysIn
  cases isLeapYear year <;> interval_cases number <;> rfl

/-- A day that the calendar has is one that a date can be. -/
theorem inCalendar_iff {year month day : Nat} :
    InCalendar year month day ↔ 1 ≤ day ∧ day ≤ daysIn year month := by
  constructor
  · rintro ⟨⟨year', month', day', valid⟩, years, months, days⟩
    dsimp only at years months days
    obtain rfl : year' = Std.Time.Year.Offset.ofNat year := years
    have length := days_eq_daysIn year month'
    rw [Std.Time.Year.Offset.Valid, isLeap_ofNat] at valid
    have within : day'.val ≤ (month'.days (isLeapYear year)).val := valid
    have first := day'.property.1
    rw [length, months, days, Int.toNat_natCast] at within
    exact ⟨by omega, by omega⟩
  · rintro ⟨first, within⟩
    have known := month_of_daysIn_pos (Nat.lt_of_lt_of_le first within)
    have short := daysIn_le year month
    let month' : Std.Time.Month.Ordinal := ⟨month, by omega, by omega⟩
    let day' : Std.Time.Day.Ordinal := ⟨day, by omega, by omega⟩
    have length : (month'.days (isLeapYear year)).val = daysIn year month :=
      days_eq_daysIn year month'
    refine ⟨⟨Std.Time.Year.Offset.ofNat year, month', day', ?_⟩, rfl, rfl, rfl⟩
    rw [Std.Time.Year.Offset.Valid, isLeap_ofNat]
    show (day : Int) ≤ (month'.days (isLeapYear year)).val
    omega

/-! ## Texts of days -/

/-- Whether a text spells a day by numbers: two digits for the day, two for the month and four for
the year, with hyphens between them. -/
def Spells (s : String) (year month day : Nat) : Prop :=
  ∃ dd mm yyyy : List Char, s.toList = dd ++ '-' :: mm ++ '-' :: yyyy ∧
    dd.length = 2 ∧ mm.length = 2 ∧ yyyy.length = 4 ∧
      (∀ c ∈ dd ++ mm ++ yyyy, c.isDigit = true) ∧ Nat.ofDigitChars 10 dd 0 = day ∧
        Nat.ofDigitChars 10 mm 0 = month ∧ Nat.ofDigitChars 10 yyyy 0 = year

/-- A number is less than the power of ten that has a zero for each of its digits. -/
theorem value_lt_pow {cs : List Char} (digits : ∀ c ∈ cs, c.isDigit = true) :
    Nat.ofDigitChars 10 cs 0 < 10 ^ cs.length := by
  rw [Nat.ofDigitChars_eq_foldl]
  calc Numeral.value cs
    _ = Numeral.value (lastDigits cs.length (Numeral.value cs)) := by
      rw [lastDigits_value cs digits]
    _ = Numeral.value cs % 10 ^ cs.length := value_lastDigits _ _
    _ < 10 ^ cs.length := Nat.mod_lt _ (Nat.pow_pos (by decide))

/-- The written form of a date spells it, and no other text does. -/
theorem spells_iff {s : String} {d : Date} : Spells s d.year d.month d.day ↔ d.written = s := by
  constructor
  · rintro ⟨dd, mm, yyyy, shape, two, two', four, digits, day, month, year⟩
    simp only [List.mem_append, or_imp, forall_and] at digits
    obtain ⟨⟨days, months⟩, years⟩ := digits
    rw [Nat.ofDigitChars_eq_foldl] at day month year
    have day' : lastDigits 2 d.day = dd := by
      rw [← day, ← two]
      exact lastDigits_value dd days
    have month' : lastDigits 2 d.month = mm := by
      rw [← month, ← two']
      exact lastDigits_value mm months
    have year' : lastDigits 4 d.year = yyyy := by
      rw [← year, ← four]
      exact lastDigits_value yyyy years
    rw [written, day', month', year', ← shape, String.ofList_toList]
  · rintro rfl
    have number {count n : Nat} (fits : n < 10 ^ count) :
        Nat.ofDigitChars 10 (lastDigits count n) 0 = n := by
      rw [Nat.ofDigitChars_eq_foldl]
      exact (value_lastDigits count n).trans (Nat.mod_eq_of_lt fits)
    refine ⟨lastDigits 2 d.day, lastDigits 2 d.month, lastDigits 4 d.year,
      String.toList_ofList, length_lastDigits _ _, length_lastDigits _ _, length_lastDigits _ _,
      ?_, number ?_, number ?_, number d.year_lt⟩
    · simp only [List.mem_append, or_imp, forall_and]
      exact ⟨⟨fun _ => isDigit_of_mem_lastDigits, fun _ => isDigit_of_mem_lastDigits⟩,
        fun _ => isDigit_of_mem_lastDigits⟩
    · exact (d.day_le.trans (daysIn_le _ _)).trans_lt (by decide)
    · exact d.month_le.trans_lt (by decide)

/-- Four digits spell no year beyond 9999. -/
theorem Spells.year_lt {s : String} {year month day : Nat} (h : Spells s year month day) :
    year < 10000 := by
  obtain ⟨dd, mm, yyyy, -, -, -, four, digits, -, -, rfl⟩ := h
  have years : ∀ c ∈ yyyy, c.isDigit = true := fun c mem => digits c (List.mem_append_right _ mem)
  have below := value_lt_pow years
  rwa [four] at below

/-- The dates are the days of the calendar from the year 0 to the year 9999. -/
theorem exists_iff {year month day : Nat} :
    (∃ d : Date, d.year = year ∧ d.month = month ∧ d.day = day) ↔
      year ≤ 9999 ∧ InCalendar year month day := by
  rw [inCalendar_iff]
  constructor
  · rintro ⟨d, rfl, rfl, rfl⟩
    exact ⟨Nat.le_of_lt_succ d.year_lt, d.one_le_day, d.day_le⟩
  · rintro ⟨year_le, first, within⟩
    exact ⟨⟨year, month, day, Nat.lt_succ_of_le year_le, first, within⟩, rfl, rfl, rfl⟩

/-! ## Reading -/

/-- A text is read as the day that it spells, if it spells a day of the calendar. -/
theorem parse?_iff_spells {s : String} {year month day : Nat} :
    (∃ d, parse? s = some d ∧ d.year = year ∧ d.month = month ∧ d.day = day) ↔
      Spells s year month day ∧ InCalendar year month day := by
  constructor
  · rintro ⟨d, read, rfl, rfl, rfl⟩
    exact ⟨spells_iff.2 (parse?_eq_some.1 read), (exists_iff.1 ⟨d, rfl, rfl, rfl⟩).2⟩
  · rintro ⟨spells, known⟩
    obtain ⟨d, rfl, rfl, rfl⟩ := exists_iff.2 ⟨Nat.le_of_lt_succ spells.year_lt, known⟩
    exact ⟨d, parse?_eq_some.2 (spells_iff.1 spells), rfl, rfl, rfl⟩

/-! ## The order of dates -/

/-- Two comparisons one after the other are the comparison of the pairs. -/
theorem compares_then {α β : Type} [LinearOrder α] [LinearOrder β] {o o' : Ordering} {a b : α}
    {x y : β} (first : o.Compares a b) (second : o'.Compares x y) :
    (o.then o').Compares (toLex (a, x)) (toLex (b, y)) := by
  cases o with
  | lt => exact Prod.Lex.toLex_lt_toLex.2 (.inl first)
  | gt => exact Prod.Lex.toLex_lt_toLex.2 (.inl first)
  | eq =>
    obtain rfl : a = b := first
    cases o' with
    | lt => exact Prod.Lex.toLex_lt_toLex.2 (.inr ⟨rfl, second⟩)
    | gt => exact Prod.Lex.toLex_lt_toLex.2 (.inr ⟨rfl, second⟩)
    | eq => exact congrArg (fun z => toLex (a, z)) second

/-- Dates are compared by year, then month, then day. -/
theorem compares_lex (a b : Date) :
    (compare a b).Compares (toLex (a.year, toLex (a.month, a.day)))
      (toLex (b.year, toLex (b.month, b.day))) :=
  have number (m n : Nat) : (compare m n).Compares m n :=
    compares_of_lt (fun before => Nat.compare_eq_lt.1 before) m n
  compares_then (number _ _) (compares_then (number _ _) (number _ _))

/-- The texts that are read are those that spell a day of the calendar, and they are read as that
day.  Writing the date again gives the text, so that no two texts are read as one date; the days
that are reached are all those of the years 0 to 9999; and dates are ordered by year, then month,
then day. -/
theorem parse?_calendar :
    (∀ s, (parse? s).isSome = true ↔
        ∃ year month day, Spells s year month day ∧ InCalendar year month day) ∧
      (∀ s year month day,
        (∃ d, parse? s = some d ∧ d.year = year ∧ d.month = month ∧ d.day = day) ↔
          Spells s year month day ∧ InCalendar year month day) ∧
      (∀ s d, parse? s = some d ↔ d.written = s) ∧
      (∀ s s', (∃ d, parse? s = some d ∧ parse? s' = some d) ↔ s = s' ∧ (parse? s).isSome = true) ∧
      (∀ year month day,
        (∃ s d, parse? s = some d ∧ d.year = year ∧ d.month = month ∧ d.day = day) ↔
          year ≤ 9999 ∧ InCalendar year month day) ∧
      ∀ a b : Date, (compare a b).Compares (toLex (a.year, toLex (a.month, a.day)))
        (toLex (b.year, toLex (b.month, b.day))) := by
  refine ⟨fun s => ?_, fun s year month day => parse?_iff_spells, fun s d => parse?_eq_some,
    fun s s' => ?_, fun year month day => ?_, compares_lex⟩
  · rw [Option.isSome_iff_exists]
    constructor
    · rintro ⟨d, read⟩
      exact ⟨d.year, d.month, d.day, parse?_iff_spells.1 ⟨d, read, rfl, rfl, rfl⟩⟩
    · rintro ⟨year, month, day, spells⟩
      obtain ⟨d, read, -⟩ := parse?_iff_spells.2 spells
      exact ⟨d, read⟩
  · rw [Option.isSome_iff_exists]
    constructor
    · rintro ⟨d, read, read'⟩
      exact ⟨(parse?_eq_some.1 read).symm.trans (parse?_eq_some.1 read'), d, read⟩
    · rintro ⟨rfl, d, read⟩
      exact ⟨d, read, read⟩
  · rw [← exists_iff]
    constructor
    · rintro ⟨s, d, -, numbers⟩
      exact ⟨d, numbers⟩
    · rintro ⟨d, numbers⟩
      exact ⟨d.written, d, parse?_written d, numbers⟩

/-- Of the years that end a century, only every fourth has a leap day. -/
example : (parse? "29-02-2000").isSome = true ∧ parse? "29-02-1900" = none := by decide

end Date

end FlatDB
