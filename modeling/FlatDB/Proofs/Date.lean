/-
# Dates, their written forms and their order

A text is the written form of at most one date, and every date has one: reading and writing are
inverse to each other.  Dates are ordered as their days follow each other in time, which is
said here by numbering the days from the first of January of the year 0 on.
-/

import FlatDB.Date
import FlatDB.Proofs.Text.Numerals
import FlatDB.Proofs.Text.Order
import Mathlib.Algebra.Order.BigOperators.Group.Finset
import Mathlib.Order.Compare

namespace FlatDB

/-! ## Digits -/

namespace Numeral

theorem digit_lt {c : Char} (h : c.isDigit = true) : c.toNat - '0'.toNat < 10 := by
  obtain ⟨-, high⟩ := Char.isDigit_iff_toNat.1 h
  have nine : '9'.toNat = '0'.toNat + 9 := rfl
  omega

/-- A digit is the character of its value. -/
theorem digitChar_of_isDigit {c : Char} (h : c.isDigit = true) :
    Nat.digitChar (c.toNat - '0'.toNat) = c := by
  obtain ⟨low, -⟩ := Char.isDigit_iff_toNat.1 h
  apply Char.toNat_inj.1
  rw [Nat.toNat_digitChar_of_lt_ten (digit_lt h)]
  exact Nat.add_sub_cancel' low

theorem value_concat (cs : List Char) (c : Char) :
    value (cs ++ [c]) = 10 * value cs + (c.toNat - '0'.toNat) := by
  simp [value]

theorem digits?_eq_some {cs : List Char} {n : Nat} :
    digits? cs = some n ↔ cs ≠ [] ∧ (∀ c ∈ cs, c.isDigit = true) ∧ value cs = n := by
  simp [digits?, and_assoc]

end Numeral

namespace Date

/-- Digits are the last digits of the number that they denote. -/
theorem lastDigits_value (cs : List Char) (digits : ∀ c ∈ cs, c.isDigit = true) :
    lastDigits cs.length (Numeral.value cs) = cs := by
  induction cs using List.reverseRecOn with
  | nil => rfl
  | append_singleton cs c ih =>
      have digit : c.isDigit = true := digits c (by simp)
      have early := ih fun x mem => digits x (List.mem_append_left _ mem)
      rw [List.length_append, List.length_singleton, lastDigits, Numeral.value_concat,
        Nat.mul_add_div (by decide), Nat.mul_add_mod, Nat.div_eq_of_lt (Numeral.digit_lt digit),
        Nat.mod_eq_of_lt (Numeral.digit_lt digit), Nat.add_zero, early,
        Numeral.digitChar_of_isDigit digit]

theorem lastDigits_of_digits? {cs : List Char} {n : Nat} (h : Numeral.digits? cs = some n) :
    lastDigits cs.length n = cs := by
  obtain ⟨-, digits, rfl⟩ := Numeral.digits?_eq_some.1 h
  exact lastDigits_value cs digits

theorem length_lastDigits (count n : Nat) : (lastDigits count n).length = count := by
  induction count generalizing n with
  | zero => rfl
  | succ count ih => rw [lastDigits, List.length_append, ih, List.length_singleton]

theorem isDigit_of_mem_lastDigits {count n : Nat} {c : Char} (h : c ∈ lastDigits count n) :
    c.isDigit = true := by
  induction count generalizing n with
  | zero => cases h
  | succ count ih =>
      rcases List.mem_append.1 h with early | last
      · exact ih early
      · rw [List.mem_singleton.1 last, Nat.isDigit_digitChar]
        exact decide_eq_true (Nat.mod_lt n (by decide))

theorem value_lastDigits (count n : Nat) :
    Numeral.value (lastDigits count n) = n % 10 ^ count := by
  induction count generalizing n with
  | zero => simp [lastDigits, Numeral.value, Nat.mod_one]
  | succ count ih =>
      have digit : (Nat.digitChar (n % 10)).toNat - '0'.toNat = n % 10 :=
        Nat.toNat_digitChar_sub_48_of_lt_ten (Nat.mod_lt n (by decide))
      rw [lastDigits, Numeral.value_concat, ih, digit, Nat.pow_succ', Nat.mod_mul]
      omega

/-- A number is read back from as many digits as it needs. -/
theorem digits?_lastDigits {count n : Nat} (pos : 0 < count) (fits : n < 10 ^ count) :
    Numeral.digits? (lastDigits count n) = some n := by
  refine Numeral.digits?_eq_some.2 ⟨?_, fun c mem => isDigit_of_mem_lastDigits mem, ?_⟩
  · rw [← List.length_pos_iff, length_lastDigits]
    exact pos
  · rw [value_lastDigits, Nat.mod_eq_of_lt fits]

/-! ## Written forms -/

variable {a b d : Date} {s : String}

/-- Only months have days. -/
theorem month_of_daysIn_pos {year month : Nat} (h : 0 < daysIn year month) :
    1 ≤ month ∧ month ≤ 12 := by
  unfold daysIn at h
  split at h
  · omega
  split at h
  · omega
  split at h
  · omega
  · cases h

theorem month_le (d : Date) : d.month ≤ 12 :=
  (month_of_daysIn_pos (Nat.lt_of_lt_of_le d.one_le_day d.day_le)).2

theorem daysIn_le (year month : Nat) : daysIn year month ≤ 31 := by
  unfold daysIn
  split
  · split <;> decide
  · split
    · decide
    · split <;> decide

theorem ofNumbers?_eq_some {year month day : Nat} :
    ofNumbers? year month day = some d ↔ year = d.year ∧ month = d.month ∧ day = d.day := by
  unfold ofNumbers?
  constructor
  · intro made
    split at made
    · cases made
      exact ⟨rfl, rfl, rfl⟩
    · cases made
  · rintro ⟨rfl, rfl, rfl⟩
    rw [dif_pos ⟨d.year_lt, d.one_le_day, d.day_le⟩]

/-- A text is read as a date just if it is the date's written form. -/
theorem parse?_eq_some : parse? s = some d ↔ d.written = s := by
  constructor
  · intro read
    unfold parse? at read
    split at read
    · next d₁ d₂ m₁ m₂ y₁ y₂ y₃ y₄ shape =>
      obtain ⟨year, years, read⟩ := Option.bind_eq_some_iff.1 read
      obtain ⟨month, months, read⟩ := Option.bind_eq_some_iff.1 read
      obtain ⟨day, days, made⟩ := Option.bind_eq_some_iff.1 read
      obtain ⟨rfl, rfl, rfl⟩ := ofNumbers?_eq_some.1 made
      have years' : lastDigits 4 d.year = _ := lastDigits_of_digits? years
      have months' : lastDigits 2 d.month = _ := lastDigits_of_digits? months
      have days' : lastDigits 2 d.day = _ := lastDigits_of_digits? days
      rw [written, years', months', days', ← String.ofList_toList (s := s), shape]
      rfl
    · cases read
  · rintro rfl
    have years : Numeral.digits? (lastDigits 4 d.year) = some d.year :=
      digits?_lastDigits (by decide) d.year_lt
    have months : Numeral.digits? (lastDigits 2 d.month) = some d.month :=
      digits?_lastDigits (by decide) (d.month_le.trans_lt (by decide))
    have days : Numeral.digits? (lastDigits 2 d.day) = some d.day :=
      digits?_lastDigits (by decide) ((d.day_le.trans (daysIn_le _ _)).trans_lt (by decide))
    rw [parse?, written, String.toList_ofList]
    show (Numeral.digits? (lastDigits 4 d.year)).bind (fun year =>
      (Numeral.digits? (lastDigits 2 d.month)).bind fun month =>
        (Numeral.digits? (lastDigits 2 d.day)).bind fun day => ofNumbers? year month day) = some d
    rw [years, months, days]
    exact ofNumbers?_eq_some.2 ⟨rfl, rfl, rfl⟩

/-- Every date is read back from its written form. -/
@[simp]
theorem parse?_written (d : Date) : parse? d.written = some d :=
  parse?_eq_some.2 rfl

/-- The texts that are read are the written forms. -/
theorem isSome_parse? : (parse? s).isSome = true ↔ ∃ d : Date, s = d.written := by
  rw [Option.isSome_iff_exists]
  exact exists_congr fun d => parse?_eq_some.trans eq_comm

/-- No two dates have the same written form. -/
theorem written_inj : a.written = b.written ↔ a = b := by
  refine ⟨fun same => ?_, congrArg written⟩
  have read : parse? b.written = some a := parse?_eq_some.2 same
  exact Option.some.inj (read.symm.trans (parse?_written b))

/-! ## The order in time -/

/-- How many days there are before a month. -/
def daysBefore (year month : Nat) : Nat :=
  (∑ y ∈ Finset.range year, ∑ m ∈ Finset.range 13, daysIn y m) +
    ∑ m ∈ Finset.range month, daysIn year m

/-- The number of a day when all days are counted one after the other, the first of January of
the year 0 being 1. -/
def dayNumber (d : Date) : Nat :=
  daysBefore d.year d.month + d.day

theorem daysBefore_add_daysIn (year month : Nat) :
    daysBefore year month + daysIn year month = daysBefore year (month + 1) := by
  rw [daysBefore, daysBefore, Finset.sum_range_succ, Nat.add_assoc]

theorem daysBefore_mono_month (year : Nat) {month month' : Nat} (h : month ≤ month') :
    daysBefore year month ≤ daysBefore year month' :=
  Nat.add_le_add_left (Finset.sum_le_sum_of_subset (Finset.range_subset_range.2 h)) _

/-- After the twelfth month comes the next year. -/
theorem daysBefore_thirteen (year month : Nat) :
    daysBefore year 13 ≤ daysBefore (year + 1) month := by
  rw [daysBefore, daysBefore, Finset.sum_range_succ _ year]
  exact Nat.le_add_right _ _

theorem daysBefore_mono_year {year year' : Nat} (h : year ≤ year') :
    daysBefore year 0 ≤ daysBefore year' 0 := by
  simp only [daysBefore, Finset.range_zero, Finset.sum_empty, Nat.add_zero]
  exact Finset.sum_le_sum_of_subset (Finset.range_subset_range.2 h)

/-- A day is over before any later month begins. -/
theorem dayNumber_le_daysBefore (d : Date) : d.dayNumber ≤ daysBefore d.year (d.month + 1) := by
  rw [← daysBefore_add_daysIn]
  exact Nat.add_le_add_left d.day_le _

theorem dayNumber_lt_of_month (year : a.year = b.year) (month : a.month < b.month) :
    a.dayNumber < b.dayNumber :=
  calc
    a.dayNumber ≤ daysBefore a.year (a.month + 1) := a.dayNumber_le_daysBefore
    _ ≤ daysBefore b.year b.month := year ▸ daysBefore_mono_month _ month
    _ < b.dayNumber := Nat.lt_add_of_pos_right b.one_le_day

theorem dayNumber_lt_of_year (year : a.year < b.year) : a.dayNumber < b.dayNumber :=
  calc
    a.dayNumber ≤ daysBefore a.year (a.month + 1) := a.dayNumber_le_daysBefore
    _ ≤ daysBefore a.year 13 := daysBefore_mono_month _ (Nat.succ_le_succ a.month_le)
    _ ≤ daysBefore (a.year + 1) 0 := daysBefore_thirteen _ _
    _ ≤ daysBefore b.year 0 := daysBefore_mono_year year
    _ ≤ daysBefore b.year b.month := daysBefore_mono_month _ (Nat.zero_le _)
    _ < b.dayNumber := Nat.lt_add_of_pos_right b.one_le_day

/-- Dates are compared as their numbers are. -/
theorem compare_eq (a b : Date) : compare a b = compare a.dayNumber b.dayNumber := by
  show (compare a.year b.year).then ((compare a.month b.month).then (compare a.day b.day)) = _
  rcases Nat.lt_trichotomy a.year b.year with earlier | year | later
  · rw [compare_lt_iff_lt.2 earlier, compare_lt_iff_lt.2 (dayNumber_lt_of_year earlier)]
    rfl
  · rcases Nat.lt_trichotomy a.month b.month with earlier | month | later
    · rw [compare_eq_iff_eq.2 year, compare_lt_iff_lt.2 earlier,
        compare_lt_iff_lt.2 (dayNumber_lt_of_month year earlier)]
      rfl
    · rw [compare_eq_iff_eq.2 year, compare_eq_iff_eq.2 month, dayNumber, dayNumber, year, month,
        Nat.compare_eq_ite_lt, Nat.compare_eq_ite_lt]
      simp only [Nat.add_lt_add_iff_left]
      rfl
    · rw [compare_eq_iff_eq.2 year, compare_gt_iff_gt.2 later,
        compare_gt_iff_gt.2 (dayNumber_lt_of_month year.symm later)]
      rfl
  · rw [compare_gt_iff_gt.2 later, compare_gt_iff_gt.2 (dayNumber_lt_of_year later)]
    rfl

/-- Comparing dates is comparing their numbers. -/
theorem compares_dayNumber (a b : Date) : (compare a b).Compares a.dayNumber b.dayNumber := by
  rw [compare_eq]
  exact compares_of_lt Nat.compare_eq_lt.1 a.dayNumber b.dayNumber

/-- No two dates are the same day. -/
theorem dayNumber_inj : a.dayNumber = b.dayNumber ↔ a = b := by
  refine ⟨fun number => ?_, congrArg dayNumber⟩
  have same : compare a b = .eq := (compare_eq a b).trans (compare_eq_iff_eq.2 number)
  obtain ⟨year, rest⟩ := Ordering.then_eq_eq.1 same
  obtain ⟨month, day⟩ := Ordering.then_eq_eq.1 rest
  obtain ⟨y, m, d⟩ := a
  obtain ⟨y', m', d'⟩ := b
  cases compare_eq_iff_eq.1 year
  cases compare_eq_iff_eq.1 month
  cases compare_eq_iff_eq.1 day
  rfl

end Date

end FlatDB
