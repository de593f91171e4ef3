import Mathlib.Algebra.Ring.Int.Defs
import Mathlib.Logic.Function.Iterate
import Mathlib.Tactic.IntervalCases

/-!
# The proleptic Gregorian calendar

A date is followed by the next one, and its number counts how often that happened.
-/

namespace Calendar

/-- A year, a month counted from 1 and a day counted from 1. -/
@[ext]
structure Date where
  year : Int
  month : Nat
  day : Nat
  deriving DecidableEq

/-- Whether a year has a leap day. -/
def Leap (year : Int) : Prop :=
  year % 4 = 0 ∧ (year % 100 ≠ 0 ∨ year % 400 = 0)

instance (year : Int) : Decidable (Leap year) :=
  inferInstanceAs (Decidable (_ ∧ _))

/-- The days of a month. -/
def daysIn (year : Int) (month : Nat) : Nat :=
  if month = 2 then if Leap year then 29 else 28
  else if month = 4 ∨ month = 6 ∨ month = 9 ∨ month = 11 then 30
  else 31

/-- The days of a year before one of its months. -/
def daysBeforeMonth (year : Int) : Nat → Nat
  | 0 => 0
  | 1 => 0
  | month + 2 => daysBeforeMonth year (month + 1) + daysIn year (month + 1)

/-- The days from the year 1 to another year. -/
def daysBeforeYear (year : Int) : Int :=
  365 * (year - 1) + (year - 1) / 4 - (year - 1) / 100 + (year - 1) / 400

namespace Date

/-- A date that exists. -/
structure Valid (date : Date) : Prop where
  month_pos : 1 ≤ date.month
  month_le : date.month ≤ 12
  day_pos : 1 ≤ date.day
  day_le : date.day ≤ daysIn date.year date.month

/-- The following day. -/
def next (date : Date) : Date :=
  if date.day < daysIn date.year date.month then { date with day := date.day + 1 }
  else if date.month < 12 then { date with month := date.month + 1, day := 1 }
  else { year := date.year + 1, month := 1, day := 1 }

/-- The number of a date, one more than that of the day before. -/
def number (date : Date) : Int :=
  daysBeforeYear date.year + daysBeforeMonth date.year date.month + date.day

/-- Dates are ordered by their year, then their month, then their day. -/
def Earlier (first second : Date) : Prop :=
  first.year < second.year ∨ first.year = second.year ∧
    (first.month < second.month ∨ first.month = second.month ∧ first.day < second.day)

/-- One date stands a number of days after another, or before it when the number is negative. -/
def DaysAfter (days : Int) (first last : Date) : Prop :=
  (0 ≤ days ∧ next^[days.toNat] first = last) ∨ (days < 0 ∧ next^[(-days).toNat] last = first)

end Date

theorem daysIn_pos (year : Int) (month : Nat) : 28 ≤ daysIn year month := by
  unfold daysIn
  split_ifs <;> omega

theorem daysBeforeMonth_succ (year : Int) {month : Nat} (pos : 1 ≤ month) :
    daysBeforeMonth year (month + 1) = daysBeforeMonth year month + daysIn year month := by
  obtain ⟨before, rfl⟩ := Nat.exists_eq_add_of_le' pos
  rfl

/-- The days of a whole year. -/
theorem daysBeforeMonth_year (year : Int) :
    daysBeforeMonth year 13 = if Leap year then 366 else 365 := by
  by_cases leap : Leap year
  · rw [if_pos leap]
    simp [daysBeforeMonth, daysIn, leap]
  · rw [if_neg leap]
    simp [daysBeforeMonth, daysIn, leap]

/-- A year is as long as its months. -/
theorem daysBeforeYear_succ (year : Int) :
    daysBeforeYear (year + 1) = daysBeforeYear year + daysBeforeMonth year 13 := by
  rw [daysBeforeMonth_year]
  unfold daysBeforeYear
  split_ifs with leap
  · unfold Leap at leap
    push_cast
    omega
  · unfold Leap at leap
    push_cast
    omega

theorem daysBeforeMonth_le (year : Int) {first second : Nat} (first_pos : 1 ≤ first)
    (before : first < second) :
    daysBeforeMonth year first + daysIn year first ≤ daysBeforeMonth year second := by
  induction second, before using Nat.le_induction with
  | base => rw [Nat.succ_eq_add_one, daysBeforeMonth_succ year first_pos]
  | succ second before ih =>
      rw [daysBeforeMonth_succ year (first_pos.trans (Nat.le_of_succ_le before))]
      omega

theorem daysBeforeYear_le {first second : Int} (before : first < second) :
    daysBeforeYear first + daysBeforeMonth first 13 ≤ daysBeforeYear second := by
  rw [← daysBeforeYear_succ]
  unfold daysBeforeYear
  omega

namespace Date

variable {first second date : Date}

/-- The day after a date is a date. -/
theorem Valid.next (valid : date.Valid) : date.next.Valid := by
  obtain ⟨month_pos, month_le, day_pos, day_le⟩ := valid
  have first_day (year : Int) (month : Nat) : 1 ≤ daysIn year month :=
    Nat.le_of_lt_succ (by have := daysIn_pos year month; omega)
  unfold Date.next
  split_ifs with inside again
  · exact ⟨month_pos, month_le, Nat.le_add_left 1 _, inside⟩
  · exact ⟨Nat.le_add_left 1 _, again, le_rfl, first_day _ _⟩
  · exact ⟨le_rfl, by norm_num, le_rfl, first_day _ _⟩

/-- The next day has the next number. -/
theorem Valid.number_next (valid : date.Valid) : date.next.number = date.number + 1 := by
  obtain ⟨month_pos, month_le, day_pos, day_le⟩ := valid
  unfold Date.next number
  split_ifs with inside again
  · push_cast
    omega
  · have last : date.day = daysIn date.year date.month := by omega
    rw [daysBeforeMonth_succ _ month_pos, last]
    push_cast
    omega
  · have last : date.day = daysIn date.year date.month := by omega
    have december : date.month = 12 := by omega
    have year_eq := daysBeforeYear_succ date.year
    rw [daysBeforeMonth_succ _ (by norm_num : 1 ≤ 12)] at year_eq
    rw [year_eq, last, december]
    push_cast [daysBeforeMonth]
    omega

theorem Valid.iterate_next (valid : date.Valid) (days : Nat) :
    (Date.next^[days] date).Valid ∧ (Date.next^[days] date).number = date.number + days := by
  induction days with
  | zero => exact ⟨valid, by simp⟩
  | succ days ih =>
      rw [Function.iterate_succ_apply']
      refine ⟨ih.1.next, ?_⟩
      rw [ih.1.number_next, ih.2]
      push_cast
      omega

/-- An earlier date has a lower number. -/
theorem Earlier.number_lt (earlier : first.Earlier second) (first_valid : first.Valid)
    (second_valid : second.Valid) : first.number < second.number := by
  obtain ⟨month_pos, month_le, day_pos, day_le⟩ := first_valid
  have second_pos := second_valid.day_pos
  unfold number
  rcases earlier with year_lt | ⟨year_eq, month_lt | ⟨month_eq, day_lt⟩⟩
  · have years_le := daysBeforeYear_le year_lt
    have month_le : _ ≤ daysBeforeMonth first.year 13 :=
      daysBeforeMonth_le first.year month_pos (Nat.lt_succ_of_le month_le)
    omega
  · have month_le := daysBeforeMonth_le first.year month_pos month_lt
    rw [← year_eq]
    omega
  · rw [← year_eq, ← month_eq]
    omega

theorem earlier_trichotomy (first second : Date) :
    first.Earlier second ∨ first = second ∨ second.Earlier first := by
  obtain ⟨year, month, day⟩ := first
  obtain ⟨year', month', day'⟩ := second
  simp only [Earlier, mk.injEq]
  omega

/-- The numbers are in the order of the dates. -/
theorem number_lt_iff (first_valid : first.Valid) (second_valid : second.Valid) :
    first.number < second.number ↔ first.Earlier second := by
  refine ⟨fun less => ?_, fun earlier => earlier.number_lt first_valid second_valid⟩
  rcases earlier_trichotomy first second with earlier | rfl | later
  · exact earlier
  · exact absurd less (lt_irrefl _)
  · exact absurd less (later.number_lt second_valid first_valid).le.not_gt

/-- Dates of one number are one date. -/
theorem eq_of_number_eq (first_valid : first.Valid) (second_valid : second.Valid)
    (number_eq : first.number = second.number) : first = second := by
  rcases earlier_trichotomy first second with earlier | same | later
  · exact absurd number_eq (earlier.number_lt first_valid second_valid).ne
  · exact same
  · exact absurd number_eq (later.number_lt second_valid first_valid).ne'

/-- How many days one date stands after another is told by their numbers. -/
theorem daysAfter_iff (first_valid : first.Valid) (second_valid : second.Valid) (days : Int) :
    DaysAfter days first second ↔ second.number = first.number + days := by
  unfold DaysAfter
  rcases le_or_gt 0 days with ahead | behind
  · obtain ⟨count, rfl⟩ := Int.eq_ofNat_of_zero_le ahead
    obtain ⟨there_valid, there_number⟩ := first_valid.iterate_next count
    rw [Int.toNat_natCast]
    constructor
    · rintro (⟨-, rfl⟩ | ⟨behind, -⟩)
      · exact there_number
      · omega
    · intro number_eq
      exact .inl ⟨ahead, eq_of_number_eq there_valid second_valid (by omega)⟩
  · obtain ⟨count, count_eq⟩ := Int.eq_ofNat_of_zero_le (a := -days) (by omega)
    obtain ⟨there_valid, there_number⟩ := second_valid.iterate_next count
    rw [count_eq, Int.toNat_natCast]
    constructor
    · rintro (⟨ahead, -⟩ | ⟨-, same⟩)
      · omega
      · rw [same] at there_number
        omega
    · intro number_eq
      exact .inr ⟨behind, eq_of_number_eq there_valid first_valid (by omega)⟩

end Date

end Calendar
