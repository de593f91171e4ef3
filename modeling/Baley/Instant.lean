import Baley.Calendar
import Baley.Decimal
import Baley.Time

/-!
# Instants and the calendar

The civil day counts of the store are the numbers of the Gregorian calendar, read in both
directions.
-/

namespace Baley

open Json Calendar Decimal

/-! ## Civil days -/

/-- The first day of the March-based count. -/
def marchZero : Date :=
  ⟨0, 3, 1⟩

theorem marchZero_number : marchZero.number = -305 := by decide

theorem daysInMonth_eq (year : Nat) {month : Nat} (month_pos : 1 ≤ month) (month_le : month ≤ 12) :
    daysInMonth year month = daysIn year month := by
  have leap_iff : year % 4 = 0 ∧ (year % 100 ≠ 0 ∨ year % 400 = 0) ↔ Leap year := by
    unfold Leap
    omega
  interval_cases month <;> simp only [daysInMonth, daysIn, leap_iff] <;> rfl

/-- From March on the months follow one formula, after a February that may have a leap day. -/
theorem daysBeforeMonth_eq (year : Int) {month : Nat} (month_pos : 1 ≤ month)
    (month_le : month ≤ 12) :
    (daysBeforeMonth year month : Int) =
      if month ≤ 2 then 31 * ((month : Int) - 1)
      else (153 * ((month : Int) - 3) + 2) / 5 + 59 + if Leap year then 1 else 0 := by
  by_cases leap : Leap year
  · interval_cases month <;> simp [daysBeforeMonth, daysIn, leap]
  · interval_cases month <;> simp [daysBeforeMonth, daysIn, leap]

/-- The civil days of a date count from the first of March of the year 0. -/
theorem civilDays_eq {date : Date} (valid : date.Valid) :
    civilDays date.year date.month date.day = date.number - marchZero.number := by
  rw [marchZero_number, Date.number, daysBeforeMonth_eq date.year valid.month_pos valid.month_le]
  obtain ⟨year, month, day⟩ := date
  simp only [civilDays, daysBeforeYear]
  by_cases early : month ≤ 2
  · have early_int : (month : Int) ≤ 2 := by exact_mod_cast early
    rw [if_pos early, if_pos early_int, if_neg (by omega)]
    omega
  · have late_int : ¬(month : Int) ≤ 2 := by exact_mod_cast early
    rw [if_neg early, if_neg late_int, if_pos (by omega)]
    unfold Leap
    split_ifs with leap
    · omega
    · omega

/-- A day of a cycle of 400 years falls into a century, a cycle of four years, a year and a day. -/
theorem exists_parts (day : Int) (day_nonneg : 0 ≤ day) (day_lt : day < 146097) :
    ∃ century four year rest : Int, (0 ≤ century ∧ century ≤ 3) ∧ (0 ≤ four ∧ four ≤ 24) ∧
      (0 ≤ year ∧ year ≤ 3) ∧ (0 ≤ rest ∧ rest ≤ 365) ∧
      (rest = 365 → year = 3 ∧ (four = 24 → century = 3)) ∧
      day = 36524 * century + 1461 * four + 365 * year + rest := by
  obtain ⟨century, century_range, left, left_eq, left_range⟩ :
      ∃ century : Int, (0 ≤ century ∧ century ≤ 3) ∧ ∃ left : Int, day = 36524 * century + left ∧
        0 ≤ left ∧ (left < 36524 ∨ left = 36524 ∧ century = 3) := by
    rcases lt_or_ge day 146096 with inside | last
    · exact ⟨day / 36524, by omega, day % 36524, by omega, by omega⟩
    · exact ⟨3, by omega, 36524, by omega, by omega⟩
  obtain ⟨year, year_range, rest, rest_eq, rest_range⟩ :
      ∃ year : Int, (0 ≤ year ∧ year ≤ 3) ∧ ∃ rest : Int, left % 1461 = 365 * year + rest ∧
        0 ≤ rest ∧ (rest < 365 ∨ rest = 365 ∧ year = 3) := by
    rcases lt_or_ge (left % 1461) 1460 with inside | last
    · exact ⟨left % 1461 / 365, by omega, left % 1461 % 365, by omega, by omega⟩
    · exact ⟨3, by omega, 365, by omega, by omega⟩
  exact ⟨century, left / 1461, year, rest, century_range, by omega, year_range, by omega, by omega,
    by omega⟩

/-- The year of a day of a cycle of 400 years. -/
theorem yearOfDay_eq {day century four year rest : Int} (century_range : 0 ≤ century ∧ century ≤ 3)
    (four_range : 0 ≤ four ∧ four ≤ 24) (year_range : 0 ≤ year ∧ year ≤ 3)
    (rest_range : 0 ≤ rest ∧ rest ≤ 365)
    (leap_day : rest = 365 → year = 3 ∧ (four = 24 → century = 3))
    (day_eq : day = 36524 * century + 1461 * four + 365 * year + rest) :
    (day - day / 1460 + day / 36524 - day / 146096) / 365 = 100 * century + 4 * four + year := by
  by_cases last : day = 146096
  · have last_parts : century = 3 ∧ four = 24 ∧ year = 3 := by omega
    obtain ⟨rfl, rfl, rfl⟩ := last_parts
    rw [last]
    rfl
  · have centuries : day / 36524 = century := by omega
    have cycles : day / 146096 = 0 := by omega
    -- A day counted by the shorter years of 1460 days is at most one such year further on.
    obtain ⟨extra, extra_range, quotient, low, high⟩ : ∃ extra : Int, (0 ≤ extra ∧ extra ≤ 1) ∧
        day / 1460 = 25 * century + four + extra ∧
        1460 * extra ≤ 24 * century + four + 365 * year + rest ∧
        24 * century + four + 365 * year + rest < 1460 * (extra + 1) := by
      refine ⟨day / 1460 - 25 * century - four, ?_, ?_, ?_, ?_⟩ <;> omega
    rw [centuries, cycles, quotient]
    have rest_le : 0 ≤ rest - extra ∧ rest - extra < 365 := by omega
    have total : day - (25 * century + four + extra) + century - 0 =
        365 * (100 * century + 4 * four + year) + (rest - extra) := by omega
    rw [total]
    omega

/-- The month and the day that a day counted from March falls on. -/
theorem exists_month {rest : Int} (rest_range : 0 ≤ rest ∧ rest ≤ 365) (year : Int)
    (leap_day : rest = 365 → Leap (year + 1)) :
    ∃ month day : Nat, (⟨if month ≤ 2 then year + 1 else year, month, day⟩ : Date).Valid ∧
      ((5 * rest + 2) / 153 + if (5 * rest + 2) / 153 < 10 then 3 else -9) = month ∧
      rest - (153 * ((5 * rest + 2) / 153) + 2) / 5 + 1 = day ∧
      (month : Int) + (if (month : Int) > 2 then -3 else 9) = (5 * rest + 2) / 153 := by
  obtain ⟨shifted, shifted_eq⟩ : ∃ shifted, (5 * rest + 2) / 153 = shifted := ⟨_, rfl⟩
  rw [shifted_eq]
  have shifted_range : 0 ≤ shifted ∧ shifted ≤ 11 := by omega
  obtain ⟨day, day_eq⟩ : ∃ day : Nat, rest - (153 * shifted + 2) / 5 + 1 = day :=
    ⟨(rest - (153 * shifted + 2) / 5 + 1).toNat, by omega⟩
  by_cases early : shifted < 10
  · obtain ⟨month, month_eq⟩ : ∃ month : Nat, shifted + 3 = month := ⟨(shifted + 3).toNat, by omega⟩
    refine ⟨month, day, ⟨by simp only; omega, by simp only; omega, by simp only; omega, ?_⟩,
      by rw [if_pos early, month_eq], day_eq, by rw [if_pos (by omega)]; omega⟩
    rw [if_neg (by omega)]
    have late : 3 ≤ month := by omega
    have month_le : month ≤ 12 := by omega
    interval_cases month <;> simp [daysIn] <;> omega
  · obtain ⟨month, month_eq⟩ : ∃ month : Nat, shifted - 9 = month := ⟨(shifted - 9).toNat, by omega⟩
    refine ⟨month, day, ⟨by simp only; omega, by simp only; omega, by simp only; omega, ?_⟩,
      by rw [if_neg early, ← month_eq]; rfl, day_eq, by rw [if_neg (by omega)]; omega⟩
    rw [if_pos (by omega)]
    have month_range : month = 1 ∨ month = 2 := by omega
    rcases month_range with rfl | rfl
    · simp [daysIn]
      omega
    · simp only [daysIn, if_true]
      split_ifs with leap
      · omega
      · have early_day : rest ≠ 365 := fun last => leap (leap_day last)
        omega

/-- The civil date of a day count is a date, and that many days from the first of March of the
year 0. -/
theorem exists_civilDate (days : Int) :
    ∃ date : Date, date.Valid ∧ civilDate days = (date.year, (date.month : Int), (date.day : Int)) ∧
      date.number = marchZero.number + days := by
  obtain ⟨day, cycle_day⟩ : ∃ day, days - days / 146097 * 146097 = day := ⟨_, rfl⟩
  obtain ⟨century, four, year, rest, century_range, four_range, year_range, rest_range, leap_day,
    day_eq⟩ := exists_parts day (by omega) (by omega)
  obtain ⟨yoe, yoe_def⟩ : ∃ yoe, 100 * century + 4 * four + year = yoe := ⟨_, rfl⟩
  have by_four : yoe / 4 = 25 * century + four := by omega
  have by_hundred : yoe / 100 = century := by omega
  have doy_eq : day - (365 * yoe + yoe / 4 - yoe / 100) = rest := by
    rw [by_four, by_hundred]
    omega
  have yoe_range : 0 ≤ yoe ∧ yoe < 400 := by omega
  have leap : rest = 365 → Leap (yoe + days / 146097 * 400 + 1) := by
    intro last
    obtain ⟨rfl, century_eq⟩ := leap_day last
    unfold Leap
    omega
  have yoe_eq := yearOfDay_eq century_range four_range year_range rest_range leap_day day_eq
  rw [yoe_def] at yoe_eq
  obtain ⟨month, date_day, valid, month_eq, date_day_eq, shifted_eq⟩ :=
    exists_month rest_range (yoe + days / 146097 * 400) leap
  refine ⟨_, valid, ?_, ?_⟩
  · simp only [civilDate, cycle_day, yoe_eq, doy_eq, month_eq, date_day_eq, Prod.mk.injEq, and_true]
    clear yoe_eq
    split_ifs <;> omega
  · have count := civilDays_eq valid
    clear yoe_eq
    have year_eq : (if (month : Int) ≤ 2 then
        (if month ≤ 2 then yoe + days / 146097 * 400 + 1 else yoe + days / 146097 * 400) - 1
        else if month ≤ 2 then yoe + days / 146097 * 400 + 1 else yoe + days / 146097 * 400) =
          yoe + days / 146097 * 400 := by
      split_ifs <;> omega
    have era_eq : (yoe + days / 146097 * 400) / 400 = days / 146097 := by omega
    have cycle_year : yoe + days / 146097 * 400 - days / 146097 * 400 = yoe := by omega
    simp only [civilDays, year_eq, era_eq, cycle_year, shifted_eq] at count
    omega

/-! ## Digits -/

theorem digits_append (bytes : List UInt8) (byte : UInt8) :
    digits (bytes ++ [byte]) = (digits bytes).bind fun n =>
      if 48 ≤ byte ∧ byte ≤ 57 then some (n * 10 + (byte.toNat - 48)) else none := by
  simp [digits, List.foldlM_append]

/-- The digits of a fixed width read back. -/
theorem digits_fixed {width n : Nat} (fits : n < 10 ^ width) : digits (fixed width n) = some n := by
  induction width generalizing n with
  | zero =>
      obtain rfl : n = 0 := by simpa using fits
      rfl
  | succ width ih =>
      have small : n % 10 < 10 := Nat.mod_lt n (by norm_num)
      have is_digit : 48 ≤ UInt8.ofNat (48 + n % 10) ∧ UInt8.ofNat (48 + n % 10) ≤ 57 := by
        rw [UInt8.le_iff_toNat_le, UInt8.le_iff_toNat_le, toNat_digit small]
        change 48 ≤ 48 + n % 10 ∧ 48 + n % 10 ≤ 57
        omega
      rw [fixed, digits_append, ih (div_lt_of_lt_pow fits), Option.bind_some, if_pos is_digit,
        toNat_digit small]
      refine congrArg some ?_
      omega

/-- Bytes that read as a number are its digits. -/
theorem eq_fixed_of_digits {bytes : List UInt8} {n : Nat} (read : digits bytes = some n) :
    n < 10 ^ bytes.length ∧ bytes = fixed bytes.length n := by
  induction bytes using List.reverseRecOn generalizing n with
  | nil =>
      cases read
      exact ⟨by norm_num, rfl⟩
  | append_singleton bytes byte ih =>
      rw [digits_append, Option.bind_eq_some_iff] at read
      obtain ⟨front, front_read, read⟩ := read
      split_ifs at read with is_digit
      obtain ⟨front_fits, front_eq⟩ := ih front_read
      obtain ⟨low, high⟩ := is_digit
      rw [UInt8.le_iff_toNat_le] at low high
      change 48 ≤ byte.toNat at low
      change byte.toNat ≤ 57 at high
      have n_eq : front * 10 + (byte.toNat - 48) = n := Option.some.inj read
      have quotient : n / 10 = front := by omega
      have digit : UInt8.ofNat (48 + n % 10) = byte := by
        have byte_eq : 48 + n % 10 = byte.toNat := by omega
        rw [byte_eq, UInt8.ofNat_toNat]
      rw [List.length_append, List.length_singleton, Nat.pow_succ]
      refine ⟨by omega, ?_⟩
      rw [fixed, quotient, digit, ← front_eq]

/-- Digits of a known number are read as exactly the numbers that fit it. -/
theorem digits_eq_some_iff {bytes : List UInt8} {width n : Nat} (length_eq : bytes.length = width) :
    digits bytes = some n ↔ n < 10 ^ width ∧ bytes = fixed width n := by
  subst length_eq
  refine ⟨eq_fixed_of_digits, ?_⟩
  rintro ⟨fits, bytes_eq⟩
  rw [bytes_eq]
  exact digits_fixed fits

theorem utf8_digitChar {n : Nat} (small : n < 10) :
    utf8 [Nat.digitChar n] = [UInt8.ofNat (48 + n)] := by
  interval_cases n <;> decide

theorem leftpad_append {α : Type} (width : Nat) (fill last : α) (front : List α) :
    List.leftpad (width + 1) fill (front ++ [last]) = List.leftpad width fill front ++ [last] := by
  simp [List.leftpad]

/-- A number that fits is padded to the digits of its width. -/
theorem utf8_padded {width n : Nat} (fits : n < 10 ^ (width + 1)) :
    utf8 (padded (width + 1) n) = fixed (width + 1) n := by
  have padded_eq (width n : Nat) : padded width n = (Nat.toDigits 10 n).leftpad width '0' := by
    simp [padded]
  rw [padded_eq]
  induction width generalizing n with
  | zero =>
      have small : n < 10 := by simpa using fits
      rw [Nat.toDigits_of_lt_base small, ← List.nil_append [n.digitChar], leftpad_append]
      rw [fixed, Nat.mod_eq_of_lt small]
      exact utf8_digitChar small
  | succ width ih =>
      have front_fits := div_lt_of_lt_pow fits
      have small : n % 10 < 10 := Nat.mod_lt n (by norm_num)
      have padded_last : (Nat.toDigits 10 n).leftpad (width + 1 + 1) '0' =
          (Nat.toDigits 10 (n / 10)).leftpad (width + 1) '0' ++ [Nat.digitChar (n % 10)] := by
        rcases lt_or_ge n 10 with lone | many
        · rw [Nat.toDigits_of_lt_base lone, Nat.div_eq_of_lt lone, Nat.mod_eq_of_lt lone,
            ← List.nil_append [n.digitChar], leftpad_append]
          refine congrArg (· ++ [n.digitChar]) ?_
          simp [List.leftpad, List.replicate_succ']
        · rw [← leftpad_append]
          refine congrArg (List.leftpad _ _) ?_
          rw [← Nat.toDigits_of_lt_base (b := 10) small, Nat.toDigits_append_toDigits (by norm_num)
            (by omega) small]
          refine congrArg (Nat.toDigits 10) ?_
          omega
      rw [padded_last, utf8_append, ih front_fits, utf8_digitChar small]
      rfl

end Baley
