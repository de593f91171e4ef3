import Baley.Instant

/-!
# Instants as dates and times

A date with a time of day and a fraction of a second has one text for each number of digits of the
fraction.  The store reads exactly these texts, and the order it keeps is the order of time.
-/

namespace Baley

open Json Calendar Decimal

/-- A fraction of a second as it is written: how many digits, and the number they make. -/
structure Fraction where
  width : Nat
  value : Nat

/-- A date and a time of day. -/
structure Stamp where
  date : Date
  hour : Nat
  minute : Nat
  second : Nat
  fraction : Option Fraction

namespace Stamp

/-- A date of the years 0000 to 9999 and a time without leap seconds. -/
structure Valid (stamp : Stamp) : Prop where
  date : stamp.date.Valid
  year_nonneg : 0 ≤ stamp.date.year
  year_le : stamp.date.year ≤ 9999
  hour : stamp.hour ≤ 23
  minute : stamp.minute ≤ 59
  second : stamp.second ≤ 59
  fraction : ∀ fraction ∈ stamp.fraction,
    1 ≤ fraction.width ∧ fraction.width ≤ 9 ∧ fraction.value < 10 ^ fraction.width

/-- What a stamp is written as: `YYYY-MM-DDTHH:MM:SS`, the fraction after a point, and `Z`. -/
def bytes (stamp : Stamp) : List UInt8 :=
  fixed 4 stamp.date.year.toNat ++ 45 :: (fixed 2 stamp.date.month ++ 45 ::
    (fixed 2 stamp.date.day ++ 84 :: (fixed 2 stamp.hour ++ 58 :: (fixed 2 stamp.minute ++ 58 ::
      (fixed 2 stamp.second ++ ((stamp.fraction.elim [] fun fraction =>
        46 :: fixed fraction.width fraction.value) ++ [90]))))))

/-- The nanoseconds of the fraction. -/
def nanos (stamp : Stamp) : Nat :=
  stamp.fraction.elim 0 fun fraction => fraction.value * 10 ^ (9 - fraction.width)

/-- The seconds since midnight. -/
def timeOfDay (stamp : Stamp) : Nat :=
  stamp.hour * 3600 + stamp.minute * 60 + stamp.second

/-- The instant of a stamp, counted in days of 86,400 seconds. -/
def instant (stamp : Stamp) : UtcInstant where
  seconds := (stamp.date.number - marchZero.number) * 86400 + stamp.timeOfDay
  nanos := stamp.nanos

/-- Stamps are ordered by their date, then their time of day, then their fraction. -/
def Earlier (first second : Stamp) : Prop :=
  first.date.Earlier second.date ∨ first.date = second.date ∧
    (first.hour < second.hour ∨ first.hour = second.hour ∧
      (first.minute < second.minute ∨ first.minute = second.minute ∧
        (first.second < second.second ∨ first.second = second.second ∧
          first.nanos < second.nanos)))

variable {stamp first second : Stamp}

theorem Valid.timeOfDay_lt (valid : stamp.Valid) : stamp.timeOfDay < 86400 := by
  have hour := valid.hour
  have minute := valid.minute
  have second := valid.second
  unfold timeOfDay
  omega

theorem Valid.nanos_lt (valid : stamp.Valid) : stamp.nanos < 10 ^ 9 := by
  unfold nanos
  cases fraction_eq : stamp.fraction with
  | none => norm_num
  | some fraction =>
      obtain ⟨-, width_le, fits⟩ := valid.fraction fraction fraction_eq
      calc fraction.value * 10 ^ (9 - fraction.width)
          < 10 ^ fraction.width * 10 ^ (9 - fraction.width) :=
            Nat.mul_lt_mul_of_pos_right fits (by positivity)
        _ = 10 ^ 9 := by rw [← pow_add, Nat.add_sub_cancel' width_le]

/-- The fields that are written fit their widths. -/
theorem Valid.fields_fit (valid : stamp.Valid) :
    stamp.date.year.toNat < 10 ^ 4 ∧ stamp.date.month < 10 ^ 2 ∧ stamp.date.day < 10 ^ 2 ∧
      stamp.hour < 10 ^ 2 ∧ stamp.minute < 10 ^ 2 ∧ stamp.second < 10 ^ 2 := by
  have year_le := valid.year_le
  have month_le := valid.date.month_le
  have day_le := valid.date.day_le
  have days_le : daysIn stamp.date.year stamp.date.month ≤ 31 := by
    unfold daysIn
    split_ifs <;> norm_num
  have hour := valid.hour
  have minute := valid.minute
  have second := valid.second
  omega

/-! ## The order of time -/

/-- The seconds of an earlier date or time of day are fewer, those of the same are the same. -/
theorem seconds_lt_iff (first_valid : first.Valid) (second_valid : second.Valid) :
    first.instant.seconds < second.instant.seconds ↔
      first.date.Earlier second.date ∨ first.date = second.date ∧
        first.timeOfDay < second.timeOfDay := by
  have first_time := first_valid.timeOfDay_lt
  have second_time := second_valid.timeOfDay_lt
  rw [← Date.number_lt_iff first_valid.date second_valid.date]
  have same_iff : first.date = second.date ↔ first.date.number = second.date.number :=
    ⟨fun same => by rw [same], Date.eq_of_number_eq first_valid.date second_valid.date⟩
  rw [same_iff]
  simp only [instant]
  omega

theorem timeOfDay_lt_iff (first_valid : first.Valid) (second_valid : second.Valid) :
    first.timeOfDay < second.timeOfDay ↔
      first.hour < second.hour ∨ first.hour = second.hour ∧
        (first.minute < second.minute ∨ first.minute = second.minute ∧
          first.second < second.second) := by
  have first_minute := first_valid.minute
  have first_second := first_valid.second
  have second_minute := second_valid.minute
  have second_second := second_valid.second
  unfold timeOfDay
  omega

/-- Two stamps have the same seconds exactly when they have the same date and time of day. -/
theorem seconds_eq_iff (first_valid : first.Valid) (second_valid : second.Valid) :
    first.instant.seconds = second.instant.seconds ↔
      first.date = second.date ∧ first.hour = second.hour ∧ first.minute = second.minute ∧
        first.second = second.second := by
  have forward := seconds_lt_iff first_valid second_valid
  have backward := seconds_lt_iff second_valid first_valid
  rw [timeOfDay_lt_iff first_valid second_valid] at forward
  rw [timeOfDay_lt_iff second_valid first_valid] at backward
  constructor
  · intro same
    have not_less := mt forward.mpr same.not_lt
    have not_more := mt backward.mpr same.not_gt
    rcases Date.earlier_trichotomy first.date second.date with earlier | date_eq | later
    · exact absurd (.inl earlier) not_less
    · refine ⟨date_eq, ?_⟩
      simp only [date_eq, true_and, not_or] at not_less not_more
      omega
    · exact absurd (.inl later) not_more
  · rintro ⟨date_eq, hour_eq, minute_eq, second_eq⟩
    simp [instant, timeOfDay, date_eq, hour_eq, minute_eq, second_eq]

/-- Instants are in the order of their stamps. -/
theorem instant_le_iff (first_valid : first.Valid) (second_valid : second.Valid) :
    first.instant ≤ second.instant ↔ ¬second.Earlier first := by
  have later_iff : second.Earlier first ↔ second.instant.seconds < first.instant.seconds ∨
      second.instant.seconds = first.instant.seconds ∧ second.nanos < first.nanos := by
    rw [seconds_lt_iff second_valid first_valid, timeOfDay_lt_iff second_valid first_valid,
      seconds_eq_iff second_valid first_valid, Earlier]
    tauto
  rw [later_iff, UtcInstant.le_def]
  change _ ∨ _ ∧ first.nanos ≤ second.nanos ↔ _
  omega

/-- The order of the bytes of two stamps with all nine digits is the order of time. -/
theorem bytes_lt_iff (first_valid : first.Valid) (second_valid : second.Valid) {n m : Nat}
    (first_nine : first.fraction = some ⟨9, n⟩) (second_nine : second.fraction = some ⟨9, m⟩) :
    first.bytes < second.bytes ↔ first.Earlier second := by
  obtain ⟨year, month, day, hour, minute, sec⟩ := first_valid.fields_fit
  obtain ⟨year', month', day', hour', minute', sec'⟩ := second_valid.fields_fit
  have n_fits := (first_valid.fraction _ first_nine).2.2
  have m_fits := (second_valid.fraction _ second_nine).2.2
  have first_nanos : first.nanos = n := by simp [nanos, first_nine]
  have second_nanos : second.nanos = m := by simp [nanos, second_nine]
  have year_nonneg := first_valid.year_nonneg
  have year_nonneg' := second_valid.year_nonneg
  have date_eq_iff : first.date = second.date ↔ first.date.year.toNat = second.date.year.toNat ∧
      first.date.month = second.date.month ∧ first.date.day = second.date.day := by
    rw [Date.ext_iff]
    omega
  have same_byte (byte : UInt8) : ¬byte < byte := UInt8.lt_irrefl byte
  rw [Earlier, Date.Earlier, date_eq_iff, first_nanos, second_nanos]
  simp only [bytes, first_nine, second_nine, Option.elim_some, List.cons_append,
    fixed_append_lt_iff, List.cons_lt_cons_iff, same_byte, false_or, true_and, year, month, day,
    hour, minute, sec, year', month', day', hour', minute', sec', n_fits, m_fits, List.lt_irrefl,
    and_false, or_false]
  omega

/-! ## Reading -/

/-- A field of a known width with the mark after it. -/
theorem drop_eq_field {bytes : List UInt8} (start width : Nat) {mark : UInt8}
    (found : bytes[start + width]? = some mark) :
    bytes.drop start = (bytes.drop start).take width ++ mark :: bytes.drop (start + width + 1) ∧
      ((bytes.drop start).take width).length = width := by
  obtain ⟨inside, mark_eq⟩ := List.getElem?_eq_some_iff.mp found
  refine ⟨?_, by simp; omega⟩
  have rest : bytes.drop (start + width) = mark :: bytes.drop (start + width + 1) := by
    rw [List.drop_eq_getElem_cons inside, mark_eq]
  calc bytes.drop start
      = (bytes.drop start).take width ++ (bytes.drop start).drop width :=
        (List.take_append_drop width _).symm
    _ = _ := by rw [List.drop_drop, rest]

/-- The bytes of an optional fraction. -/
theorem fractionNanos_eq_some_iff {bytes : List UInt8} {nanos : Nat} :
    fractionNanos bytes = some nanos ↔ ∃ fraction : Option Fraction,
      (∀ written ∈ fraction, 1 ≤ written.width ∧ written.width ≤ 9 ∧
        written.value < 10 ^ written.width) ∧
      bytes = (fraction.elim [] fun written => 46 :: fixed written.width written.value) ∧
      nanos = fraction.elim 0 fun written => written.value * 10 ^ (9 - written.width) := by
  constructor
  · intro read
    cases bytes with
    | nil =>
        cases read
        exact ⟨none, by simp, rfl, rfl⟩
    | cons point rest =>
        rw [fractionNanos] at read
        split_ifs at read with shape
        obtain ⟨rfl, long, short⟩ := shape
        obtain ⟨n, n_read, rfl⟩ := Option.map_eq_some_iff.mp read
        obtain ⟨fits, rest_eq⟩ := eq_fixed_of_digits n_read
        refine ⟨some ⟨rest.length, n⟩, ?_, ?_, rfl⟩
        · intro written written_eq
          cases written_eq
          exact ⟨long, short, fits⟩
        · rw [Option.elim_some, ← rest_eq]
  · rintro ⟨fraction, written_fits, rfl, rfl⟩
    cases fraction with
    | none => rfl
    | some written =>
        obtain ⟨long, short, fits⟩ := written_fits written rfl
        rw [Option.elim_some, fractionNanos, length_fixed, if_pos ⟨rfl, long, short⟩,
          digits_fixed fits]
        rfl

theorem parse_eq_some {value : String} {instant : UtcInstant}
    (read : UtcInstant.parse value = some instant) :
    ∃ stamp : Stamp, stamp.Valid ∧ utf8 value.toList = stamp.bytes ∧ instant = stamp.instant := by
  unfold UtcInstant.parse at read
  simp only at read
  generalize utf8 value.toList = b at read ⊢
  split_ifs at read with shape
  simp only [not_or, not_not, not_lt] at shape
  obtain ⟨long, dash, dash', mark, colon, colon', zulu⟩ := shape
  simp only [Option.bind_eq_bind, Option.bind_eq_some_iff] at read
  obtain ⟨year, year_read, month, month_read, day, day_read, hour, hour_read, minute, minute_read,
    second, second_read, read⟩ := read
  split_ifs at read with clock date
  simp only [Option.bind_eq_some_iff] at read
  obtain ⟨nanos, nanos_read, instant_eq⟩ := read
  obtain ⟨year_split, year_length⟩ := drop_eq_field 0 4 dash
  obtain ⟨month_split, month_length⟩ := drop_eq_field 5 2 dash'
  obtain ⟨day_split, day_length⟩ := drop_eq_field 8 2 mark
  obtain ⟨hour_split, hour_length⟩ := drop_eq_field 11 2 colon
  obtain ⟨minute_split, minute_length⟩ := drop_eq_field 14 2 colon'
  have second_split : b.drop 17 = (b.drop 17).take 2 ++ b.drop 19 := by
    rw [← List.drop_drop (i := 2) (j := 17), List.take_append_drop]
  have second_length : ((b.drop 17).take 2).length = 2 := by simp; omega
  have last_eq : (b.drop 19).getLast? = some 90 := by
    rw [List.getLast?_drop, if_neg (by omega), zulu]
  have end_split : b.drop 19 = (b.drop 19).dropLast ++ [90] :=
    (List.dropLast_append_getLast? _ last_eq).symm
  rw [List.drop_zero] at year_split year_length
  obtain ⟨year_fits, year_eq⟩ := (digits_eq_some_iff year_length).mp year_read
  obtain ⟨-, month_eq⟩ := (digits_eq_some_iff month_length).mp month_read
  obtain ⟨-, day_eq⟩ := (digits_eq_some_iff day_length).mp day_read
  obtain ⟨-, hour_eq⟩ := (digits_eq_some_iff hour_length).mp hour_read
  obtain ⟨-, minute_eq⟩ := (digits_eq_some_iff minute_length).mp minute_read
  obtain ⟨-, second_eq⟩ := (digits_eq_some_iff second_length).mp second_read
  obtain ⟨fraction, fraction_fits, fraction_eq, nanos_eq⟩ := fractionNanos_eq_some_iff.mp nanos_read
  have month_range : 1 ≤ month ∧ month ≤ 12 := by omega
  have date_valid : (⟨year, month, day⟩ : Date).Valid := by
    refine ⟨month_range.1, month_range.2, by simp only; omega, ?_⟩
    rw [← daysInMonth_eq year month_range.1 month_range.2]
    simp only
    omega
  refine ⟨⟨⟨year, month, day⟩, hour, minute, second, fraction⟩, ⟨date_valid, by simp, ?_, ?_, ?_, ?_,
    fraction_fits⟩, ?_, ?_⟩
  · simp only
    omega
  · simp only
    omega
  · simp only
    omega
  · simp only
    omega
  · rw [bytes]
    simp only [Int.toNat_natCast, ← year_eq, ← month_eq, ← day_eq, ← hour_eq, ← minute_eq,
      ← second_eq, ← fraction_eq]
    simp only [Nat.reduceAdd] at year_split month_split day_split hour_split minute_split
    rw [← end_split, ← second_split, ← minute_split, ← hour_split, ← day_split, ← month_split,
      ← year_split]
  · rw [← Option.some.inj instant_eq, Stamp.instant, nanos_eq]
    have days_eq := civilDays_eq date_valid
    simp only at days_eq
    rw [days_eq]
    simp [timeOfDay, Stamp.nanos]

theorem parse_of_bytes {value : String} (valid : stamp.Valid)
    (written : utf8 value.toList = stamp.bytes) :
    UtcInstant.parse value = some stamp.instant := by
  obtain ⟨year_fits, month_fits, day_fits, hour_fits, minute_fits, second_fits⟩ := valid.fields_fit
  have year_read := digits_fixed year_fits
  have month_read := digits_fixed month_fits
  have day_read := digits_fixed day_fits
  have hour_read := digits_fixed hour_fits
  have minute_read := digits_fixed minute_fits
  have second_read := digits_fixed second_fits
  have nanos_read : fractionNanos (stamp.fraction.elim [] fun fraction =>
      46 :: fixed fraction.width fraction.value) = some stamp.nanos :=
    fractionNanos_eq_some_iff.mpr ⟨stamp.fraction, valid.fraction, rfl, rfl⟩
  unfold UtcInstant.parse
  simp only
  rw [written, bytes]
  generalize (stamp.fraction.elim [] fun fraction =>
      46 :: fixed fraction.width fraction.value) = fraction at nanos_read ⊢
  obtain ⟨y, y', y'', y''', year_eq⟩ : ∃ y y' y'' y''', fixed 4 stamp.date.year.toNat =
      [y, y', y'', y'''] := ⟨_, _, _, _, rfl⟩
  have two (n : Nat) : ∃ d d', fixed 2 n = [d, d'] := ⟨_, _, rfl⟩
  obtain ⟨m, m', month_eq⟩ := two stamp.date.month
  obtain ⟨d, d', day_eq⟩ := two stamp.date.day
  obtain ⟨h, h', hour_eq⟩ := two stamp.hour
  obtain ⟨i, i', minute_eq⟩ := two stamp.minute
  obtain ⟨s, s', second_eq⟩ := two stamp.second
  rw [year_eq] at year_read ⊢
  rw [month_eq] at month_read ⊢
  rw [day_eq] at day_read ⊢
  rw [hour_eq] at hour_read ⊢
  rw [minute_eq] at minute_read ⊢
  rw [second_eq] at second_read ⊢
  have clock : ¬(stamp.date.month < 1 ∨ 12 < stamp.date.month ∨ 23 < stamp.hour ∨
      59 < stamp.minute ∨ 59 < stamp.second) := by
    have month_pos := valid.date.month_pos
    have month_le := valid.date.month_le
    have hour_le := valid.hour
    have minute_le := valid.minute
    have second_le := valid.second
    omega
  have year_cast : (stamp.date.year.toNat : Int) = stamp.date.year :=
    Int.toNat_of_nonneg valid.year_nonneg
  have date : ¬(stamp.date.day = 0 ∨
      daysInMonth stamp.date.year.toNat stamp.date.month < stamp.date.day) := by
    have day_pos := valid.date.day_pos
    have day_le := valid.date.day_le
    rw [daysInMonth_eq _ valid.date.month_pos valid.date.month_le, year_cast]
    omega
  rw [if_neg (by simp [List.getLast?_cons])]
  simp only [List.cons_append, List.nil_append, List.take_succ_cons, List.drop_succ_cons,
    List.take_zero, List.drop_zero, List.dropLast_concat, year_read, month_read, day_read, hour_read,
    minute_read, second_read, nanos_read, Option.bind_eq_bind, Option.bind_some, if_neg clock,
    if_neg date, year_cast, civilDays_eq valid.date]
  simp [instant, timeOfDay]

/-- The texts that are read are exactly those of the stamps, and each is read as its instant. -/
theorem parse_eq_some_iff {value : String} {instant : UtcInstant} :
    UtcInstant.parse value = some instant ↔
      ∃ stamp : Stamp, stamp.Valid ∧ utf8 value.toList = stamp.bytes ∧ instant = stamp.instant := by
  refine ⟨parse_eq_some, ?_⟩
  rintro ⟨stamp, valid, written, rfl⟩
  exact parse_of_bytes valid written
end Stamp

/-! ## What the store returns -/

namespace UtcInstant

/-- An instant of the years 0000 to 9999. -/
structure InRange (instant : UtcInstant) : Prop where
  low : civilDays 0 1 1 * 86400 ≤ instant.seconds
  high : instant.seconds < civilDays 10000 1 1 * 86400
  nanos : instant.nanos < 10 ^ 9

/-- The instants that the store's constructors return. -/
inductive Returned : UtcInstant → Prop
  | fromUnix {seconds : Int} {nanos : Nat} {instant : UtcInstant}
      (constructed : UtcInstant.fromUnix seconds nanos = some instant) : Returned instant
  | parse {value : String} {instant : UtcInstant} (read : UtcInstant.parse value = some instant) :
      Returned instant
  | plusSeconds {earlier instant : UtcInstant} {seconds : Nat} (returned : Returned earlier)
      (added : earlier.plusSeconds seconds = some instant) : Returned instant

/-- The first day of Unix time. -/
def epoch : Date :=
  ⟨1970, 1, 1⟩

theorem epoch_number : epoch.number = marchZero.number + civilDays 1970 1 1 := by decide

theorem first_valid : (⟨0, 1, 1⟩ : Date).Valid := ⟨by decide, by decide, by decide, by decide⟩

theorem after_valid : (⟨10000, 1, 1⟩ : Date).Valid := ⟨by decide, by decide, by decide, by decide⟩

theorem first_number : civilDays 0 1 1 = (⟨0, 1, 1⟩ : Date).number - marchZero.number :=
  civilDays_eq first_valid

theorem after_number : civilDays 10000 1 1 = (⟨10000, 1, 1⟩ : Date).number - marchZero.number :=
  civilDays_eq after_valid

/-- The years of a date are told by its number. -/
theorem year_range_iff {date : Date} (valid : date.Valid) :
    0 ≤ date.year ∧ date.year ≤ 9999 ↔ civilDays 0 1 1 ≤ date.number - marchZero.number ∧
      date.number - marchZero.number < civilDays 10000 1 1 := by
  have month_pos := valid.month_pos
  have day_pos := valid.day_pos
  have before := Date.number_lt_iff valid first_valid
  have within := Date.number_lt_iff valid after_valid
  rw [first_number, after_number]
  simp only [Date.Earlier] at before within
  omega

/-- The instants of the stamps are those in range. -/
theorem inRange_of_stamp {stamp : Stamp} (valid : stamp.Valid) : stamp.instant.InRange := by
  obtain ⟨low, high⟩ := (year_range_iff valid.date).mp ⟨valid.year_nonneg, valid.year_le⟩
  have time_lt := valid.timeOfDay_lt
  refine ⟨?_, ?_, valid.nanos_lt⟩
  · simp only [Stamp.instant]
    omega
  · simp only [Stamp.instant]
    omega

variable {instant : UtcInstant}

theorem utf8_mark {mark : Char} (narrow : mark.toNat < 0x80) (rest : Text) :
    utf8 (mark :: rest) = UInt8.ofNat mark.toNat :: utf8 rest := by
  rw [utf8_cons, utf8EncodeChar_of_lt narrow, List.singleton_append]

/-- An instant in range is displayed as a stamp of that instant, with all nine digits of its
fraction. -/
theorem InRange.exists_stamp (inRange : instant.InRange) :
    ∃ stamp : Stamp, stamp.Valid ∧ stamp.fraction = some ⟨9, instant.nanos⟩ ∧
      stamp.instant = instant ∧ utf8 instant.display.toList = stamp.bytes ∧
      stamp.date.number = marchZero.number + instant.seconds / 86400 ∧
      (stamp.timeOfDay : Int) = instant.seconds % 86400 := by
  obtain ⟨low, high, nanos_lt⟩ := inRange
  obtain ⟨date, valid, date_eq, number_eq⟩ := exists_civilDate (instant.seconds / 86400)
  obtain ⟨year_nonneg, year_le⟩ := (year_range_iff valid).mpr (by omega)
  obtain ⟨time, time_eq⟩ : ∃ time : Nat, instant.seconds % 86400 = time :=
    ⟨(instant.seconds % 86400).toNat, by omega⟩
  have stamp_valid : (⟨date, time / 3600, time / 60 % 60, time % 60, some ⟨9, instant.nanos⟩⟩ :
      Stamp).Valid := by
    refine ⟨valid, year_nonneg, year_le, ?_, ?_, ?_, ?_⟩
    · simp only
      omega
    · simp only
      omega
    · simp only
      omega
    · intro fraction fraction_eq
      cases fraction_eq
      exact ⟨by norm_num, le_rfl, nanos_lt⟩
  have time_of_day : time / 3600 * 3600 + time / 60 % 60 * 60 + time % 60 = time := by omega
  refine ⟨_, stamp_valid, rfl, ?_, ?_, number_eq, ?_⟩
  · have seconds_eq : (date.number - marchZero.number) * 86400 + (time : Int) = instant.seconds := by
      omega
    simp [Stamp.instant, Stamp.timeOfDay, time_of_day, Stamp.nanos, seconds_eq]
  · obtain ⟨year_fits, month_fits, day_fits, hour_fits, minute_fits, second_fits⟩ :=
      stamp_valid.fields_fit
    obtain ⟨year, year_eq⟩ : ∃ year : Nat, date.year = year :=
      ⟨date.year.toNat, (Int.toNat_of_nonneg year_nonneg).symm⟩
    have hour_cast : (time : Int) / 3600 = ((time / 3600 : Nat) : Int) := by push_cast; rfl
    have minute_cast : (time : Int) / 60 % 60 = ((time / 60 % 60 : Nat) : Int) := by push_cast; rfl
    have second_cast : (time : Int) % 60 = ((time % 60 : Nat) : Int) := by push_cast; rfl
    simp only [year_eq, Int.toNat_natCast] at year_fits
    simp only at month_fits day_fits hour_fits minute_fits second_fits
    have dash : ('-' : Char).toNat < 0x80 := by decide
    have mark : ('T' : Char).toNat < 0x80 := by decide
    have colon : (':' : Char).toNat < 0x80 := by decide
    have point : ('.' : Char).toNat < 0x80 := by decide
    have zulu : ('Z' : Char).toNat < 0x80 := by decide
    rw [display, date_eq]
    simp only [time_eq, year_eq, hour_cast, minute_cast, second_cast, String.toList_ofList,
      List.append_assoc, List.cons_append, utf8_append, utf8_mark dash, utf8_mark mark,
      utf8_mark colon, utf8_mark point, utf8_mark zulu, utf8_nil, Stamp.bytes, Option.elim_some,
      Int.toNat_natCast, utf8_padded year_fits, utf8_padded month_fits, utf8_padded day_fits,
      utf8_padded hour_fits, utf8_padded minute_fits, utf8_padded second_fits, utf8_padded nanos_lt]
    rfl
  · rw [time_eq, Stamp.timeOfDay, time_of_day]

theorem first_days : civilDays 0 1 1 = -60 := by decide

theorem after_days : civilDays 10000 1 1 = 3652365 := by decide

theorem last_days : civilDays 9999 12 31 = 3652364 := by decide

/-- Unix seconds are accepted exactly in the years 0000 to 9999. -/
theorem fromUnix_eq_some_iff {seconds : Int} {nanos : Nat} :
    fromUnix seconds nanos = some instant ↔
      instant = ⟨seconds + civilDays 1970 1 1 * 86400, nanos⟩ ∧ instant.InRange := by
  have range_iff : InRange ⟨seconds + civilDays 1970 1 1 * 86400, nanos⟩ ↔
      civilDays 0 1 1 * 86400 ≤ seconds + civilDays 1970 1 1 * 86400 ∧
        seconds + civilDays 1970 1 1 * 86400 < civilDays 10000 1 1 * 86400 ∧ nanos < 10 ^ 9 :=
    ⟨fun ⟨low, high, nanos_lt⟩ => ⟨low, high, nanos_lt⟩,
      fun ⟨low, high, nanos_lt⟩ => ⟨low, high, nanos_lt⟩⟩
  constructor
  · intro constructed
    simp only [fromUnix, checkedI64, Option.bind_eq_bind, Option.bind_eq_some_iff] at constructed
    obtain ⟨checked, checked_eq, constructed⟩ := constructed
    split_ifs at checked_eq with fits
    cases checked_eq
    split_ifs at constructed with outside
    obtain rfl := Option.some.inj constructed
    exact ⟨rfl, range_iff.mpr (by omega)⟩
  · rintro ⟨rfl, inRange⟩
    obtain ⟨low, high, nanos_lt⟩ := range_iff.mp inRange
    have fits : -2 ^ 63 ≤ seconds + civilDays 1970 1 1 * 86400 ∧
        seconds + civilDays 1970 1 1 * 86400 < 2 ^ 63 := by
      rw [first_days] at low
      rw [after_days] at high
      omega
    simp only [fromUnix, checkedI64, if_pos fits, Option.bind_eq_bind, Option.bind_some]
    rw [if_neg (by omega)]

/-- Seconds are added exactly where the sum stays within the year 9999. -/
theorem plusSeconds_eq_some_iff {later : UtcInstant} (inRange : instant.InRange) (seconds : Nat) :
    instant.plusSeconds seconds = some later ↔
      later = ⟨instant.seconds + seconds, instant.nanos⟩ ∧ later.InRange := by
  obtain ⟨low, high, nanos_lt⟩ := inRange
  constructor
  · intro added
    simp only [plusSeconds, checkedI64, Option.bind_eq_bind, Option.bind_eq_some_iff] at added
    obtain ⟨count, count_eq, sum, sum_eq, added⟩ := added
    split_ifs at count_eq
    cases count_eq
    split_ifs at sum_eq
    cases sum_eq
    split_ifs at added with beyond
    obtain rfl := Option.some.inj added
    refine ⟨rfl, by simp only; omega, ?_, nanos_lt⟩
    rw [last_days] at beyond
    rw [after_days]
    simp only
    omega
  · rintro ⟨rfl, -, later_high, -⟩
    rw [first_days] at low
    rw [after_days] at later_high
    simp only at later_high
    have count_fits : -2 ^ 63 ≤ (seconds : Int) ∧ (seconds : Int) < 2 ^ 63 := by omega
    have sum_fits : -2 ^ 63 ≤ instant.seconds + seconds ∧ instant.seconds + seconds < 2 ^ 63 := by
      omega
    simp only [plusSeconds, checkedI64, if_pos count_fits, if_pos sum_fits, Option.bind_eq_bind,
      Option.bind_some, last_days]
    rw [if_neg (by omega)]

/-- What the constructors return is in range. -/
theorem Returned.inRange (returned : Returned instant) : instant.InRange := by
  induction returned with
  | fromUnix constructed => exact (fromUnix_eq_some_iff.mp constructed).2
  | parse read =>
      obtain ⟨stamp, valid, -, rfl⟩ := Stamp.parse_eq_some read
      exact inRange_of_stamp valid
  | plusSeconds _ added inRange => exact ((plusSeconds_eq_some_iff inRange _).mp added).2

/-- The order of the bytes of what is displayed is the order of instants. -/
theorem display_le_iff {first second : UtcInstant} (first_range : first.InRange)
    (second_range : second.InRange) :
    utf8 first.display.toList ≤ utf8 second.display.toList ↔ first ≤ second := by
  obtain ⟨stamp, valid, nine, rfl, bytes_eq, -⟩ := first_range.exists_stamp
  obtain ⟨stamp', valid', nine', rfl, bytes_eq', -⟩ := second_range.exists_stamp
  rw [bytes_eq, bytes_eq', Stamp.instant_le_iff valid valid',
    ← Stamp.bytes_lt_iff valid' valid nine' nine]
  exact List.not_lt.symm

end UtcInstant

end Baley
