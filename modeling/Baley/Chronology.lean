import Baley.Stamp

/-!
# The store's account of time

Parsing is gone through once more with every lookup and sum that the code could panic at.  With
that, what the instants of the store mean is stated as a whole.
-/

namespace Baley

open Json Calendar Decimal

/-! ## Reading panics nowhere -/

/-- A value that the code panics without. -/
def orPanic {α : Type} (value : Option α) : OptionT Option α :=
  OptionT.lift value

/-- A number of 32 bits, whose overflow panics. -/
def checkedU32 (n : Nat) : OptionT Option Nat :=
  orPanic (if n < 2 ^ 32 then some n else none)

/-- A range of bytes, which panics where it ends before it starts or lies outside. -/
def byteRange (bytes : List UInt8) (start stop : Nat) : OptionT Option (List UInt8) :=
  orPanic (if start ≤ stop ∧ stop ≤ bytes.length then some ((bytes.drop start).take (stop - start))
    else none)

/-- A byte at a place that must be a mark. -/
def requireMark (bytes : List UInt8) (place : Nat) (mark : UInt8) : OptionT Option Unit := do
  let byte ← orPanic bytes[place]?
  if byte = mark then pure () else failure

/-- The digits of a number of 32 bits. -/
def digitsU32 (bytes : List UInt8) : OptionT Option Nat :=
  bytes.foldlM (fun n byte =>
    if 48 ≤ byte ∧ byte ≤ 57 then do
      let shifted ← checkedU32 (n * 10)
      checkedU32 (shifted + (byte.toNat - 48))
    else failure) 0

/-- Parsing with every lookup and every sum that may panic. -/
def UtcInstant.parseOrPanic (value : String) : OptionT Option UtcInstant := do
  let b := utf8 value.toList
  if b.length < 20 then failure
  else do
    requireMark b 4 45
    requireMark b 7 45
    requireMark b 10 84
    requireMark b 13 58
    requireMark b 16 58
    if b.getLast? ≠ some 90 then failure
    else do
      let year ← digitsU32 (← byteRange b 0 4)
      let month ← digitsU32 (← byteRange b 5 7)
      let day ← digitsU32 (← byteRange b 8 10)
      let hour ← digitsU32 (← byteRange b 11 13)
      let minute ← digitsU32 (← byteRange b 14 16)
      let second ← digitsU32 (← byteRange b 17 19)
      if month < 1 ∨ 12 < month ∨ 23 < hour ∨ 59 < minute ∨ 59 < second then failure
      else do
        let february := if year % 4 = 0 ∧ (year % 100 ≠ 0 ∨ year % 400 = 0) then 29 else 28
        let days ← orPanic [31, february, 31, 30, 31, 30, 31, 31, 30, 31, 30, 31][month - 1]?
        if day = 0 ∨ days < day then failure
        else do
          let nanos ← nanosOrPanic (← byteRange b 19 (b.length - 1))
          let hours ← checkedU32 (hour * 3600)
          let minutes ← checkedU32 (minute * 60)
          let time ← checkedU32 (hours + minutes + second)
          let midnight ← orPanic (checkedI64 (civilDays year month day * 86400))
          let seconds ← orPanic (checkedI64 (midnight + time))
          pure { seconds, nanos }
where
  /-- The nanoseconds of the fraction, scaled within 32 bits. -/
  nanosOrPanic : List UInt8 → OptionT Option Nat
    | [] => pure 0
    | point :: fraction =>
        if point = 46 ∧ 1 ≤ fraction.length ∧ fraction.length ≤ 9 then do
          checkedU32 ((← digitsU32 fraction) * (← checkedU32 (10 ^ (9 - fraction.length))))
        else failure

/-- A computation that does not panic and ends as another one says. -/
def EndsAs {α : Type} (checked : OptionT Option α) (result : Option α) : Prop :=
  checked.run = some result

namespace EndsAs

variable {α β : Type}

theorem pure (value : α) : EndsAs (Pure.pure value) (some value) := rfl

theorem failure : EndsAs (Alternative.failure : OptionT Option α) none := rfl

theorem orPanic {option : Option α} {value : α} (found : option = some value) :
    EndsAs (Baley.orPanic option) (some value) := by
  rw [found]
  rfl

theorem bind {checked : OptionT Option α} {result : Option α} {next : α → OptionT Option β}
    {next' : α → Option β} (ends : EndsAs checked result)
    (next_ends : ∀ value, result = some value → EndsAs (next value) (next' value)) :
    EndsAs (checked >>= next) (result.bind next') := by
  unfold EndsAs at ends
  cases result with
  | none =>
      unfold EndsAs
      rw [OptionT.run_bind, ends]
      rfl
  | some value =>
      unfold EndsAs
      rw [OptionT.run_bind, ends]
      exact next_ends value rfl

/-- A step that cannot fail leaves the rest to decide. -/
theorem step {checked : OptionT Option α} {value : α} {next : α → OptionT Option β}
    {result : Option β} (ends : EndsAs checked (some value)) (next_ends : EndsAs (next value) result) :
    EndsAs (checked >>= next) result := by
  have whole : EndsAs (checked >>= next) ((some value).bind fun _ => result) :=
    ends.bind fun other same => by rwa [← Option.some.inj same]
  exact whole

/-- A condition that both refuse. -/
theorem refusing {refused : Prop} [Decidable refused] {checked : OptionT Option α} {result : Option α}
    (ends : ¬refused → EndsAs checked result) :
    EndsAs (if refused then Alternative.failure else checked) (if refused then none else result) := by
  split_ifs with holds
  · exact failure
  · exact ends holds

theorem checkedU32 {n : Nat} (fits : n < 2 ^ 32) : EndsAs (Baley.checkedU32 n) (some n) :=
  orPanic (if_pos fits)

theorem byteRange {bytes : List UInt8} (start stop : Nat) (ordered : start ≤ stop)
    (inside : stop ≤ bytes.length) :
    EndsAs (Baley.byteRange bytes start stop) (some ((bytes.drop start).take (stop - start))) :=
  orPanic (if_pos ⟨ordered, inside⟩)

theorem requireMark {bytes : List UInt8} {place : Nat} (inside : place < bytes.length)
    (mark : UInt8) :
    EndsAs (Baley.requireMark bytes place mark)
      (if bytes[place]? = some mark then some () else none) := by
  refine step (orPanic (List.getElem?_eq_getElem inside)) ?_
  simp only [List.getElem?_eq_getElem inside, Option.some.injEq]
  split_ifs
  · exact pure ()
  · exact failure

/-- Nine digits fit 32 bits. -/
theorem digitsU32 {bytes : List UInt8} (short : bytes.length ≤ 9) :
    EndsAs (Baley.digitsU32 bytes) (digits bytes) := by
  induction bytes using List.reverseRecOn with
  | nil => exact pure 0
  | append_singleton bytes byte ih =>
      rw [List.length_append, List.length_singleton] at short
      rw [digits_append, Baley.digitsU32, List.foldlM_append]
      refine bind (ih (by omega)) fun n n_read => ?_
      have n_lt : n < 10 ^ 8 :=
        (eq_fixed_of_digits n_read).1.trans_le (Nat.pow_le_pow_right (by norm_num) (by omega))
      rw [List.foldlM_cons]
      split_ifs with is_digit
      · have byte_le := is_digit.2
        rw [UInt8.le_iff_toNat_le] at byte_le
        change byte.toNat ≤ 57 at byte_le
        refine step (step (checkedU32 (by omega)) (checkedU32 (by omega))) ?_
        exact pure _
      · rfl

theorem nanosOrPanic (bytes : List UInt8) :
    EndsAs (UtcInstant.parseOrPanic.nanosOrPanic bytes) (fractionNanos bytes) := by
  cases bytes with
  | nil => exact pure 0
  | cons point fraction =>
      rw [UtcInstant.parseOrPanic.nanosOrPanic, fractionNanos]
      split_ifs with shape
      · obtain ⟨-, long, short⟩ := shape
        rw [Option.map_eq_bind]
        refine bind (digitsU32 short) fun n n_read => ?_
        have n_lt := (eq_fixed_of_digits n_read).1
        have scale_lt : 10 ^ (9 - fraction.length) < 2 ^ 32 :=
          (Nat.pow_le_pow_right (by norm_num) (by omega : 9 - fraction.length ≤ 9)).trans_lt
            (by norm_num)
        refine step (checkedU32 scale_lt) (checkedU32 ?_)
        calc n * 10 ^ (9 - fraction.length)
            < 10 ^ fraction.length * 10 ^ (9 - fraction.length) :=
              Nat.mul_lt_mul_of_pos_right n_lt (by positivity)
          _ = 10 ^ 9 := by rw [← pow_add, Nat.add_sub_cancel' short]
          _ < 2 ^ 32 := by norm_num
      · exact failure

end EndsAs

/-- The table of the days of the months. -/
theorem monthTable_eq (year month : Nat) (month_pos : 1 ≤ month) (month_le : month ≤ 12) :
    [31, if year % 4 = 0 ∧ (year % 100 ≠ 0 ∨ year % 400 = 0) then 29 else 28, 31, 30, 31, 30, 31, 31,
      30, 31, 30, 31][month - 1]? = some (daysInMonth year month) := by
  interval_cases month <;> rfl

theorem guard_or {α β : Type} [DecidableEq β] {found wanted : β} {otherwise : Prop}
    [Decidable otherwise] (rest : Option α) :
    (if found ≠ wanted ∨ otherwise then none else rest) =
      (if found = wanted then some () else none).bind fun _ => if otherwise then none else rest := by
  by_cases same : found = wanted
  · simp [same]
  · simp [same]

/-- The seconds of a date of the years 0000 to 9999 are far from overflowing. -/
theorem midnight_fits {year month day : Nat} (year_lt : year < 10 ^ 4) (month_pos : 1 ≤ month)
    (month_le : month ≤ 12) (day_pos : day ≠ 0) (day_le : day ≤ daysInMonth year month) :
    -5184000 ≤ civilDays year month day * 86400 ∧ civilDays year month day * 86400 < 10 ^ 12 := by
  rw [daysInMonth_eq year month_pos month_le] at day_le
  have valid : (⟨year, month, day⟩ : Date).Valid :=
    ⟨month_pos, month_le, Nat.one_le_iff_ne_zero.mpr day_pos, day_le⟩
  have days_eq := civilDays_eq valid
  obtain ⟨low, high⟩ := (UtcInstant.year_range_iff valid).mp (by simp only; omega)
  simp only at days_eq
  rw [← days_eq] at low high
  rw [UtcInstant.first_days] at low
  rw [UtcInstant.after_days] at high
  omega

/-- Whatever the text, parsing looks up no byte out of range and overflows nothing. -/
theorem parseOrPanic_ends (value : String) :
    EndsAs (UtcInstant.parseOrPanic value) (UtcInstant.parse value) := by
  unfold UtcInstant.parseOrPanic UtcInstant.parse
  simp only
  generalize utf8 value.toList = b
  by_cases short : b.length < 20
  · rw [if_pos short, if_pos (.inl short)]
    exact .failure
  rw [if_neg short]
  have long := not_lt.mp short
  simp only [or_iff_right short, guard_or]
  refine .bind (.requireMark (by omega) 45) fun _ _ => ?_
  refine .bind (.requireMark (by omega) 45) fun _ _ => ?_
  refine .bind (.requireMark (by omega) 84) fun _ _ => ?_
  refine .bind (.requireMark (by omega) 58) fun _ _ => ?_
  refine .bind (.requireMark (by omega) 58) fun _ _ => ?_
  refine .refusing fun _ => ?_
  refine .step (.byteRange 0 4 (by norm_num) (by omega)) ?_
  refine .bind (.digitsU32 (by simp)) fun year year_read => ?_
  refine .step (.byteRange 5 7 (by norm_num) (by omega)) ?_
  refine .bind (.digitsU32 (by simp)) fun month _ => ?_
  refine .step (.byteRange 8 10 (by norm_num) (by omega)) ?_
  refine .bind (.digitsU32 (by simp)) fun day day_read => ?_
  refine .step (.byteRange 11 13 (by norm_num) (by omega)) ?_
  refine .bind (.digitsU32 (by simp)) fun hour _ => ?_
  refine .step (.byteRange 14 16 (by norm_num) (by omega)) ?_
  refine .bind (.digitsU32 (by simp)) fun minute _ => ?_
  refine .step (.byteRange 17 19 (by norm_num) (by omega)) ?_
  refine .bind (.digitsU32 (by simp)) fun second _ => ?_
  refine .refusing fun clock => ?_
  have year_lt : year < 10 ^ 4 := (digits_eq_some_iff (by simp; omega)).mp year_read |>.1
  refine .step (.orPanic (monthTable_eq year month (by omega) (by omega))) ?_
  refine .refusing fun date => ?_
  have rest_eq : (b.drop 19).take (b.length - 1 - 19) = (b.drop 19).dropLast := by
    rw [List.dropLast_eq_take, List.length_drop]
    congr 1
  refine .step (.byteRange 19 (b.length - 1) (by omega) (by omega)) ?_
  rw [rest_eq]
  refine .bind (.nanosOrPanic _) fun nanos _ => ?_
  refine .step (.checkedU32 (by omega)) ?_
  refine .step (.checkedU32 (by omega)) ?_
  refine .step (.checkedU32 (by omega)) ?_
  obtain ⟨low, high⟩ := midnight_fits year_lt (by omega) (by omega) (by omega) (by omega : day ≤ daysInMonth year month)
  refine .step (.orPanic (if_pos (by omega))) ?_
  refine .step (.orPanic (if_pos (by push_cast; omega))) ?_
  exact .pure _

/-! ## Instants -/

/-- What is displayed is a text of the calendar and reads back; exactly these texts are read, without
a panic; instants are in the order of time, which is the order of the bytes displayed; Unix seconds
count from the first day of 1970; and seconds are added exactly within the year 9999. -/
theorem utcInstants_exact :
    (∀ instant : UtcInstant, instant.Returned →
      (∃ stamp : Stamp, stamp.Valid ∧ stamp.fraction = some ⟨9, instant.nanos⟩ ∧
        utf8 instant.display.toList = stamp.bytes) ∧
      UtcInstant.parse instant.display = some instant) ∧
    (∀ value instant, UtcInstant.parse value = some instant ↔
      ∃ stamp : Stamp, stamp.Valid ∧ utf8 value.toList = stamp.bytes ∧ instant = stamp.instant) ∧
    (∀ value, EndsAs (UtcInstant.parseOrPanic value) (UtcInstant.parse value)) ∧
    (∀ first second : Stamp, first.Valid → second.Valid →
      (first.instant ≤ second.instant ↔ ¬second.Earlier first)) ∧
    (∀ first second : UtcInstant, first.Returned → second.Returned →
      (first ≤ second ↔ utf8 first.display.toList ≤ utf8 second.display.toList)) ∧
    (∀ seconds nanos instant, UtcInstant.fromUnix seconds nanos = some instant →
      ∃ stamp : Stamp, stamp.Valid ∧ utf8 instant.display.toList = stamp.bytes ∧
        Date.DaysAfter (seconds / 86400) UtcInstant.epoch stamp.date ∧
        (stamp.timeOfDay : Int) = seconds % 86400 ∧ stamp.nanos = nanos) ∧
    ∀ instant : UtcInstant, instant.Returned → ∀ added : Nat,
      (∀ later, instant.plusSeconds added = some later ↔
        later = ⟨instant.seconds + added, instant.nanos⟩ ∧ later.InRange) ∧
      ∀ seconds nanos, UtcInstant.fromUnix seconds nanos = some instant →
        instant.plusSeconds added = UtcInstant.fromUnix (seconds + added) nanos := by
  refine ⟨?_, fun value instant => Stamp.parse_eq_some_iff, parseOrPanic_ends,
    fun first second => Stamp.instant_le_iff, ?_, ?_, ?_⟩
  · intro instant returned
    obtain ⟨stamp, valid, nine, instant_eq, bytes_eq, -⟩ := returned.inRange.exists_stamp
    refine ⟨⟨stamp, valid, nine, bytes_eq⟩, ?_⟩
    rw [Stamp.parse_of_bytes valid bytes_eq, instant_eq]
  · intro first second first_returned second_returned
    exact (UtcInstant.display_le_iff first_returned.inRange second_returned.inRange).symm
  · intro seconds nanos instant constructed
    obtain ⟨rfl, inRange⟩ := UtcInstant.fromUnix_eq_some_iff.mp constructed
    obtain ⟨stamp, valid, nine, -, bytes_eq, number_eq, time_eq⟩ := inRange.exists_stamp
    refine ⟨stamp, valid, bytes_eq, ?_, ?_, by simp [Stamp.nanos, nine]⟩
    · have epoch_valid : UtcInstant.epoch.Valid := ⟨by decide, by decide, by decide, by decide⟩
      rw [Date.daysAfter_iff epoch_valid valid.date, number_eq, UtcInstant.epoch_number]
      simp only
      omega
    · rw [time_eq]
      simp only
      omega
  · intro instant returned added
    refine ⟨fun later => UtcInstant.plusSeconds_eq_some_iff returned.inRange added, ?_⟩
    intro seconds nanos constructed
    obtain ⟨rfl, inRange⟩ := UtcInstant.fromUnix_eq_some_iff.mp constructed
    refine Option.ext fun later => ?_
    rw [UtcInstant.plusSeconds_eq_some_iff inRange, UtcInstant.fromUnix_eq_some_iff]
    simp only [add_right_comm]

end Baley
