import Baley.Json.Scan
import Mathlib.Algebra.Group.Int.Defs

/-!
# UTC instants

The one text form of time the store takes from its callers.
-/

namespace Baley

open Json

/-- A UTC instant with nanosecond precision, on a fixed day of 86,400 seconds. -/
structure UtcInstant where
  seconds : Int
  nanos : Nat
  deriving DecidableEq, Repr

namespace UtcInstant

/-- Instants are ordered by their seconds, then their nanoseconds. -/
instance : LE UtcInstant where
  le first second :=
    first.seconds < second.seconds ∨ first.seconds = second.seconds ∧ first.nanos ≤ second.nanos

instance (first second : UtcInstant) : Decidable (first ≤ second) :=
  inferInstanceAs (Decidable (_ ∨ _))

theorem le_def {first second : UtcInstant} :
    first ≤ second ↔
      first.seconds < second.seconds ∨
        first.seconds = second.seconds ∧ first.nanos ≤ second.nanos := Iff.rfl

end UtcInstant

/-- The number written in decimal digits. -/
def digits (bytes : List UInt8) : Option Nat :=
  bytes.foldlM (fun n byte =>
    if 48 ≤ byte ∧ byte ≤ 57 then some (n * 10 + (byte.toNat - 48)) else none) 0

/-- Gregorian days from a civil date, with floor division for year zero's January. -/
def civilDays (year month day : Int) : Int :=
  let y := if month ≤ 2 then year - 1 else year
  let era := y / 400
  let yoe := y - era * 400
  let m := month + if month > 2 then -3 else 9
  let doy := (153 * m + 2) / 5 + day - 1
  let doe := yoe * 365 + yoe / 4 - yoe / 100 + doy
  era * 146097 + doe

/-- The civil date of Gregorian days. -/
def civilDate (days : Int) : Int × Int × Int :=
  let era := days / 146097
  let doe := days - era * 146097
  let yoe := (doe - doe / 1460 + doe / 36524 - doe / 146096) / 365
  let year := yoe + era * 400
  let doy := doe - (365 * yoe + yoe / 4 - yoe / 100)
  let mp := (5 * doy + 2) / 153
  let day := doy - (153 * mp + 2) / 5 + 1
  let month := mp + if mp < 10 then 3 else -9
  let year := year + if month ≤ 2 then 1 else 0
  (year, month, day)

/-- A number where it fits 64 bits with a sign. -/
def checkedI64 (n : Int) : Option Int :=
  if -2 ^ 63 ≤ n ∧ n < 2 ^ 63 then some n else none

/-- A number in decimal digits, its sign counted in the width that zeros fill. -/
def padded (width : Nat) (n : Int) : List Char :=
  if n < 0 then '-' :: (Nat.toDigits 10 n.natAbs).leftpad (width - 1) '0'
  else (Nat.toDigits 10 n.natAbs).leftpad width '0'

def daysInMonth (year month : Nat) : Nat :=
  let leap := year % 4 = 0 ∧ (year % 100 ≠ 0 ∨ year % 400 = 0)
  match month with
  | 2 => if leap then 29 else 28
  | 4 | 6 | 9 | 11 => 30
  | _ => 31

/-- The nanoseconds of an optional fraction of one to nine digits. -/
def fractionNanos : List UInt8 → Option Nat
  | [] => some 0
  | point :: fraction =>
      if point = 46 ∧ 1 ≤ fraction.length ∧ fraction.length ≤ 9 then
        (digits fraction).map fun n => n * 10 ^ (9 - fraction.length)
      else none

namespace UtcInstant

/-- Parse `YYYY-MM-DDTHH:MM:SS[.f{1,9}]Z`, without offsets or leap seconds. -/
def parse (value : String) : Option UtcInstant :=
  let b := utf8 value.toList
  if b.length < 20 ∨ b[4]? ≠ some 45 ∨ b[7]? ≠ some 45 ∨ b[10]? ≠ some 84 ∨ b[13]? ≠ some 58 ∨
      b[16]? ≠ some 58 ∨ b.getLast? ≠ some 90 then none
  else do
    let year ← digits (b.take 4)
    let month ← digits ((b.drop 5).take 2)
    let day ← digits ((b.drop 8).take 2)
    let hour ← digits ((b.drop 11).take 2)
    let minute ← digits ((b.drop 14).take 2)
    let second ← digits ((b.drop 17).take 2)
    if month < 1 ∨ 12 < month ∨ 23 < hour ∨ 59 < minute ∨ 59 < second then none
    else if day = 0 ∨ daysInMonth year month < day then none
    else do
      let nanos ← fractionNanos ((b.drop 19).dropLast)
      some
        { seconds := civilDays year month day * 86400 + (hour * 3600 + minute * 60 + second)
          nanos }

/-- The instant of Unix seconds and a nanosecond fraction. -/
def fromUnix (seconds : Int) (nanos : Nat) : Option UtcInstant := do
  let seconds ← checkedI64 (seconds + civilDays 1970 1 1 * 86400)
  if nanos ≥ 1000000000 ∨ seconds < civilDays 0 1 1 * 86400 ∨
      seconds ≥ civilDays 10000 1 1 * 86400 then none
  else some { seconds, nanos }

/-- Add whole seconds, refusing an instant after the end of year 9999. -/
def plusSeconds (instant : UtcInstant) (seconds : Nat) : Option UtcInstant := do
  let added ← checkedI64 seconds
  let seconds ← checkedI64 (instant.seconds + added)
  let last := civilDays 9999 12 31 * 86400 + 86399
  if seconds > last then none
  else some { instant with seconds }

/-- The text of an instant, with all nine digits of its fraction. -/
def display (instant : UtcInstant) : String :=
  let (year, month, day) := civilDate (instant.seconds / 86400)
  let time := instant.seconds % 86400
  String.ofList <|
    padded 4 year ++ '-' :: padded 2 month ++ '-' :: padded 2 day ++ 'T' :: padded 2 (time / 3600) ++
      ':' :: padded 2 (time / 60 % 60) ++ ':' :: padded 2 (time % 60) ++
      '.' :: padded 9 instant.nanos ++ ['Z']

end UtcInstant

example : UtcInstant.parse "1970-01-01T00:00:00Z" = some ⟨civilDays 1970 1 1 * 86400, 0⟩ := by
  decide

end Baley
