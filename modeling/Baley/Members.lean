import Baley.Attempt
import Baley.Claim

/-!
# Reading members

How the members of payloads and documents are read, and what a member that was written reads back
as.
-/

namespace Baley

open Json

/-- The largest 32-bit number. -/
def maxU32 : Nat := 2 ^ 32 - 1

/-- A number that fits 32 bits. -/
def asU32 (value : Value) : Option Nat :=
  value.asU64.filter fun n => n ≤ maxU32

def asBool : Value → Option Bool
  | .bool flag => some flag
  | _ => none

/-- A text member of an entry. -/
def textOf (entry : Value) (name : String) : Option String :=
  (entry.get? name).bind Value.asStr

/-- A text, or null for none. -/
def textOrNull : Option String → Value
  | some text => .string text
  | none => .null

@[simp]
theorem asTexts_texts (items : List String) : asTexts (texts items) = some items := by
  unfold asTexts texts
  induction items with
  | nil => rfl
  | cons item items ih =>
      simp only [Value.asArray_array, Option.bind_eq_bind, Option.bind_some, List.map_cons,
        List.mapM_cons, Value.asStr_string] at ih ⊢
      rw [ih]
      rfl

theorem mapM_eq_some_append {α β : Type} {read : α → Option β} {front : List α} {last : α}
    {values : List β} {value : β} (front_eq : front.mapM read = some values)
    (last_eq : read last = some value) : (front ++ [last]).mapM read = some (values ++ [value]) := by
  rw [List.mapM_append, front_eq]
  simp [last_eq]

theorem asU32_ofNat {n : Nat} (fits : n ≤ maxU32) : asU32 (.ofNat n) = some n := by
  have fits64 : n < 2 ^ 64 := lt_of_le_of_lt fits (by decide)
  simp [asU32, Value.asU64_ofNat fits64, fits]

theorem mapM_ofOption_eq_ok {α β ε : Type} {read : α → Option β} {error : ε} {entries : List α}
    {values : List β} :
    (entries.mapM fun entry => Except.ofOption error (read entry)) = .ok values ↔
      entries.mapM read = some values := by
  induction entries generalizing values with
  | nil => simp [pure, Except.pure]
  | cons entry entries ih =>
      simp only [List.mapM_cons, Except.bind_eq_ok, Except.ofOption_eq_ok, ih, Option.bind_eq_bind,
        Option.bind_eq_some_iff, pure, Except.pure, Except.ok.injEq, Option.some.injEq]

theorem asArray_eq_some {value : Value} {items : List Value} :
    value.asArray = some items ↔ value = .array items := by
  cases value <;> simp [Value.asArray]

end Baley
