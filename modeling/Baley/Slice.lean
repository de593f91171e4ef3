import Mathlib.Algebra.GroupWithZero.Nat
import Mathlib.Data.List.Basic
import Mathlib.Order.Nat
import Mathlib.Tactic.SplitIfs

/-!
# Byte positions in a text

A text is its characters, and a position in it counts the bytes of their UTF-8 form.  A text is cut
only between two characters: at any other position there is nothing before and after.
-/

namespace Utf8

/-- The bytes of a text. -/
def size (text : List Char) : Nat :=
  (text.map Char.utf8Size).sum

/-- The text before and after a byte position, when it stands between two characters. -/
def splitBytes : Nat → List Char → Option (List Char × List Char)
  | 0, text => some ([], text)
  | _ + 1, [] => none
  | position + 1, c :: rest =>
      if c.utf8Size ≤ position + 1 then
        (splitBytes (position + 1 - c.utf8Size) rest).map fun halves => (c :: halves.1, halves.2)
      else none

/-- Whether a byte position stands between two characters. -/
def isCharBoundary (text : List Char) (position : Nat) : Bool :=
  (splitBytes position text).isSome

/-- The text between two byte positions. -/
def slice (start stop : Nat) (text : List Char) : Option (List Char) :=
  if start ≤ stop then do
    let (_, tail) ← splitBytes start text
    let (body, _) ← splitBytes (stop - start) tail
    some body
  else none

@[simp]
theorem size_nil : size [] = 0 := rfl

@[simp]
theorem size_cons (c : Char) (text : List Char) : size (c :: text) = c.utf8Size + size text := by
  simp [size]

@[simp]
theorem size_append (first second : List Char) : size (first ++ second) = size first + size second := by
  simp [size]

theorem size_eq_zero {text : List Char} : size text = 0 ↔ text = [] := by
  cases text with
  | nil => simp
  | cons c rest =>
      have positive := c.utf8Size_pos
      simp only [size_cons, reduceCtorEq, iff_false]
      omega

/-- A text is split where the bytes before are as many as the position. -/
theorem splitBytes_eq_some {position : Nat} {text before after : List Char} :
    splitBytes position text = some (before, after) ↔ text = before ++ after ∧ size before = position := by
  induction text generalizing position before after with
  | nil =>
      cases position with
      | zero =>
          simp only [splitBytes, Option.some.injEq, Prod.mk.injEq, List.nil_eq_append_iff, size_eq_zero]
          constructor
          · rintro ⟨rfl, rfl⟩
            exact ⟨⟨rfl, rfl⟩, rfl⟩
          · rintro ⟨⟨rfl, rfl⟩, -⟩
            exact ⟨rfl, rfl⟩
      | succ position =>
          simp only [splitBytes, reduceCtorEq, List.nil_eq_append_iff, false_iff, not_and]
          rintro ⟨rfl, -⟩
          simp
  | cons c rest ih =>
      have positive := c.utf8Size_pos
      cases position with
      | zero =>
          simp only [splitBytes, Option.some.injEq, Prod.mk.injEq, size_eq_zero]
          constructor
          · rintro ⟨rfl, rfl⟩
            exact ⟨rfl, rfl⟩
          · rintro ⟨text_eq, rfl⟩
            exact ⟨rfl, text_eq⟩
      | succ position =>
          rw [splitBytes]
          split_ifs with fits
          · simp only [Option.map_eq_some_iff, Prod.exists, ih, Prod.mk.injEq]
            constructor
            · rintro ⟨front, back, ⟨rfl, front_size⟩, rfl, rfl⟩
              refine ⟨rfl, ?_⟩
              rw [size_cons, front_size]
              omega
            · rintro ⟨text_eq, before_size⟩
              cases before with
              | nil => simp at before_size
              | cons d front =>
                  obtain ⟨rfl, rest_eq⟩ := List.cons.inj text_eq
                  rw [size_cons] at before_size
                  exact ⟨front, after, ⟨rest_eq, by omega⟩, rfl, rfl⟩
          · refine iff_of_false (by simp) ?_
            rintro ⟨text_eq, before_size⟩
            cases before with
            | nil => simp at before_size
            | cons d front =>
                obtain ⟨rfl, -⟩ := List.cons.inj text_eq
                rw [size_cons] at before_size
                omega

theorem splitBytes_size (before after : List Char) :
    splitBytes (size before) (before ++ after) = some (before, after) :=
  splitBytes_eq_some.mpr ⟨rfl, rfl⟩

theorem isCharBoundary_iff {text : List Char} {position : Nat} :
    isCharBoundary text position = true ↔ ∃ before after, text = before ++ after ∧ size before = position := by
  simp [isCharBoundary, Option.isSome_iff_exists, splitBytes_eq_some]

theorem isCharBoundary_zero (text : List Char) : isCharBoundary text 0 = true :=
  isCharBoundary_iff.mpr ⟨[], text, rfl, rfl⟩

theorem slice_eq_some {start stop : Nat} {text body : List Char} :
    slice start stop text = some body ↔
      ∃ before after, text = before ++ (body ++ after) ∧ size before = start ∧ start + size body = stop := by
  unfold slice
  split_ifs with ordered
  · simp only [Option.bind_eq_bind, Option.bind_eq_some_iff, Prod.exists, splitBytes_eq_some,
      Option.some.injEq]
    constructor
    · rintro ⟨before, tail, ⟨rfl, before_size⟩, body, after, ⟨rfl, body_size⟩, rfl⟩
      exact ⟨before, after, rfl, before_size, by omega⟩
    · rintro ⟨before, after, rfl, before_size, body_size⟩
      exact ⟨before, body ++ after, ⟨rfl, before_size⟩, body, after, ⟨rfl, by omega⟩, rfl⟩
  · refine iff_of_false (by simp) ?_
    rintro ⟨before, after, -, -, body_size⟩
    omega

end Utf8
