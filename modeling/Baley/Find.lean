import Baley.Slice
import Mathlib.Data.List.DropRight

/-!
# Searches in a text

Each search answers the byte position of what it finds, so that the text can be cut there.
-/

namespace Utf8

/-- Where a text first holds another. -/
def find (pattern : List Char) : List Char → Option Nat
  | [] => if pattern = [] then some 0 else none
  | c :: rest =>
      if pattern.isPrefixOf (c :: rest) then some 0 else (find pattern rest).map (c.utf8Size + ·)

/-- Where a text first holds a character of a kind. -/
def findChar (kind : Char → Bool) : List Char → Option Nat
  | [] => none
  | c :: rest => if kind c then some 0 else (findChar kind rest).map (c.utf8Size + ·)

/-- Where a text last holds a character of a kind. -/
def rfindChar (kind : Char → Bool) : List Char → Option Nat
  | [] => none
  | c :: rest =>
      match rfindChar kind rest with
      | some position => some (c.utf8Size + position)
      | none => if kind c then some 0 else none

theorem find_cons_neg {pattern rest : List Char} {c : Char} (differs : ¬ pattern <+: c :: rest) :
    find pattern (c :: rest) = (find pattern rest).map (c.utf8Size + ·) := by
  rw [find, if_neg (by simpa using differs)]

/-- A found text stands at the position answered. -/
theorem of_find {pattern text : List Char} {position : Nat} (found : find pattern text = some position) :
    ∃ before after, text = before ++ (pattern ++ after) ∧ size before = position := by
  induction text generalizing position with
  | nil =>
      rw [find] at found
      split_ifs at found with empty
      subst empty
      exact ⟨[], [], rfl, Option.some.inj found⟩
  | cons c rest ih =>
      rw [find] at found
      split_ifs at found with here
      · obtain ⟨after, text_eq⟩ := List.isPrefixOf_iff_prefix.mp here
        exact ⟨[], after, text_eq.symm, Option.some.inj found⟩
      · obtain ⟨later, later_found, rfl⟩ := Option.map_eq_some_iff.mp found
        obtain ⟨before, after, rfl, rfl⟩ := ih later_found
        exact ⟨c :: before, after, rfl, size_cons c before⟩

/-- A text no character of which can begin another is passed before that other is found. -/
theorem find_append {pattern before : List Char} (rest : List Char)
    (none_begins : ∀ head tail, before = head ++ tail → tail ≠ [] → ¬ pattern <+: tail ++ rest) :
    find pattern (before ++ rest) = (find pattern rest).map (size before + ·) := by
  induction before with
  | nil => simp
  | cons c before ih =>
      have not_here : ¬ pattern <+: c :: (before ++ rest) :=
        none_begins [] (c :: before) rfl (List.cons_ne_nil _ _)
      rw [List.cons_append, find_cons_neg not_here,
        ih fun head tail before_eq => none_begins (c :: head) tail (by rw [before_eq, List.cons_append]),
        Option.map_map]
      congr 1
      funext position
      simp only [Function.comp_apply, size_cons]
      omega

theorem findChar_eq_none {kind : Char → Bool} {text : List Char} :
    findChar kind text = none ↔ ∀ c ∈ text, kind c = false := by
  induction text with
  | nil => simp [findChar]
  | cons c rest ih => cases is_kind : kind c <;> simp [findChar, is_kind, ih]

/-- The text before the first character of a kind ends where it is found, or where the text does. -/
theorem findChar_getD (kind : Char → Bool) (text : List Char) :
    (findChar kind text).getD (size text) = size (text.takeWhile fun c => !kind c) := by
  induction text with
  | nil => rfl
  | cons c rest ih =>
      cases is_kind : kind c with
      | true => simp [findChar, is_kind]
      | false =>
          simp only [findChar, is_kind, Bool.false_eq_true, if_false, List.takeWhile_cons, Bool.not_false,
            if_true, size_cons, ← ih]
          cases findChar kind rest <;> rfl

theorem rfindChar_eq_none {kind : Char → Bool} {text : List Char} :
    rfindChar kind text = none ↔ ∀ c ∈ text, kind c = false := by
  induction text with
  | nil => simp [rfindChar]
  | cons c rest ih =>
      rw [List.forall_mem_cons, ← ih, rfindChar]
      cases rfindChar kind rest <;> cases kind c <;> simp

/-- The last character of a kind splits a text into what is before it and what is after. -/
theorem of_rfindChar {kind : Char → Bool} {text : List Char} {position : Nat}
    (found : rfindChar kind text = some position) :
    ∃ before c after, text = before ++ c :: after ∧ kind c = true ∧ (∀ d ∈ after, kind d = false) ∧
      size before = position := by
  induction text generalizing position with
  | nil => cases found
  | cons c rest ih =>
      rw [rfindChar] at found
      cases rest_found : rfindChar kind rest with
      | some later =>
          rw [rest_found] at found
          obtain ⟨before, d, after, rfl, d_kind, none_after, rfl⟩ := ih rest_found
          exact ⟨c :: before, d, after, rfl, d_kind, none_after,
            (size_cons c before).trans (Option.some.inj found)⟩
      | none =>
          simp only [rest_found] at found
          split_ifs at found with c_kind
          exact ⟨[], c, rest, rfl, c_kind, rfindChar_eq_none.mp rest_found, Option.some.inj found⟩

/-- What is after the last character of a kind is the longest end of a text without one. -/
theorem rtakeWhile_of_last {kind : Char → Bool} (before : List Char) {c : Char} {after : List Char}
    (c_kind : kind c = true) (none_after : ∀ d ∈ after, kind d = false) :
    (before ++ c :: after).rtakeWhile (fun d => !kind d) = after := by
  have passes : ∀ d ∈ after.reverse, (!kind d) = true := by simpa using none_after
  rw [List.rtakeWhile, List.reverse_append, List.reverse_cons, List.append_assoc,
    List.takeWhile_append_of_pos passes]
  simp [c_kind]

end Utf8
