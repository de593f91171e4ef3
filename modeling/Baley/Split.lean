import Baley.Json.Compact
import Mathlib.Data.List.DropRight

/-!
# Texts taken apart

What a text holds before and after a mark, and its lines.
-/

namespace Baley

open Json

/-- The text before the first `mark` and the text after it. -/
def splitOnce (mark : Char) : Text → Option (Text × Text)
  | [] => none
  | c :: text =>
      if c = mark then some ([], text)
      else (splitOnce mark text).map fun split => (c :: split.1, split.2)

/-- The text after `front`, when it starts with it. -/
def stripFront : Text → Text → Option Text
  | [], text => some text
  | _ :: _, [] => none
  | c :: front, d :: text => if c = d then stripFront front text else none

/-- The text after the last `mark`. -/
def afterLast (mark : Char) (text : Text) : Option Text :=
  if text.contains mark then some (text.rtakeWhile (· != mark)) else none

/-- A line that ended at a line feed, without the carriage return before it. -/
def stripReturn (line : Text) : Text :=
  if line.getLast? = some '\r' then line.dropLast else line

/-- The lines of a text.  Each ends at a line feed, which may follow a carriage return; the last may
end with the text instead. -/
def lines (text : Text) : List Text :=
  let pieces := text.splitOn '\n'
  pieces.dropLast.map stripReturn ++ pieces.getLast?.toList.filter (· ≠ [])

theorem splitOnce_append {mark : Char} {front : Text} (unmarked : mark ∉ front) (back : Text) :
    splitOnce mark (front ++ mark :: back) = some (front, back) := by
  induction front with
  | nil => simp [splitOnce]
  | cons c front ih =>
      rw [List.mem_cons, not_or] at unmarked
      rw [List.cons_append, splitOnce, if_neg (Ne.symm unmarked.1), ih unmarked.2]
      rfl

/-- A text splits where it holds the mark with none before it. -/
theorem splitOnce_eq_some {mark : Char} {text front back : Text} :
    splitOnce mark text = some (front, back) ↔ text = front ++ mark :: back ∧ mark ∉ front := by
  constructor
  · intro split
    induction text generalizing front with
    | nil => cases split
    | cons c text ih =>
        rw [splitOnce] at split
        split_ifs at split with same
        · obtain ⟨rfl, rfl⟩ := Prod.mk.inj (Option.some.inj split)
          exact ⟨by rw [same, List.nil_append], List.not_mem_nil⟩
        · obtain ⟨⟨before, after⟩, later, split_eq⟩ := Option.map_eq_some_iff.mp split
          obtain ⟨rfl, rfl⟩ := Prod.mk.inj split_eq
          obtain ⟨rfl, unmarked⟩ := ih later
          exact ⟨rfl, List.not_mem_cons_of_ne_of_not_mem (Ne.symm same) unmarked⟩
  · rintro ⟨rfl, unmarked⟩
    exact splitOnce_append unmarked back

/-- Where the mark is held, what follows the last one holds none. -/
theorem afterLast_append (mark : Char) {back : Text} (unmarked : mark ∉ back) (front : Text) :
    afterLast mark (front ++ mark :: back) = some back := by
  have held : (front ++ mark :: back).contains mark = true := by simp
  have passes : ∀ c ∈ back.reverse, (c != mark) = true := by
    intro c c_mem
    simpa using ne_of_mem_of_not_mem (List.mem_reverse.mp c_mem) unmarked
  rw [afterLast, if_pos held, List.rtakeWhile, List.reverse_append, List.reverse_cons,
    List.append_assoc, List.takeWhile_append_of_pos passes]
  simp

theorem afterLast_eq_some {mark : Char} {text back : Text} :
    afterLast mark text = some back ↔ (∃ front, text = front ++ mark :: back) ∧ mark ∉ back := by
  constructor
  · intro split
    by_cases held : text.contains mark = true
    · obtain ⟨back', front, reversed, unmarked⟩ :=
        List.eq_append_cons_of_mem (List.mem_reverse.mpr (List.contains_iff_mem.mp held))
      have text_eq : text = front.reverse ++ mark :: back'.reverse := by
        rw [← List.reverse_reverse text, reversed]
        simp
      rw [text_eq, afterLast_append mark (by simpa using unmarked)] at split
      obtain rfl := Option.some.inj split
      exact ⟨⟨front.reverse, text_eq⟩, by simpa using unmarked⟩
    · rw [afterLast, if_neg held] at split
      cases split
  · rintro ⟨⟨front, rfl⟩, unmarked⟩
    exact afterLast_append mark unmarked front

theorem notMem_of_mem_splitOn {mark : Char} {text piece : Text} (piece_mem : piece ∈ text.splitOn mark) :
    mark ∉ piece := by
  induction text generalizing piece with
  | nil =>
      rw [List.splitOn_nil, List.mem_singleton] at piece_mem
      simp [piece_mem]
  | cons c text ih =>
      obtain ⟨first, others, split⟩ := List.exists_cons_of_ne_nil (List.splitOn_ne_nil mark text)
      rw [List.splitOn_cons_eq_if_modifyHead, split] at piece_mem
      rw [split] at ih
      split_ifs at piece_mem with same
      · obtain rfl | held := List.mem_cons.mp piece_mem
        · exact List.not_mem_nil
        · exact ih held
      · obtain rfl | held := List.mem_cons.mp piece_mem
        · have other : mark ≠ c := fun mark_eq => same (by simp [mark_eq])
          exact List.not_mem_cons_of_ne_of_not_mem other (ih List.mem_cons_self)
        · exact ih (List.mem_cons_of_mem first held)

/-- A text is split into what it is joined from. -/
theorem splitOn_eq {mark : Char} {text : Text} {pieces : List Text} (not_empty : pieces ≠ []) :
    text.splitOn mark = pieces ↔
      text = [mark].intercalate pieces ∧ ∀ piece ∈ pieces, mark ∉ piece := by
  constructor
  · rintro rfl
    exact ⟨(List.intercalate_splitOn mark).symm, fun piece piece_mem => notMem_of_mem_splitOn piece_mem⟩
  · rintro ⟨rfl, unmarked⟩
    exact List.splitOn_intercalate mark unmarked not_empty

theorem stripFront_eq_some {front text rest : Text} :
    stripFront front text = some rest ↔ text = front ++ rest := by
  induction front generalizing text with
  | nil => simp [stripFront]
  | cons c front ih =>
      cases text with
      | nil => simp [stripFront]
      | cons d text =>
          rw [stripFront]
          split_ifs with same
          · rw [ih, same, List.cons_append, List.cons.injEq]
            simp
          · simp [Ne.symm same]

theorem notMem_toDigits {n : Nat} {c : Char} (not_digit : c.isDigit = false) :
    c ∉ Nat.toDigits 10 n := by
  intro c_mem
  rw [isDigit_of_mem_toDigits c_mem] at not_digit
  cases not_digit

theorem notMem_repr {i : Int} {c : Char} (not_digit : c.isDigit = false) (not_minus : c ≠ '-') :
    c ∉ i.repr.toList := by
  rw [Int.repr_eq_if]
  split_ifs with nonneg
  · rw [Nat.toList_repr]
    exact notMem_toDigits not_digit
  · rw [String.toList_append, Nat.toList_repr, List.mem_append, not_or]
    exact ⟨by simpa using not_minus, notMem_toDigits not_digit⟩

end Baley
