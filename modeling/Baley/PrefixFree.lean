import Mathlib.Data.List.Basic

/-!
# Prefix-free codes

Codes that say where they end can be written one after another and taken apart again.
-/

/-- Whatever follows, the code of one valid value is told apart from the code of any other. -/
def PrefixFree {α β : Type} (valid : α → Prop) (code : α → List β) : Prop :=
  ∀ a b : α, valid a → valid b → ∀ rest rest' : List β,
    code a ++ rest = code b ++ rest' → a = b ∧ rest = rest'

namespace PrefixFree

variable {α β : Type} {valid : α → Prop} {code : α → List β}

theorem injective (free : PrefixFree valid code) {a b : α} (a_valid : valid a) (b_valid : valid b)
    (same : code a = code b) : a = b :=
  (free a b a_valid b_valid [] [] (by rw [same])).1

/-- A decoder that leaves what follows a code alone shows the code prefix-free. -/
theorem of_decoder {decode : List β → Option (α × List β)}
    (decodes : ∀ a, valid a → ∀ rest, decode (code a ++ rest) = some (a, rest)) :
    PrefixFree valid code := by
  intro a b a_valid b_valid rest rest' same
  have decoded := decodes a a_valid rest
  rw [same, decodes b b_valid rest'] at decoded
  obtain ⟨value_eq, rest_eq⟩ := Prod.mk.inj (Option.some.inj decoded)
  exact ⟨value_eq.symm, rest_eq.symm⟩

/-- Lists of one length, each written code by code. -/
theorem flatMap_of_length (free : PrefixFree valid code) {front front' : List α}
    (front_valid : ∀ a ∈ front, valid a) (front'_valid : ∀ a ∈ front', valid a)
    {rest rest' : List β} (length_eq : front.length = front'.length)
    (same : front.flatMap code ++ rest = front'.flatMap code ++ rest') :
    front = front' ∧ rest = rest' := by
  induction front generalizing front' with
  | nil =>
      obtain rfl := List.length_eq_zero_iff.mp length_eq.symm
      exact ⟨rfl, same⟩
  | cons a front ih =>
      cases front' with
      | nil => cases length_eq
      | cons b front' =>
          rw [List.forall_mem_cons] at front_valid front'_valid
          simp only [List.flatMap_cons, List.append_assoc] at same
          obtain ⟨rfl, tails_eq⟩ := free a b front_valid.1 front'_valid.1 _ _ same
          obtain ⟨rfl, rest_eq⟩ :=
            ih front_valid.2 front'_valid.2 (Nat.succ.inj length_eq) tails_eq
          exact ⟨rfl, rest_eq⟩

/-- Lists of any length, when what follows starts as no code does. -/
theorem flatMap_of_stop (free : PrefixFree valid code) {front front' : List α}
    (front_valid : ∀ a ∈ front, valid a) (front'_valid : ∀ a ∈ front', valid a)
    {stop stop' : β} {rest rest' : List β}
    (starts : ∀ a, valid a → ∃ c tail, code a = c :: tail ∧ c ≠ stop ∧ c ≠ stop')
    (same : front.flatMap code ++ stop :: rest = front'.flatMap code ++ stop' :: rest') :
    front = front' ∧ stop :: rest = stop' :: rest' := by
  induction front generalizing front' with
  | nil =>
      cases front' with
      | nil => exact ⟨rfl, same⟩
      | cons b front' =>
          obtain ⟨c, tail, code_eq, ne_stop, -⟩ := starts b (front'_valid b List.mem_cons_self)
          rw [List.flatMap_cons, code_eq] at same
          exact absurd (List.cons.inj same).1.symm ne_stop
  | cons a front ih =>
      cases front' with
      | nil =>
          obtain ⟨c, tail, code_eq, -, ne_stop'⟩ := starts a (front_valid a List.mem_cons_self)
          rw [List.flatMap_cons, code_eq] at same
          exact absurd (List.cons.inj same).1 ne_stop'
      | cons b front' =>
          rw [List.forall_mem_cons] at front_valid front'_valid
          simp only [List.flatMap_cons, List.append_assoc] at same
          obtain ⟨rfl, tails_eq⟩ := free a b front_valid.1 front'_valid.1 _ _ same
          obtain ⟨rfl, rest_eq⟩ := ih front_valid.2 front'_valid.2 tails_eq
          exact ⟨rfl, rest_eq⟩

/-- Text closed by one of the marks it does not hold. -/
theorem append_mark_inj {marks : β → Prop} {front front' : List β}
    (unmarked : ∀ c ∈ front, ¬marks c) (unmarked' : ∀ c ∈ front', ¬marks c)
    {mark mark' : β} (marked : marks mark) (marked' : marks mark') {rest rest' : List β}
    (same : front ++ mark :: rest = front' ++ mark' :: rest') :
    front = front' ∧ mark = mark' ∧ rest = rest' := by
  induction front generalizing front' with
  | nil =>
      cases front' with
      | nil => exact ⟨rfl, List.cons.inj same⟩
      | cons c front' =>
          have mark_eq : mark = c := (List.cons.inj same).1
          exact absurd (mark_eq ▸ marked) (unmarked' c List.mem_cons_self)
  | cons c front ih =>
      cases front' with
      | nil =>
          have mark_eq : c = mark' := (List.cons.inj same).1
          exact absurd (mark_eq ▸ marked') (unmarked c List.mem_cons_self)
      | cons c' front' =>
          rw [List.forall_mem_cons] at unmarked unmarked'
          obtain ⟨rfl, tails_eq⟩ := List.cons.inj same
          obtain ⟨rfl, ends_eq⟩ := ih unmarked.2 unmarked'.2 tails_eq
          exact ⟨rfl, ends_eq⟩

/-- Text closed by a mark it does not hold. -/
theorem append_char_inj {front front' rest rest' : List β} {mark : β} (unmarked : mark ∉ front)
    (unmarked' : mark ∉ front') (same : front ++ mark :: rest = front' ++ mark :: rest') :
    front = front' ∧ rest = rest' := by
  have fresh : ∀ c ∈ front, c ≠ mark := fun c c_mem is_mark => unmarked (is_mark ▸ c_mem)
  have fresh' : ∀ c ∈ front', c ≠ mark := fun c c_mem is_mark => unmarked' (is_mark ▸ c_mem)
  obtain ⟨front_eq, -, rest_eq⟩ := append_mark_inj fresh fresh' rfl rfl same
  exact ⟨front_eq, rest_eq⟩

end PrefixFree
