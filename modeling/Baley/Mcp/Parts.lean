import Baley.Slice

/-!
# A long answer in parts

The one place a long read answer is cut into numbered parts, so that the bound and the numbering are
the same everywhere.
-/

namespace Baley.Mcp

open Utf8

/-- The most body bytes in one part. -/
def partBound : Nat := 24576

/-- What a cut decided for one request. -/
inductive Cut where
  /-- The text fits in one part and that part was asked for. -/
  | whole (body : List Char)
  /-- One numbered part, with the next part's number unless this is the last. -/
  | part (body : List Char) (part : Nat) (next : Option Nat)
  /-- The requested part does not exist. -/
  | absent
  deriving DecidableEq

/-- The last character boundary up to a position. -/
def backUp (text : List Char) : Nat → Nat
  | 0 => 0
  | position + 1 =>
      if isCharBoundary text (position + 1) then position + 1 else backUp text position

/-- The parts of a text, one a turn.  There is no answer when a cut falls inside a character or the
turns run out before the text does. -/
def cutParts : Nat → List Char → Option (List (List Char))
  | _, [] => some []
  | 0, _ :: _ => none
  | turns + 1, remaining => do
      let stop := backUp remaining (min (size remaining) partBound)
      let body ← slice 0 stop remaining
      let rest ← slice stop (size remaining) remaining
      let parts ← cutParts turns rest
      some (body :: parts)

/-- Cut a text for a part counted from one, the first when none is given.  No text needs more turns
than it has bytes. -/
def cut (text : List Char) (asked : Option Nat) : Option Cut :=
  let part := asked.getD 1
  if size text ≤ partBound then some (if part = 1 then .whole text else .absent)
  else do
    let parts ← cutParts (size text) text
    match part with
    | 0 => some .absent
    | index + 1 =>
        match parts[index]? with
        | none => some .absent
        | some body => some (.part body part (if part < parts.length then some (part + 1) else none))

/-! ## The parts -/

/-- A character boundary is never further back than the longest character. -/
theorem backUp_spec (text : List Char) (position : Nat) :
    backUp text position ≤ position ∧ isCharBoundary text (backUp text position) = true ∧
      ∀ boundary ≤ position, isCharBoundary text boundary = true → boundary ≤ backUp text position := by
  induction position with
  | zero => exact ⟨le_rfl, isCharBoundary_zero text, fun boundary below _ => below⟩
  | succ position ih =>
      rw [backUp]
      split_ifs with at_boundary
      · exact ⟨le_rfl, at_boundary, fun boundary below _ => below⟩
      · obtain ⟨below, is_boundary, greatest⟩ := ih
        refine ⟨by omega, is_boundary, fun boundary boundary_below boundary_is => ?_⟩
        rcases Nat.lt_or_eq_of_le boundary_below with earlier | rfl
        · exact greatest boundary (by omega) boundary_is
        · exact absurd boundary_is at_boundary

/-- The search never comes back to the start of a part. -/
theorem backUp_pos {text : List Char} (not_empty : text ≠ []) :
    0 < backUp text (min (size text) partBound) := by
  obtain ⟨c, rest, rfl⟩ := List.exists_cons_of_ne_nil not_empty
  have positive := c.utf8Size_pos
  have short := c.utf8Size_le_four
  have after_first : isCharBoundary (c :: rest) c.utf8Size = true :=
    isCharBoundary_iff.mpr ⟨[c], rest, rfl, by simp⟩
  have inside : c.utf8Size ≤ min (size (c :: rest)) partBound := by
    simp only [size_cons, partBound]
    omega
  exact lt_of_lt_of_le positive ((backUp_spec _ _).2.2 _ inside after_first)

/-- Text cut in parts: each has some character and fits the bound, and together they are the text. -/
structure PartsOf (text : List Char) (parts : List (List Char)) : Prop where
  joined : parts.flatten = text
  bounded : ∀ body ∈ parts, size body ≤ partBound
  not_empty : ∀ body ∈ parts, body ≠ []

/-- As many turns as the text has bytes cut it. -/
theorem cutParts_eq {text : List Char} {turns : Nat} (enough : size text ≤ turns) :
    ∃ parts, cutParts turns text = some parts ∧ PartsOf text parts := by
  induction turns generalizing text with
  | zero =>
      obtain rfl := size_eq_zero.mp (Nat.le_zero.mp enough)
      exact ⟨[], rfl, rfl, by simp, by simp⟩
  | succ turns ih =>
      cases text with
      | nil => exact ⟨[], rfl, rfl, by simp, by simp⟩
      | cons c rest =>
          obtain ⟨below, is_boundary, -⟩ := backUp_spec (c :: rest) (min (size (c :: rest)) partBound)
          have advances := backUp_pos (List.cons_ne_nil c rest)
          obtain ⟨body, tail, text_eq, body_size⟩ := isCharBoundary_iff.mp is_boundary
          have first_eq : slice 0 (backUp (c :: rest) (min (size (c :: rest)) partBound)) (c :: rest) =
              some body := slice_eq_some.mpr ⟨[], tail, text_eq, rfl, by omega⟩
          have size_eq : size (c :: rest) = size body + size tail := by rw [text_eq, size_append]
          have rest_eq : slice (backUp (c :: rest) (min (size (c :: rest)) partBound)) (size (c :: rest))
              (c :: rest) = some tail :=
            slice_eq_some.mpr ⟨body, [], by rw [List.append_nil, text_eq], body_size, by omega⟩
          obtain ⟨parts, parts_eq, joined, bounded, not_empty⟩ := @ih tail (by omega)
          refine ⟨body :: parts, ?_, ?_, ?_, ?_⟩
          · rw [cutParts]
            · simp only [first_eq, rest_eq, parts_eq, Option.bind_eq_bind, Option.bind_some]
            · simp
          · rw [List.flatten_cons, joined, text_eq]
          · refine List.forall_mem_cons.mpr ⟨?_, bounded⟩
            omega
          · refine List.forall_mem_cons.mpr ⟨?_, not_empty⟩
            rintro rfl
            rw [size_nil] at body_size
            omega

/-! ## Asking for each part in turn -/

/-- The parts that are visited from the one asked for on, each next one as the last named it. -/
inductive Visits (text : List Char) : Option Nat → List (List Char × Nat) → Prop
  | whole {asked : Option Nat} {body : List Char} (answer : cut text asked = some (.whole body)) :
      Visits text asked [(body, 1)]
  | last {asked : Option Nat} {body : List Char} {part : Nat}
      (answer : cut text asked = some (.part body part none)) : Visits text asked [(body, part)]
  | more {asked : Option Nat} {body : List Char} {part next : Nat} {visited : List (List Char × Nat)}
      (answer : cut text asked = some (.part body part (some next)))
      (rest : Visits text (some next) visited) : Visits text asked ((body, part) :: visited)

theorem Visits.unique {text : List Char} {asked : Option Nat} {visited visited' : List (List Char × Nat)}
    (visits : Visits text asked visited) (visits' : Visits text asked visited') : visited = visited' := by
  induction visits generalizing visited' with
  | whole answer =>
      cases visits' with
      | whole answer' | last answer' | more answer' =>
          rw [answer] at answer'
          cases answer'
          try rfl
  | last answer =>
      cases visits' with
      | whole answer' | last answer' | more answer' =>
          rw [answer] at answer'
          cases answer'
          try rfl
  | more answer _ ih =>
      cases visits' with
      | whole answer' | last answer' =>
          rw [answer] at answer'
          cases answer'
      | more answer' rest' =>
          rw [answer] at answer'
          cases answer'
          rw [ih rest']

/-- No part asked for is the first one. -/
theorem Visits.of_none {text : List Char} {visited : List (List Char × Nat)}
    (visits : Visits text (some 1) visited) : Visits text none visited := by
  have same : cut text none = cut text (some 1) := rfl
  cases visits with
  | whole answer => exact .whole (same.trans answer)
  | last answer => exact .last (same.trans answer)
  | more answer rest => exact .more (same.trans answer) rest

section

variable {text : List Char} {parts : List (List Char)}

/-- The part of a text over the bound that a number asks for. -/
theorem cut_of_some (long : partBound < size text) (cut_parts : cutParts (size text) text = some parts)
    {index : Nat} {body : List Char} (found : parts[index]? = some body) :
    cut text (some (index + 1)) =
      some (.part body (index + 1) (if index + 1 < parts.length then some (index + 2) else none)) := by
  have not_short : ¬size text ≤ partBound := not_le.mpr long
  simp only [cut, Option.getD_some, not_short, cut_parts, Option.bind_eq_bind, Option.bind_some, found, if_false]

theorem cut_of_none (long : partBound < size text) (cut_parts : cutParts (size text) text = some parts)
    {index : Nat} (found : parts[index]? = none) : cut text (some (index + 1)) = some .absent := by
  have not_short : ¬size text ≤ partBound := not_le.mpr long
  simp only [cut, Option.getD_some, not_short, cut_parts, Option.bind_eq_bind, Option.bind_some, found, if_false]

theorem cut_zero (long : partBound < size text) (cut_parts : cutParts (size text) text = some parts) :
    cut text (some 0) = some .absent := by
  have not_short : ¬size text ≤ partBound := not_le.mpr long
  simp only [cut, Option.getD_some, not_short, cut_parts, Option.bind_eq_bind, Option.bind_some, if_false]

/-- From a part on, each part that follows it is visited. -/
theorem visits_from (long : partBound < size text) (cut_parts : cutParts (size text) text = some parts)
    {index : Nat} {body : List Char} {rest : List (List Char)} (from_index : parts.drop index = body :: rest) :
    Visits text (some (index + 1)) ((body :: rest).zipIdx (index + 1)) := by
  have found : parts[index]? = some body := by
    rw [← List.head?_drop, from_index]
    rfl
  have length_eq : parts.length = index + (rest.length + 1) := by
    have lengths := congrArg List.length from_index
    rw [List.length_drop, List.length_cons] at lengths
    omega
  have answer := cut_of_some long cut_parts found
  induction rest generalizing index body with
  | nil =>
      rw [if_neg (by simp [length_eq])] at answer
      exact .last answer
  | cons next rest ih =>
      rw [if_pos (by rw [length_eq, List.length_cons]; omega)] at answer
      refine .more answer ?_
      have from_next : parts.drop (index + 1) = next :: rest := by
        rw [← List.drop_drop, from_index]
        rfl
      have found_next : parts[index + 1]? = some next := by
        rw [← List.head?_drop, from_next]
        rfl
      have length_next : parts.length = index + 1 + (rest.length + 1) := by
        rw [length_eq, List.length_cons]
        omega
      exact ih from_next found_next length_next (cut_of_some long cut_parts found_next)

end

/-- A text is visited in the parts that a list of texts numbers from one: they join to the text, each
within the bound and each with some character when there are several, and no other number has a part. -/
structure JoinedBy (text : List Char) (parts : List (List Char)) : Prop where
  joined : parts.flatten = text
  bounded : ∀ body ∈ parts, size body ≤ partBound
  not_empty : parts = [text] ∨ ∀ body ∈ parts, body ≠ []
  visited : ∀ asked, asked = none ∨ asked = some 1 →
    ∀ found, Visits text asked found ↔ found = parts.zipIdx 1
  absent_iff : ∀ part, cut text (some part) = some .absent ↔ part = 0 ∨ parts.length < part

/-- Asking for a text part by part gives the text, and every cut is made: the turns of its loop never
run out, no cut falls inside a character, and the search for a boundary stays past the part's start. -/
theorem parts_join (text : List Char) :
    (∃ parts, JoinedBy text parts) ∧ (∀ asked, (cut text asked).isSome = true) ∧
      ∀ remaining ≠ [], 0 < backUp remaining (min (size remaining) partBound) := by
  refine ⟨?_, fun asked => ?_, fun remaining not_empty => backUp_pos not_empty⟩
  · rcases Nat.lt_or_ge partBound (size text) with long | short
    · obtain ⟨parts, cut_parts, joined, bounded, not_empty⟩ := @cutParts_eq text _ le_rfl
      have some_parts : parts ≠ [] := by
        rintro rfl
        rw [← joined] at long
        exact Nat.not_lt_zero _ long
      obtain ⟨first, rest, rfl⟩ := List.exists_cons_of_ne_nil some_parts
      refine ⟨first :: rest, joined, bounded, .inr not_empty, fun asked is_first found => ?_, fun part => ?_⟩
      · have visits := @visits_from text (first :: rest) long cut_parts 0 first rest rfl
        have visits_asked : Visits text asked ((first :: rest).zipIdx 1) := by
          rcases is_first with rfl | rfl
          · exact visits.of_none
          · exact visits
        exact ⟨fun other => other.unique visits_asked, fun same => same ▸ visits_asked⟩
      · cases part with
        | zero => simp [cut_zero long cut_parts]
        | succ index =>
            cases found : (first :: rest)[index]? with
            | none =>
                rw [cut_of_none long cut_parts found]
                have beyond := List.getElem?_eq_none_iff.mp found
                refine iff_of_true rfl ?_
                omega
            | some body =>
                rw [cut_of_some long cut_parts found]
                obtain ⟨inside, -⟩ := List.getElem?_eq_some_iff.mp found
                refine iff_of_false (by simp) ?_
                omega
    · have whole : cut text (some 1) = some (.whole text) := by simp [cut, short]
      refine ⟨[text], by simp, by simpa using short, .inl rfl, fun asked is_first found => ?_, fun part => ?_⟩
      · have visits_asked : Visits text asked [(text, 1)] := by
          rcases is_first with rfl | rfl
          · exact .of_none (.whole whole)
          · exact .whole whole
        exact ⟨fun other => other.unique visits_asked, fun same => same ▸ visits_asked⟩
      · by_cases first : part = 1
        · simp [cut, short, first]
        · simp only [cut, Option.getD_some, short, if_true, if_neg first, true_iff, List.length_singleton]
          omega
  · rcases Nat.lt_or_ge partBound (size text) with long | short
    · obtain ⟨parts, cut_parts, -⟩ := @cutParts_eq text _ le_rfl
      have asked_eq : cut text asked = cut text (some (asked.getD 1)) := rfl
      rw [asked_eq]
      cases asked.getD 1 with
      | zero => rw [cut_zero long cut_parts]; rfl
      | succ index =>
          cases found : parts[index]? with
          | none => rw [cut_of_none long cut_parts found]; rfl
          | some body => rw [cut_of_some long cut_parts found]; rfl
    · simp only [cut, short, if_true, Option.isSome_some]

end Baley.Mcp
