import Mathlib.Data.List.Sublists
import Baley.Scope.Accepted

/-!
# One accepted change

What an accepted change keeps of the roadmap: it stays consistent, a story that is dropped or excluded
stays so, the numbers handed out are past every earlier one, and no phase comes to stand before one it
depends on.
-/

namespace Baley.Scope

/-- A dropped or excluded story is served no more. -/
def HeldStatus.Final (status : HeldStatus) : Prop :=
  status = .dropped ∨ status = .excluded

/-! ## Before in an order -/

/-- A number stands in an order before another one. -/
def Before (order : List Nat) (first second : Nat) : Prop :=
  [first, second].Sublist order

theorem filter_insertIdx {test : Nat → Bool} {number : Nat} (refused : test number = false)
    (order : List Nat) (index : Nat) :
    (order.insertIdx index number).filter test = order.filter test := by
  induction order generalizing index with
  | nil =>
      cases index with
      | zero => simp [refused]
      | succ index => rfl
  | cons head order ih =>
      cases index with
      | zero => simp [refused]
      | succ index => rw [List.insertIdx_succ_cons, List.filter_cons, List.filter_cons, ih]

/-- Inserting a number leaves the others where they stood. -/
theorem before_of_insertIdx {order : List Nat} {index number first second : Nat}
    (first_ne : first ≠ number) (second_ne : second ≠ number)
    (before : Before (order.insertIdx index number) first second) : Before order first second := by
  have kept := before.filter fun other => decide (other ≠ number)
  rw [filter_insertIdx (by simp)] at kept
  simp only [List.filter_cons, List.filter_nil, first_ne, second_ne, ne_eq, not_false_eq_true,
    decide_true, if_true] at kept
  exact kept.trans List.filter_sublist

/-- What a placing accepts stands nowhere after the phase. -/
theorem not_before_of_placedAfter {order : List Nat} (distinct : order.Nodup) {phase : Nat}
    {dependsOn : List Nat} (judged : placedAfter order phase dependsOn = .ok ()) :
    ∀ dependency ∈ dependsOn, ¬ Before order phase dependency := by
  intro dependency depends before
  obtain ⟨front, back, rfl, phase_mem, rest⟩ := List.cons_sublist_iff.mp before
  have dependency_mem := List.singleton_sublist.mp rest
  have absent : dependency ∉ front := fun front_mem =>
    (List.nodup_append.mp distinct).2.2 dependency front_mem dependency dependency_mem rfl
  obtain ⟨index, index_eq⟩ : ∃ index, front.findIdx? (fun held => held = phase) = some index := by
    rw [← Option.isSome_iff_exists, List.findIdx?_isSome, List.any_eq_true]
    exact ⟨phase, phase_mem, by simp⟩
  obtain ⟨other, other_eq⟩ : ∃ other,
      back.findIdx? (fun held => held = dependency) = some other := by
    rw [← Option.isSome_iff_exists, List.findIdx?_isSome, List.any_eq_true]
    exact ⟨dependency, dependency_mem, by simp⟩
  have not_front : front.findIdx? (fun held => decide (held = dependency)) = none := by
    rw [List.findIdx?_eq_none_iff]
    intro held held_mem
    exact decide_eq_false fun same => absent (same ▸ held_mem)
  have phase_place : place (front ++ back) phase = some index := by
    rw [place, List.findIdx?_append, index_eq]
    rfl
  have dependency_place : place (front ++ back) dependency = some (other + front.length) := by
    rw [place, List.findIdx?_append, not_front, other_eq]
    rfl
  have index_lt : index < front.length := (List.findIdx?_eq_some_iff_getElem.mp index_eq).1
  simp only [placedAfter, phase_place] at judged
  cases found : dependsOn.find? (placedPast (front ++ back) index) with
  | some bad =>
      rw [found] at judged
      cases judged
  | none =>
      have not_past := List.find?_eq_none.mp found dependency depends
      rw [placedPast, dependency_place] at not_past
      simp only [decide_eq_true_eq] at not_past
      omega

/-! ## The step -/

namespace Roadmap

/-- What a change that hands out some phase numbers and story ids does to the roadmap. -/
structure Step (roadmap : Roadmap) (numbers ids : List Nat) (after : Roadmap) : Prop where
  consistent : Consistent after
  /-- A story that is served no more stays so. -/
  final_kept : ∀ story ∈ roadmap.stories, story.status.Final →
    ∃ other ∈ after.stories, other.id = story.id ∧ other.status = story.status
  numbers_handed : after.phases.map HeldPhase.number =
    roadmap.phases.map HeldPhase.number ++ numbers
  ids_handed : (after.stories.map StoryEntry.id).Perm (roadmap.stories.map StoryEntry.id ++ ids)
  ids_ascending : ids.Pairwise (· < ·)
  ids_past : ∀ id ∈ ids, roadmap.highestStory < id
  /-- A phase stands before one it depends on only where it did. -/
  misplaced : ∀ number dependency, after.DependsOn number dependency →
    Before after.order number dependency →
      roadmap.DependsOn number dependency ∧ Before roadmap.order number dependency

namespace Step

variable {roadmap after : Roadmap}

/-- A change of stories alone. -/
theorem of_stories (consistent : Consistent roadmap)
    (outlines_eq : after.phases.map HeldPhase.outline = roadmap.phases.map HeldPhase.outline)
    (order_eq : after.order = roadmap.order) (serving : Serving [] after)
    (final_kept : ∀ story ∈ roadmap.stories, story.status.Final →
      ∃ other ∈ after.stories, other.id = story.id ∧ other.status = story.status)
    {ids : List Nat}
    (ids_handed : (after.stories.map StoryEntry.id).Perm (roadmap.stories.map StoryEntry.id ++ ids))
    (ids_ascending : ids.Pairwise (· < ·)) (ids_past : ∀ id ∈ ids, roadmap.highestStory < id) :
    Step roadmap [] ids after where
  consistent := ⟨serving, consistent.depending.congr outlines_eq,
    consistent.ordered.congr outlines_eq order_eq⟩
  final_kept := final_kept
  numbers_handed := by
    have numbers_eq := congrArg (List.map Prod.fst) outlines_eq
    rw [List.map_map, List.map_map] at numbers_eq
    rw [List.append_nil]
    exact numbers_eq
  ids_handed := ids_handed
  ids_ascending := ids_ascending
  ids_past := ids_past
  misplaced := by
    intro number dependency depends before
    exact ⟨(dependsOn_congr outlines_eq number dependency).mp depends, order_eq ▸ before⟩

/-- Changing a story where it stands keeps every other one. -/
theorem final_kept_only {id : Nat} {change : StoryEntry → StoryEntry}
    (stories_eq : after.stories = roadmap.stories.map (StoryEntry.only id change))
    (served : ∀ story ∈ roadmap.stories, story.id = id → story.status.Final →
      (change story).id = story.id ∧ (change story).status = story.status) :
    ∀ story ∈ roadmap.stories, story.status.Final →
      ∃ other ∈ after.stories, other.id = story.id ∧ other.status = story.status := by
  intro story story_mem final
  refine ⟨story.only id change, stories_eq ▸ List.mem_map_of_mem story_mem, ?_⟩
  unfold StoryEntry.only
  split_ifs with same
  · exact served story story_mem same final
  · exact ⟨rfl, rfl⟩

end Step

end Roadmap

end Baley.Scope
