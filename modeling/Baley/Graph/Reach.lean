import Mathlib.Algebra.BigOperators.Group.Finset.Basic
import Mathlib.Algebra.GroupWithZero.Nat
import Mathlib.Algebra.Order.BigOperators.Group.Finset
import Mathlib.Logic.Relation

/-!
# Reachability

A search that keeps the vertices it has seen and a stack of those it has still to follow.  It sees a
vertex exactly when one or more edges lead there, and a relation that is changed at one vertex has a
cycle only through that vertex.
-/

namespace Baley.Graph

open Relation

variable {α : Type} [DecidableEq α]

/-- A search in progress. -/
structure Search (α : Type) where
  seen : Finset α
  /-- The vertices still to follow, the next one first. -/
  pending : List α

namespace Search

/-- One turn of the loop: follow the next vertex unless it was seen. -/
def step (edges : α → List α) (search : Search α) : Search α :=
  match search.pending with
  | [] => search
  | vertex :: pending =>
      if vertex ∈ search.seen then { search with pending }
      else { seen := insert vertex search.seen, pending := (edges vertex).reverse ++ pending }

/-- Turn the loop as often as the fuel says; a search with nothing pending stays as it is. -/
def run (edges : α → List α) : Nat → Search α → Search α
  | 0, search => search
  | fuel + 1, search => run edges fuel (search.step edges)

/-- The turns the loop still takes, when every vertex with edges is among the vertices. -/
def work (vertices : Finset α) (edges : α → List α) (search : Search α) : Nat :=
  search.pending.length + ∑ vertex ∈ vertices \ search.seen, (edges vertex).length

end Search

/-- Every vertex one or more steps from a vertex along the edges. -/
def reach (vertices : Finset α) (edges : α → List α) (start : α) : Finset α :=
  let search : Search α := ⟨∅, (edges start).reverse⟩
  (search.run edges (search.work vertices edges)).seen

namespace Search

variable {vertices : Finset α} {edges : α → List α} {search : Search α} {start : α}

theorem work_step (outside : ∀ vertex ∉ vertices, edges vertex = []) {vertex : α}
    {pending : List α} (pending_eq : search.pending = vertex :: pending) :
    (search.step edges).work vertices edges + 1 = search.work vertices edges := by
  simp only [step, pending_eq, work, List.length_cons]
  split_ifs with seen
  · simp only
    omega
  · have rest_eq : vertices \ insert vertex search.seen = (vertices \ search.seen).erase vertex := by
      rw [Finset.sdiff_insert]
    simp only [rest_eq, List.length_append, List.length_reverse]
    by_cases inside : vertex ∈ vertices
    · have vertex_mem : vertex ∈ vertices \ search.seen := Finset.mem_sdiff.mpr ⟨inside, seen⟩
      have sum_eq : (edges vertex).length +
          ∑ other ∈ (vertices \ search.seen).erase vertex, (edges other).length =
            ∑ other ∈ vertices \ search.seen, (edges other).length :=
        Finset.add_sum_erase _ (fun other => (edges other).length) vertex_mem
      omega
    · have absent : vertex ∉ vertices \ search.seen := fun vertex_mem =>
        inside (Finset.mem_sdiff.mp vertex_mem).1
      rw [Finset.erase_eq_of_notMem absent, outside vertex inside, List.length_nil]
      omega

/-- With enough fuel nothing is left pending. -/
theorem pending_run (outside : ∀ vertex ∉ vertices, edges vertex = []) {fuel : Nat}
    (enough : search.work vertices edges ≤ fuel) : (search.run edges fuel).pending = [] := by
  induction fuel generalizing search with
  | zero =>
      apply List.length_eq_zero_iff.mp
      unfold work at enough
      exact Nat.le_zero.mp ((Nat.le_add_right _ _).trans enough)
  | succ fuel ih =>
      rw [run]
      cases pending_eq : search.pending with
      | nil =>
          have rested : search.step edges = search := by simp [step, pending_eq]
          have stays (turns : Nat) : search.run edges turns = search := by
            induction turns with
            | zero => rfl
            | succ turns turn => rw [run, rested, turn]
          rw [rested, stays, pending_eq]
      | cons vertex pending =>
          apply ih
          have less := work_step outside pending_eq
          omega

/-- What holds of the search from a vertex, turn after turn. -/
structure From (edges : α → List α) (start : α) (search : Search α) : Prop where
  sound : ∀ vertex, vertex ∈ search.seen ∨ vertex ∈ search.pending →
    TransGen (fun vertex other => other ∈ edges vertex) start vertex
  begun : ∀ other ∈ edges start, other ∈ search.seen ∨ other ∈ search.pending
  followed : ∀ vertex ∈ search.seen, ∀ other ∈ edges vertex,
    other ∈ search.seen ∨ other ∈ search.pending

theorem From.step (holds : From edges start search) : From edges start (search.step edges) := by
  cases pending_eq : search.pending with
  | nil => simpa [Search.step, pending_eq] using holds
  | cons vertex pending =>
      have kept {other : α} (was : other ∈ search.seen ∨ other ∈ search.pending) :
          other ∈ (search.step edges).seen ∨ other ∈ (search.step edges).pending := by
        simp only [Search.step, pending_eq] at was ⊢
        split_ifs with seen
        · rcases was with was | was
          · exact Or.inl was
          · rcases List.mem_cons.mp was with rfl | was
            · exact Or.inl seen
            · exact Or.inr was
        · rcases was with was | was
          · exact Or.inl (Finset.mem_insert_of_mem was)
          · rcases List.mem_cons.mp was with rfl | was
            · exact Or.inl (Finset.mem_insert_self _ _)
            · exact Or.inr (List.mem_append_right _ was)
      have vertex_reached := holds.sound vertex (Or.inr (pending_eq ▸ List.mem_cons_self))
      constructor
      · intro other other_mem
        simp only [Search.step, pending_eq] at other_mem
        split_ifs at other_mem with seen
        · refine holds.sound other (other_mem.imp_right fun other_mem => ?_)
          exact pending_eq ▸ List.mem_cons_of_mem _ other_mem
        · rcases other_mem with other_mem | other_mem
          · rcases Finset.mem_insert.mp other_mem with rfl | other_mem
            · exact vertex_reached
            · exact holds.sound other (Or.inl other_mem)
          · rcases List.mem_append.mp other_mem with other_mem | other_mem
            · exact vertex_reached.tail (List.mem_reverse.mp other_mem)
            · exact holds.sound other (Or.inr (pending_eq ▸ List.mem_cons_of_mem _ other_mem))
      · exact fun other other_mem => kept (holds.begun other other_mem)
      · intro seen_vertex seen_mem other other_mem
        by_cases before : seen_vertex ∈ search.seen
        · exact kept (holds.followed seen_vertex before other other_mem)
        · simp only [Search.step, pending_eq] at seen_mem ⊢
          split_ifs at seen_mem ⊢ with seen
          · exact absurd seen_mem before
          · obtain rfl := (Finset.mem_insert.mp seen_mem).resolve_right before
            exact Or.inr (List.mem_append_left _ (List.mem_reverse.mpr other_mem))

theorem From.run (holds : From edges start search) (fuel : Nat) :
    From edges start (search.run edges fuel) := by
  induction fuel generalizing search with
  | zero => exact holds
  | succ fuel ih => exact ih holds.step

end Search

theorem mem_reach {vertices : Finset α} {edges : α → List α}
    (outside : ∀ vertex ∉ vertices, edges vertex = []) {start vertex : α} :
    vertex ∈ reach vertices edges start ↔
      TransGen (fun vertex other => other ∈ edges vertex) start vertex := by
  have first : Search.From edges start ⟨∅, (edges start).reverse⟩ := by
    constructor
    · intro vertex vertex_mem
      simp only [Finset.notMem_empty, List.mem_reverse, false_or] at vertex_mem
      exact .single vertex_mem
    · simp
    · simp
  have last := first.run (Search.work vertices edges ⟨∅, (edges start).reverse⟩)
  have rested := Search.pending_run outside
    (le_refl (Search.work vertices edges ⟨∅, (edges start).reverse⟩))
  unfold reach
  constructor
  · exact fun vertex_mem => last.sound vertex (Or.inl vertex_mem)
  · intro reached
    induction reached with
    | single edge => simpa [rested] using last.begun _ edge
    | tail _ edge ih => simpa [rested] using last.followed _ ih _ edge

/-! ## Cycles through a changed vertex -/

omit [DecidableEq α] in
/-- A path of a relation that was changed at one vertex either is one of the old relation or goes
through that vertex. -/
theorem transGen_of_changed {before after : α → α → Prop} {changed : α}
    (unchanged : ∀ vertex other, vertex ≠ changed → after vertex other → before vertex other)
    {vertex other : α} (path : TransGen after vertex other) :
    TransGen before vertex other ∨ (ReflTransGen after vertex changed ∧
      TransGen after changed other) := by
  induction path with
  | @single other edge =>
      by_cases same : vertex = changed
      · exact Or.inr ⟨same ▸ .refl, same ▸ .single edge⟩
      · exact Or.inl (.single (unchanged _ _ same edge))
  | @tail middle other path edge ih =>
      by_cases same : middle = changed
      · exact Or.inr ⟨same ▸ path.to_reflTransGen, same ▸ .single edge⟩
      · rcases ih with old | ⟨to_changed, from_changed⟩
        · exact Or.inl (old.tail (unchanged _ _ same edge))
        · exact Or.inr ⟨to_changed, from_changed.tail edge⟩

omit [DecidableEq α] in
/-- A relation that was changed at one vertex has a cycle only through that vertex. -/
theorem acyclic_of_changed {before after : α → α → Prop} {changed : α}
    (unchanged : ∀ vertex other, vertex ≠ changed → after vertex other → before vertex other)
    (acyclic : ∀ vertex, ¬ TransGen before vertex vertex)
    (through : ¬ TransGen after changed changed) (vertex : α) : ¬ TransGen after vertex vertex := by
  intro cycle
  rcases transGen_of_changed unchanged cycle with old | ⟨to_changed, from_changed⟩
  · exact acyclic vertex old
  · exact through (from_changed.trans_left to_changed)

end Baley.Graph
