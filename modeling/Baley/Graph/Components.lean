import Mathlib.Algebra.BigOperators.Group.Finset.Basic
import Mathlib.Algebra.GroupWithZero.Nat
import Mathlib.Algebra.Order.BigOperators.Group.Finset
import Mathlib.Data.List.Sort

/-!
# Strongly connected components

Tarjan's walk over a graph of numbered vertices, with its own stack of calls.  A caller says which
popped components it reports; when it reports every component of two or more vertices and the walk
reports none, the vertices were finished in an order in which each one comes after those it leads
to.
-/

namespace Baley.Graph

/-- Each vertex leads only to later entries of the list, or to itself where that is not reported. -/
def Finished (edges : Nat → List Nat) (reports : Nat → List Nat → Bool) : List Nat → Prop
  | [] => True
  | vertex :: rest =>
      (∀ other ∈ edges vertex, other ∈ rest ∨ other = vertex) ∧ reports vertex [vertex] = false ∧
        Finished edges reports rest

/-- What holds of a vertex when it holds of all the others it leads to holds of every vertex. -/
theorem Finished.induction {edges : Nat → List Nat} {reports : Nat → List Nat → Bool}
    {order : List Nat} (finished : Finished edges reports order) {motive : Nat → Prop}
    (step : ∀ vertex ∈ order, reports vertex [vertex] = false →
      (∀ other ∈ edges vertex, other ≠ vertex → motive other) → motive vertex) :
    ∀ vertex ∈ order, motive vertex := by
  induction order with
  | nil => simp
  | cons first rest ih =>
      obtain ⟨leads, unreported, rest_finished⟩ := finished
      have rest_holds := ih rest_finished fun vertex vertex_mem =>
        step vertex (List.mem_cons_of_mem _ vertex_mem)
      intro vertex vertex_mem
      rcases List.mem_cons.mp vertex_mem with rfl | vertex_mem
      · refine step vertex List.mem_cons_self unreported fun other other_mem differs => ?_
        exact rest_holds other ((leads other other_mem).resolve_right differs)
      · exact rest_holds vertex vertex_mem

/-- A walk in progress. -/
structure Walk where
  /-- When each vertex was reached, nothing before. -/
  index : Nat → Option Nat
  low : Nat → Nat
  onStack : Nat → Bool
  /-- The vertices reached and not yet popped, the last one first. -/
  stack : List Nat
  /-- The open calls, the innermost first: a vertex and how many of its edges were taken. -/
  calls : List (Nat × Nat)
  next : Nat
  onCycle : List Nat

/-- Pop the stack until a vertex was popped: what was popped, and what is left. -/
def popUntil (vertex : Nat) : List Nat → List Nat × List Nat
  | [] => ([], [])
  | member :: rest =>
      if member = vertex then ([member], rest)
      else
        let (component, rest) := popUntil vertex rest
        (member :: component, rest)

namespace Walk

/-- Before any vertex was reached. -/
def start : Walk where
  index := fun _ => none
  low := fun _ => 0
  onStack := fun _ => false
  stack := []
  calls := []
  next := 0
  onCycle := []

/-- Reach a vertex and open its call. -/
def visit (walk : Walk) (vertex : Nat) : Walk :=
  { walk with
    index := Function.update walk.index vertex (some walk.next)
    low := Function.update walk.low vertex walk.next
    next := walk.next + 1
    stack := vertex :: walk.stack
    onStack := Function.update walk.onStack vertex true
    calls := (vertex, 0) :: walk.calls }

def lower (walk : Walk) (vertex bound : Nat) : Walk :=
  { walk with low := Function.update walk.low vertex (min (walk.low vertex) bound) }

variable (edges : Nat → List Nat) (reports : Nat → List Nat → Bool)

/-- Follow one edge of the innermost call. -/
def follow (walk : Walk) (vertex other : Nat) : Walk :=
  match walk.index other with
  | none => walk.visit other
  | some index => if walk.onStack other then walk.lower vertex index else walk

/-- Pop the component of a vertex that nothing on the stack below it was reached from. -/
def popComponent (walk : Walk) (vertex : Nat) : Walk :=
  let (component, rest) := popUntil vertex walk.stack
  { walk with
    stack := rest
    onStack := fun other => walk.onStack other && !component.contains other
    onCycle := if reports vertex component then walk.onCycle ++ component else walk.onCycle }

/-- Close the innermost call, whose caller is now the first of `calls`. -/
def close (walk : Walk) (vertex : Nat) (calls : List (Nat × Nat)) : Walk :=
  let walk := { walk with calls }
  let walk :=
    match calls with
    | [] => walk
    | (parent, _) :: _ => walk.lower parent (walk.low vertex)
  if walk.index vertex = some (walk.low vertex) then walk.popComponent reports vertex else walk

/-- One turn of the loop: take the next edge of the innermost call, or close it. -/
def step (walk : Walk) : Walk :=
  match walk.calls with
  | [] => walk
  | (vertex, taken) :: calls =>
      match (edges vertex)[taken]? with
      | some other => { walk with calls := (vertex, taken + 1) :: calls }.follow vertex other
      | none => walk.close reports vertex calls

/-- Turn the loop until no call is open, at most as often as the fuel says. -/
def run : Nat → Walk → Walk
  | 0, walk => walk
  | fuel + 1, walk =>
      match walk.calls with
      | [] => walk
      | _ :: _ => run fuel (walk.step edges reports)

/-- Start at a vertex that was not reached yet. -/
def fromRoot (fuel : Nat) (walk : Walk) (root : Nat) : Walk :=
  match walk.index root with
  | none => run edges reports fuel (walk.visit root)
  | some _ => walk

end Walk

/-- The vertices a vertex leads to. -/
def leadsTo (edges : List (List Nat)) (vertex : Nat) : List Nat :=
  edges.getD vertex []

/-- How many turns the loop takes at most. -/
def turns (edges : List (List Nat)) : Nat :=
  (edges.map fun targets => targets.length + 1).sum

/-- The members of every component that is reported, in ascending order. -/
def reportedComponents (reports : Nat → List Nat → Bool) (edges : List (List Nat)) : List Nat :=
  (((List.range edges.length).foldl (Walk.fromRoot (leadsTo edges) reports (turns edges))
    Walk.start).onCycle).mergeSort fun first second => decide (first ≤ second)

/-! ## Popping -/

theorem popUntil_append (vertex : Nat) (stack : List Nat) :
    (popUntil vertex stack).1 ++ (popUntil vertex stack).2 = stack := by
  induction stack with
  | nil => rfl
  | cons member rest ih =>
      rw [popUntil]
      split_ifs with same
      · rfl
      · simp [ih]

/-- What is below a vertex on the stack is left. -/
theorem sublist_popUntil {vertex : Nat} {below stack : List Nat}
    (sub : (vertex :: below).Sublist stack) :
    vertex ∈ (popUntil vertex stack).1 ∧ below.Sublist (popUntil vertex stack).2 := by
  induction stack with
  | nil => cases sub
  | cons member rest ih =>
      rw [popUntil]
      split_ifs with same
      · subst same
        exact ⟨by simp, List.cons_sublist_cons.mp sub⟩
      · have sub_rest : (vertex :: below).Sublist rest := by
          cases sub with
          | cons _ sub => exact sub
          | cons_cons => exact absurd rfl same
        exact ⟨List.mem_cons_of_mem _ (ih sub_rest).1, (ih sub_rest).2⟩

/-- A component of one vertex was on top of the stack. -/
theorem popUntil_eq_singleton {vertex : Nat} {stack : List Nat}
    (popped : vertex ∈ (popUntil vertex stack).1) (single : (popUntil vertex stack).1.length ≤ 1) :
    stack = vertex :: (popUntil vertex stack).2 := by
  have append_eq := popUntil_append vertex stack
  generalize popUntil vertex stack = parts at *
  obtain ⟨component, rest⟩ := parts
  cases component with
  | nil => cases popped
  | cons member others =>
      obtain rfl : others = [] := by simpa using single
      rw [List.mem_singleton.mp popped]
      exact append_eq.symm

/-- Popping until the last vertex of the stack leaves nothing. -/
theorem popUntil_getLast {vertex : Nat} {stack : List Nat} (nodup : stack.Nodup)
    (last : stack.getLast? = some vertex) : (popUntil vertex stack).2 = [] := by
  induction stack with
  | nil => rfl
  | cons member rest ih =>
      rw [popUntil]
      split_ifs with same
      · subst same
        cases rest with
        | nil => rfl
        | cons head tail =>
            rw [List.getLast?_cons_cons] at last
            exact absurd (List.mem_of_getLast? last) (List.nodup_cons.mp nodup).1
      · refine ih (List.nodup_cons.mp nodup).2 ?_
        cases rest with
        | nil => simp [same] at last
        | cons head tail => rwa [List.getLast?_cons_cons] at last

/-! ## The invariant of the walk -/

namespace Walk

variable {edges : Nat → List Nat} {reports : Nat → List Nat → Bool}

/-- When a vertex was reached. -/
def reachedAt (walk : Walk) (vertex : Nat) : Nat :=
  (walk.index vertex).getD 0

/-- The vertices of the open calls. -/
def callers (walk : Walk) : List Nat :=
  walk.calls.map Prod.fst

/-- What holds at every turn of a walk from a root, given what was finished. -/
structure Sound (edges : Nat → List Nat) (reports : Nat → List Nat → Bool) (root : Nat)
    (finished : List Nat) (walk : Walk) : Prop where
  onStack_iff : ∀ vertex, walk.onStack vertex = true ↔ vertex ∈ walk.stack
  reached_iff : ∀ vertex, (walk.index vertex).isSome = true ↔
    vertex ∈ walk.stack ∨ vertex ∈ finished
  disjoint : ∀ vertex ∈ walk.stack, vertex ∉ finished
  sorted : walk.stack.Pairwise fun above below => walk.reachedAt below < walk.reachedAt above
  before_next : ∀ vertex ∈ walk.stack, walk.reachedAt vertex < walk.next
  low_le : ∀ vertex ∈ walk.stack, walk.low vertex ≤ walk.reachedAt vertex
  root_le : ∀ vertex ∈ walk.stack, walk.reachedAt root ≤ walk.low vertex
  callers_sublist : walk.callers.Sublist walk.stack
  rooted : walk.callers.getLast? = walk.stack.getLast?
  last_root : ∀ vertex, walk.stack.getLast? = some vertex → vertex = root
  taken : ∀ vertex count, (vertex, count) ∈ walk.calls → ∀ other ∈ (edges vertex).take count,
    (walk.index other).isSome = true ∧
      (other ∈ walk.stack → walk.low vertex ≤ walk.reachedAt other)
  ordered : walk.onCycle = [] → Finished edges reports finished

namespace Sound

variable {root : Nat} {finished : List Nat} {walk : Walk}

theorem nodup (sound : Sound edges reports root finished walk) : walk.stack.Nodup :=
  sound.sorted.imp fun less same => by simp [same] at less

theorem index_eq (sound : Sound edges reports root finished walk) {vertex : Nat}
    (vertex_mem : vertex ∈ walk.stack) : walk.index vertex = some (walk.reachedAt vertex) := by
  obtain ⟨index, index_eq⟩ :=
    Option.isSome_iff_exists.mp ((sound.reached_iff vertex).mpr (Or.inl vertex_mem))
  rw [reachedAt, index_eq]
  rfl

theorem not_mem_stack (sound : Sound edges reports root finished walk) {vertex : Nat}
    (unreached : walk.index vertex = none) : vertex ∉ walk.stack := by
  intro vertex_mem
  rw [sound.index_eq vertex_mem] at unreached
  cases unreached

/-- Reaching a vertex keeps the invariant. -/
theorem visit (sound : Sound edges reports root finished walk) {vertex : Nat}
    (unreached : walk.index vertex = none)
    (under_root : walk.stack = [] → vertex = root)
    (root_le : walk.stack ≠ [] → walk.reachedAt root ≤ walk.next) :
    Sound edges reports root finished (walk.visit vertex) := by
  have absent := sound.not_mem_stack unreached
  have other_of_mem {other : Nat} (other_mem : other ∈ walk.stack) : other ≠ vertex :=
    fun same => absent (same ▸ other_mem)
  have reachedAt_self : (walk.visit vertex).reachedAt vertex = walk.next := by
    simp [reachedAt, Walk.visit]
  have reachedAt_other {other : Nat} (differs : other ≠ vertex) :
      (walk.visit vertex).reachedAt other = walk.reachedAt other := by
    simp [reachedAt, Walk.visit, differs]
  have low_self : (walk.visit vertex).low vertex = walk.next := by simp [Walk.visit]
  have low_other {other : Nat} (differs : other ≠ vertex) :
      (walk.visit vertex).low other = walk.low other := by simp [Walk.visit, differs]
  have root_reachedAt : (walk.visit vertex).reachedAt root ≤ walk.next ∧
      (walk.stack ≠ [] → (walk.visit vertex).reachedAt root = walk.reachedAt root) := by
    by_cases empty : walk.stack = []
    · rw [← under_root empty, reachedAt_self]
      exact ⟨le_rfl, fun nonempty => absurd empty nonempty⟩
    · obtain ⟨last, last_eq⟩ := Option.ne_none_iff_exists'.mp
        (mt List.getLast?_eq_none_iff.mp empty)
      have root_mem : root ∈ walk.stack := by
        rw [← sound.last_root last last_eq]
        exact List.mem_of_getLast? last_eq
      rw [reachedAt_other (other_of_mem root_mem)]
      exact ⟨root_le empty, fun _ => rfl⟩
  constructor
  · intro other
    by_cases same : other = vertex
    · simp [Walk.visit, same]
    · simp [Walk.visit, same, sound.onStack_iff]
  · intro other
    by_cases same : other = vertex
    · simp [Walk.visit, same]
    · simp [Walk.visit, same, sound.reached_iff]
  · intro other other_mem
    rcases List.mem_cons.mp other_mem with rfl | other_mem
    · intro other_finished
      have reached := (sound.reached_iff other).mpr (Or.inr other_finished)
      rw [unreached] at reached
      cases reached
    · exact sound.disjoint other other_mem
  · refine List.pairwise_cons.mpr ⟨?_, ?_⟩
    · intro other other_mem
      rw [reachedAt_self, reachedAt_other (other_of_mem other_mem)]
      exact sound.before_next other other_mem
    · refine sound.sorted.imp_of_mem ?_
      intro above below above_mem below_mem less
      rwa [reachedAt_other (other_of_mem above_mem), reachedAt_other (other_of_mem below_mem)]
  · intro other other_mem
    rcases List.mem_cons.mp other_mem with rfl | other_mem
    · rw [reachedAt_self]
      exact Nat.lt_succ_self _
    · rw [reachedAt_other (other_of_mem other_mem)]
      exact Nat.lt_succ_of_lt (sound.before_next other other_mem)
  · intro other other_mem
    rcases List.mem_cons.mp other_mem with rfl | other_mem
    · rw [low_self, reachedAt_self]
    · rw [low_other (other_of_mem other_mem), reachedAt_other (other_of_mem other_mem)]
      exact sound.low_le other other_mem
  · intro other other_mem
    rcases List.mem_cons.mp other_mem with rfl | other_mem
    · rw [low_self]
      exact root_reachedAt.1
    · rw [low_other (other_of_mem other_mem),
        root_reachedAt.2 (List.ne_nil_of_mem other_mem)]
      exact sound.root_le other other_mem
  · exact List.cons_sublist_cons.mpr sound.callers_sublist
  · change (vertex :: walk.callers).getLast? = (vertex :: walk.stack).getLast?
    rw [List.getLast?_cons, List.getLast?_cons, sound.rooted]
  · intro last last_eq
    change (vertex :: walk.stack).getLast? = some last at last_eq
    by_cases empty : walk.stack = []
    · rw [empty] at last_eq
      rw [← Option.some.inj last_eq]
      exact under_root empty
    · obtain ⟨head, tail, stack_eq⟩ := List.exists_cons_of_ne_nil empty
      rw [stack_eq, List.getLast?_cons_cons, ← stack_eq] at last_eq
      exact sound.last_root last last_eq
  · intro caller count call_mem other other_mem
    rcases List.mem_cons.mp call_mem with call_eq | call_mem
    · obtain ⟨rfl, rfl⟩ := Prod.mk.inj call_eq
      simp at other_mem
    · obtain ⟨reached, low_le⟩ := sound.taken caller count call_mem other other_mem
      have differs : other ≠ vertex := by
        rintro rfl
        rw [unreached] at reached
        cases reached
      have caller_mem : caller ∈ walk.stack :=
        sound.callers_sublist.subset (List.mem_map_of_mem call_mem)
      refine ⟨?_, ?_⟩
      · simpa [Walk.visit, differs] using reached
      · intro other_stacked
        rw [low_other (other_of_mem caller_mem), reachedAt_other differs]
        exact low_le ((List.mem_cons.mp other_stacked).resolve_left differs)
  · exact sound.ordered

/-- Lowering a vertex of the stack, not below the root, keeps the invariant. -/
theorem lower (sound : Sound edges reports root finished walk) {vertex bound : Nat}
    (root_le : walk.reachedAt root ≤ bound) :
    Sound edges reports root finished (walk.lower vertex bound) := by
  have low_le (other : Nat) : (walk.lower vertex bound).low other ≤ walk.low other := by
    by_cases same : other = vertex
    · simp [Walk.lower, same]
    · simp [Walk.lower, same]
  obtain ⟨onStack_iff, reached_iff, disjoint, sorted, before_next, low_le_reached, root_le_low,
    callers_sublist, rooted, last_root, taken, ordered⟩ := sound
  refine ⟨onStack_iff, reached_iff, disjoint, sorted, before_next, ?_, ?_, callers_sublist, rooted,
    last_root, ?_, ordered⟩
  · exact fun other other_mem => (low_le other).trans (low_le_reached other other_mem)
  · intro other other_mem
    change walk.reachedAt root ≤ _
    by_cases same : other = vertex
    · subst same
      simp only [Walk.lower, Function.update_self]
      exact le_min (root_le_low other other_mem) root_le
    · simp only [Walk.lower, Function.update_of_ne same]
      exact root_le_low other other_mem
  · intro caller count call_mem other other_mem
    obtain ⟨reached, caller_low⟩ := taken caller count call_mem other other_mem
    exact ⟨reached, fun other_stacked => (low_le caller).trans (caller_low other_stacked)⟩

/-- Counting the edges of the open calls anew keeps the invariant. -/
theorem recount (sound : Sound edges reports root finished walk) {calls : List (Nat × Nat)}
    (callers_eq : calls.map Prod.fst = walk.callers)
    (taken : ∀ vertex count, (vertex, count) ∈ calls → ∀ other ∈ (edges vertex).take count,
      (walk.index other).isSome = true ∧
        (other ∈ walk.stack → walk.low vertex ≤ walk.reachedAt other)) :
    Sound edges reports root finished { walk with calls } := by
  obtain ⟨onStack_iff, reached_iff, disjoint, sorted, before_next, low_le, root_le,
    callers_sublist, rooted, last_root, -, ordered⟩ := sound
  rw [← callers_eq] at callers_sublist rooted
  exact ⟨onStack_iff, reached_iff, disjoint, sorted, before_next, low_le, root_le,
    callers_sublist, rooted, last_root, taken, ordered⟩

theorem mem_take_succ {targets : List Nat} {count other target : Nat}
    (edge : targets[count]? = some target) (other_mem : other ∈ targets.take (count + 1)) :
    other ∈ targets.take count ∨ other = target := by
  rw [List.take_add_one, edge] at other_mem
  simpa using other_mem

/-- Following an edge of the innermost call keeps the invariant. -/
theorem follow (sound : Sound edges reports root finished walk) {vertex count other : Nat}
    {calls : List (Nat × Nat)} (calls_eq : walk.calls = (vertex, count) :: calls)
    (edge : (edges vertex)[count]? = some other) :
    Sound edges reports root finished
      ({ walk with calls := (vertex, count + 1) :: calls }.follow vertex other) := by
  have vertex_caller : vertex ∈ walk.callers := by simp [callers, calls_eq]
  have vertex_mem : vertex ∈ walk.stack := sound.callers_sublist.subset vertex_caller
  have vertex_root : walk.reachedAt root ≤ walk.reachedAt vertex :=
    (sound.root_le vertex vertex_mem).trans (sound.low_le vertex vertex_mem)
  have call_mem : (vertex, count) ∈ walk.calls := by simp [calls_eq]
  unfold Walk.follow
  cases index_eq : walk.index other with
  | none =>
      simp only
      have visited := sound.visit index_eq
        (fun empty => absurd vertex_mem (by simp [empty]))
        (fun _ => vertex_root.trans (sound.before_next vertex vertex_mem).le)
      refine visited.recount (by simp [callers, Walk.visit, calls_eq]) ?_
      intro caller taken caller_mem target target_mem
      rcases List.mem_cons.mp caller_mem with caller_eq | caller_mem
      · exact visited.taken caller taken (by simp [Walk.visit, caller_eq]) target target_mem
      rcases List.mem_cons.mp caller_mem with caller_eq | caller_mem
      · obtain ⟨rfl, rfl⟩ := Prod.mk.inj caller_eq
        rcases mem_take_succ edge target_mem with earlier | rfl
        · exact visited.taken caller count (by simp [Walk.visit, calls_eq]) target earlier
        · have differs : caller ≠ target := by
            rintro rfl
            exact sound.not_mem_stack index_eq vertex_mem
          refine ⟨by simp [Walk.visit], fun _ => ?_⟩
          have low_le := sound.low_le caller vertex_mem
          have before := sound.before_next caller vertex_mem
          simp only [Walk.visit, reachedAt, Function.update_self, Function.update_of_ne differs,
            Option.getD_some]
          exact (low_le.trans_lt before).le
      · exact visited.taken caller taken (by simp [Walk.visit, calls_eq, caller_mem]) target
          target_mem
  | some index =>
      have reached_eq : walk.reachedAt other = index := by simp [reachedAt, index_eq]
      simp only
      split_ifs with stacked
      · have other_mem := (sound.onStack_iff other).mp stacked
        have root_le : walk.reachedAt root ≤ index := by
          rw [← reached_eq]
          exact (sound.root_le other other_mem).trans (sound.low_le other other_mem)
        have lowered : Sound edges reports root finished (walk.lower vertex index) :=
          sound.lower root_le
        refine lowered.recount (by simp [callers, Walk.lower, calls_eq]) ?_
        intro caller taken caller_mem target target_mem
        rcases List.mem_cons.mp caller_mem with caller_eq | caller_mem
        · obtain ⟨rfl, rfl⟩ := Prod.mk.inj caller_eq
          rcases mem_take_succ edge target_mem with earlier | rfl
          · exact lowered.taken caller count call_mem target earlier
          · refine ⟨by simp [Walk.lower, index_eq], fun _ => ?_⟩
            change (walk.lower caller index).low caller ≤ walk.reachedAt target
            rw [reached_eq]
            simp [Walk.lower]
        · exact lowered.taken caller taken (by simp [Walk.lower, calls_eq, caller_mem]) target
            target_mem
      · refine sound.recount (by simp [callers, calls_eq]) ?_
        intro caller taken caller_mem target target_mem
        rcases List.mem_cons.mp caller_mem with caller_eq | caller_mem
        · obtain ⟨rfl, rfl⟩ := Prod.mk.inj caller_eq
          rcases mem_take_succ edge target_mem with earlier | rfl
          · exact sound.taken caller count call_mem target earlier
          · refine ⟨by simp [index_eq], fun target_stacked => ?_⟩
            exact absurd ((sound.onStack_iff target).mpr target_stacked) stacked
        · exact sound.taken caller taken (by simp [calls_eq, caller_mem]) target target_mem

theorem getLast?_of_cons {α : Type} {head : α} {tail : List α} (nonempty : tail ≠ []) :
    (head :: tail).getLast? = tail.getLast? := by
  obtain ⟨first, rest, rfl⟩ := List.exists_cons_of_ne_nil nonempty
  exact List.getLast?_cons_cons

/-- An outermost call is the root's, and nothing lowered it. -/
theorem low_of_outermost (sound : Sound edges reports root finished walk) {vertex count : Nat}
    (calls_eq : walk.calls = [(vertex, count)]) :
    walk.stack.getLast? = some vertex ∧ walk.low vertex = walk.reachedAt vertex := by
  have last_eq : walk.stack.getLast? = some vertex := by
    rw [← sound.rooted, callers, calls_eq]
    rfl
  have vertex_mem := List.mem_of_getLast? last_eq
  obtain rfl := sound.last_root vertex last_eq
  exact ⟨last_eq, le_antisymm (sound.low_le vertex vertex_mem) (sound.root_le vertex vertex_mem)⟩

/-- Popping the component of the innermost call, which closes it, keeps the invariant. -/
theorem popComponent (sound : Sound edges reports root finished walk)
    (covers : ∀ vertex component, 1 < component.length → reports vertex component = true)
    {vertex count : Nat} {calls : List (Nat × Nat)} (calls_eq : walk.calls = (vertex, count) :: calls)
    (all_taken : (edges vertex)[count]? = none)
    (low_eq : walk.low vertex = walk.reachedAt vertex) :
    Sound edges reports root ((popUntil vertex walk.stack).1 ++ finished)
      ({ walk with calls }.popComponent reports vertex) := by
  have callers_eq : walk.callers = vertex :: calls.map Prod.fst := by simp [callers, calls_eq]
  have append_eq := popUntil_append vertex walk.stack
  have callers_sublist := sound.callers_sublist
  rw [callers_eq] at callers_sublist
  obtain ⟨popped, below⟩ := sublist_popUntil callers_sublist
  have rest_eq : calls = [] → (popUntil vertex walk.stack).2 = [] := by
    intro empty
    rw [empty] at calls_eq
    exact popUntil_getLast sound.nodup (sound.low_of_outermost calls_eq).1
  have single_eq : (popUntil vertex walk.stack).1.length ≤ 1 →
      walk.stack = vertex :: (popUntil vertex walk.stack).2 := popUntil_eq_singleton popped
  simp only [Walk.popComponent]
  generalize popUntil vertex walk.stack = parts at *
  obtain ⟨component, rest⟩ := parts
  simp only at *
  have nodup := sound.nodup
  rw [← append_eq, List.nodup_append] at nodup
  have rest_mem {other : Nat} (other_mem : other ∈ rest) : other ∈ walk.stack := by
    rw [← append_eq]
    exact List.mem_append_right _ other_mem
  have rest_last {last : Nat} (last_eq : rest.getLast? = some last) :
      walk.stack.getLast? = some last := by
    rw [← append_eq, List.getLast?_append, last_eq]
    rfl
  constructor
  · intro other
    have apart : other ∈ rest → other ∉ component :=
      fun other_mem component_mem => nodup.2.2 other component_mem other other_mem rfl
    simp only [Bool.and_eq_true, sound.onStack_iff, ← append_eq, List.mem_append]
    simp only [Bool.not_eq_true', List.contains_eq_mem, decide_eq_false_iff_not]
    constructor
    · rintro ⟨component_mem | other_mem, outside⟩
      · exact absurd component_mem outside
      · exact other_mem
    · exact fun other_mem => ⟨Or.inr other_mem, apart other_mem⟩
  · intro other
    rw [sound.reached_iff, ← append_eq, List.mem_append, List.mem_append]
    tauto
  · intro other other_mem other_finished
    rcases List.mem_append.mp other_finished with component_mem | other_finished
    · exact nodup.2.2 other component_mem other other_mem rfl
    · exact sound.disjoint other (rest_mem other_mem) other_finished
  · have sorted := sound.sorted
    rw [← append_eq] at sorted
    exact (List.pairwise_append.mp sorted).2.1
  · exact fun other other_mem => sound.before_next other (rest_mem other_mem)
  · exact fun other other_mem => sound.low_le other (rest_mem other_mem)
  · exact fun other other_mem => sound.root_le other (rest_mem other_mem)
  · exact below
  · change (calls.map Prod.fst).getLast? = rest.getLast?
    rcases eq_or_ne calls [] with empty | nonempty
    · rw [empty, rest_eq empty]
      rfl
    · have callers_nonempty : calls.map Prod.fst ≠ [] := by simpa using nonempty
      have rest_nonempty : rest ≠ [] := by
        rintro rfl
        exact callers_nonempty (List.sublist_nil.mp below)
      have rooted := sound.rooted
      rw [callers_eq, getLast?_of_cons callers_nonempty] at rooted
      rw [rooted, ← append_eq, List.getLast?_append]
      obtain ⟨last, last_eq⟩ := Option.ne_none_iff_exists'.mp
        (mt List.getLast?_eq_none_iff.mp rest_nonempty)
      rw [last_eq]
      rfl
  · exact fun last last_eq => sound.last_root last (rest_last last_eq)
  · intro caller taken call_mem other other_mem
    obtain ⟨reached, low_le⟩ :=
      sound.taken caller taken (by simp [calls_eq, call_mem]) other other_mem
    exact ⟨reached, fun stacked => low_le (rest_mem stacked)⟩
  · intro onCycle_eq
    simp only at onCycle_eq
    split_ifs at onCycle_eq with reported
    · rw [(List.append_eq_nil_iff.mp onCycle_eq).2] at popped
      cases popped
    · have small : component.length ≤ 1 := by
        by_contra large
        exact reported (covers vertex component (by omega))
      have stack_eq := single_eq small
      obtain rfl : component = [vertex] := by
        rw [stack_eq] at append_eq
        exact List.append_cancel_right append_eq
      refine ⟨?_, by simpa using reported, sound.ordered onCycle_eq⟩
      intro other other_mem
      have taken_all : (edges vertex).take count = edges vertex :=
        List.take_of_length_le (List.getElem?_eq_none_iff.mp all_taken)
      obtain ⟨reached, low_le⟩ :=
        sound.taken vertex count (by simp [calls_eq]) other (by rw [taken_all]; exact other_mem)
      rcases (sound.reached_iff other).mp reached with stacked | other_finished
      · have sorted := sound.sorted
        have later := low_le stacked
        rw [stack_eq] at stacked sorted
        rcases List.mem_cons.mp stacked with same | below_mem
        · exact Or.inr same
        · have earlier := (List.pairwise_cons.mp sorted).1 other below_mem
          omega
      · exact Or.inl other_finished

/-- Leaving the vertex of a call that has a caller on the stack keeps the invariant. -/
theorem close_unpopped (sound : Sound edges reports root finished walk) {call caller : Nat × Nat}
    {calls : List (Nat × Nat)} (calls_eq : walk.calls = call :: caller :: calls) :
    Sound edges reports root finished { walk with calls := caller :: calls } := by
  obtain ⟨onStack_iff, reached_iff, disjoint, sorted, before_next, low_le, root_le,
    callers_sublist, rooted, last_root, taken, ordered⟩ := sound
  have callers_eq : walk.callers = call.1 :: (caller :: calls).map Prod.fst := by
    simp [callers, calls_eq]
  rw [callers_eq] at callers_sublist rooted
  refine ⟨onStack_iff, reached_iff, disjoint, sorted, before_next, low_le, root_le,
    (List.sublist_cons_self _ _).trans callers_sublist, ?_, last_root, ?_, ordered⟩
  · rw [getLast?_of_cons (by simp)] at rooted
    exact rooted
  · intro open_caller count call_mem
    exact taken open_caller count (by rw [calls_eq]; exact List.mem_cons_of_mem _ call_mem)

/-- Closing the innermost call keeps the invariant. -/
theorem close (sound : Sound edges reports root finished walk)
    (covers : ∀ vertex component, 1 < component.length → reports vertex component = true)
    {vertex count : Nat} {calls : List (Nat × Nat)} (calls_eq : walk.calls = (vertex, count) :: calls)
    (all_taken : (edges vertex)[count]? = none) :
    ∃ finished, Sound edges reports root finished (walk.close reports vertex calls) := by
  have vertex_mem : vertex ∈ walk.stack :=
    sound.callers_sublist.subset (by simp [callers, calls_eq])
  have index_eq := sound.index_eq vertex_mem
  have callers_nodup := sound.nodup.sublist sound.callers_sublist
  rw [callers, calls_eq, List.map_cons, List.nodup_cons] at callers_nodup
  -- The caller's low may change, which leaves the vertex itself alone.
  obtain ⟨lowered, lowered_eq, lowered_sound, lowered_calls, low_eq, lowered_index⟩ :
      ∃ lowered : Walk, (match calls with
          | [] => { walk with calls }
          | (parent, _) :: _ => { walk with calls }.lower parent (walk.low vertex)) =
            { lowered with calls } ∧
        Sound edges reports root finished lowered ∧ lowered.calls = walk.calls ∧
        lowered.low vertex = walk.low vertex ∧ lowered.index = walk.index := by
    cases calls with
    | nil => exact ⟨walk, rfl, sound, rfl, rfl, rfl⟩
    | cons caller others =>
        obtain ⟨parent, taken⟩ := caller
        refine ⟨walk.lower parent (walk.low vertex), rfl,
          sound.lower (sound.root_le vertex vertex_mem), rfl, ?_, rfl⟩
        have differs : vertex ≠ parent := by
          rintro rfl
          exact callers_nodup.1 (by simp)
        simp [Walk.lower, differs]
  rw [← lowered_calls] at calls_eq
  have reachedAt_eq : lowered.reachedAt vertex = walk.reachedAt vertex := by
    rw [reachedAt, lowered_index, reachedAt]
  unfold Walk.close
  simp only
  rw [lowered_eq]
  have own_iff : lowered.index vertex = some (lowered.low vertex) ↔
      walk.reachedAt vertex = walk.low vertex := by
    rw [lowered_index, index_eq, low_eq, Option.some.injEq]
  by_cases own : walk.reachedAt vertex = walk.low vertex
  · rw [if_pos (own_iff.mpr own)]
    exact ⟨_, lowered_sound.popComponent covers calls_eq all_taken
      (by rw [low_eq, reachedAt_eq, own])⟩
  · rw [if_neg (mt own_iff.mp own)]
    refine ⟨finished, ?_⟩
    cases calls with
    | nil =>
        have outermost := (lowered_sound.low_of_outermost calls_eq).2
        rw [low_eq, reachedAt_eq] at outermost
        exact absurd outermost.symm own
    | cons caller others => exact lowered_sound.close_unpopped calls_eq

/-- One turn of the loop keeps the invariant. -/
theorem step (sound : Sound edges reports root finished walk)
    (covers : ∀ vertex component, 1 < component.length → reports vertex component = true) :
    ∃ finished, Sound edges reports root finished (walk.step edges reports) := by
  unfold Walk.step
  split
  · exact ⟨finished, sound⟩
  · next vertex count calls calls_eq =>
      split
      · next other edge => exact ⟨finished, sound.follow calls_eq edge⟩
      · next all_taken => exact sound.close covers calls_eq all_taken

/-- With no call open nothing is left on the stack. -/
theorem stack_eq_nil (sound : Sound edges reports root finished walk) (closed : walk.calls = []) :
    walk.stack = [] := by
  have rooted := sound.rooted
  rw [callers, closed] at rooted
  exact List.getLast?_eq_none_iff.mp rooted.symm

/-- With nothing on the stack the walk may go on from any root. -/
theorem rebase (sound : Sound edges reports root finished walk) (empty : walk.stack = [])
    (other : Nat) : Sound edges reports other finished walk := by
  obtain ⟨onStack_iff, reached_iff, disjoint, sorted, before_next, low_le, -, callers_sublist,
    rooted, -, taken, ordered⟩ := sound
  refine ⟨onStack_iff, reached_iff, disjoint, sorted, before_next, low_le, ?_, callers_sublist,
    rooted, ?_, taken, ordered⟩
  · simp [empty]
  · simp [empty]

end Sound

/-! ## The loop ends -/

variable {count : Nat} {walk : Walk}

/-- Only vertices of the graph were reached. -/
def Bounded (count : Nat) (walk : Walk) : Prop :=
  ∀ vertex, (walk.index vertex).isSome = true → vertex < count

/-- What the loop may still have to do for the vertices that were not reached. -/
def unreachedWork (edges : Nat → List Nat) (count : Nat) (walk : Walk) : Nat :=
  ∑ vertex ∈ Finset.range count, if walk.index vertex = none then (edges vertex).length + 1 else 0

/-- What the open calls still have to do. -/
def openWork (edges : Nat → List Nat) (calls : List (Nat × Nat)) : Nat :=
  (calls.map fun call => (edges call.1).length - call.2 + 1).sum

theorem unreachedWork_visit (edges : Nat → List Nat) {vertex : Nat} (inside : vertex < count)
    (unreached : walk.index vertex = none) :
    unreachedWork edges count (walk.visit vertex) + ((edges vertex).length + 1) =
      unreachedWork edges count walk := by
  have inside_range : vertex ∈ Finset.range count := Finset.mem_range.mpr inside
  unfold unreachedWork
  rw [← Finset.add_sum_erase _ _ inside_range, ← Finset.add_sum_erase _ _ inside_range,
    if_pos unreached, if_neg (by simp [visit]), Nat.zero_add, Nat.add_comm]
  congr 1
  refine Finset.sum_congr rfl fun other other_mem => ?_
  simp [visit, Finset.ne_of_mem_erase other_mem]

/-- What following an edge does to the vertices reached and the calls open. -/
theorem follow_cases (walk : Walk) (vertex other : Nat) :
    (walk.index other = none ∧ walk.follow vertex other = walk.visit other) ∨
      ((walk.index other).isSome = true ∧ (walk.follow vertex other).index = walk.index ∧
        (walk.follow vertex other).calls = walk.calls) := by
  unfold follow
  cases index_eq : walk.index other with
  | none => exact Or.inl ⟨rfl, rfl⟩
  | some index =>
      refine Or.inr ⟨rfl, ?_⟩
      simp only
      split_ifs
      · exact ⟨rfl, rfl⟩
      · exact ⟨rfl, rfl⟩

/-- Closing a call reaches no vertex and leaves the calls below. -/
theorem close_rest (walk : Walk) (vertex : Nat) (calls : List (Nat × Nat)) :
    (walk.close reports vertex calls).index = walk.index ∧
      (walk.close reports vertex calls).calls = calls := by
  unfold close popComponent lower
  cases calls with
  | nil =>
      simp only
      split_ifs <;> exact ⟨rfl, rfl⟩
  | cons call calls =>
      simp only
      split_ifs <;> exact ⟨rfl, rfl⟩

/-- A turn of the loop reaches what was reached before, and perhaps one vertex more. -/
theorem step_index (closed : ∀ vertex, ∀ other ∈ edges vertex, other < count) (walk : Walk) :
    (walk.step edges reports).index = walk.index ∨
      ∃ other time, other < count ∧ walk.index other = none ∧
        (walk.step edges reports).index = Function.update walk.index other (some time) := by
  unfold step
  split
  · exact Or.inl rfl
  · next vertex taken calls calls_eq =>
      split
      · next other edge =>
          rcases follow_cases { walk with calls := (vertex, taken + 1) :: calls } vertex other with
            ⟨unreached, follow_eq⟩ | ⟨-, index_eq, -⟩
          · rw [follow_eq]
            exact Or.inr ⟨other, walk.next, closed vertex other (List.mem_of_getElem? edge),
              unreached, rfl⟩
          · exact Or.inl index_eq
      · exact Or.inl (close_rest walk vertex calls).1

theorem Bounded.step (bounded : Bounded count walk)
    (closed : ∀ vertex, ∀ other ∈ edges vertex, other < count) :
    Bounded count (walk.step edges reports) := by
  intro vertex reached
  rcases step_index closed walk with index_eq | ⟨other, time, inside, -, index_eq⟩
  · rw [index_eq] at reached
    exact bounded vertex reached
  · by_cases same : vertex = other
    · rw [same]
      exact inside
    · rw [index_eq, Function.update_of_ne same] at reached
      exact bounded vertex reached

/-- A vertex that was reached stays reached. -/
theorem reached_step (closed : ∀ vertex, ∀ other ∈ edges vertex, other < count) {vertex : Nat}
    (reached : (walk.index vertex).isSome = true) :
    ((walk.step edges reports).index vertex).isSome = true := by
  rcases step_index closed walk with index_eq | ⟨other, time, -, unreached, index_eq⟩
  · rw [index_eq]
    exact reached
  · have differs : vertex ≠ other := by
      rintro rfl
      rw [unreached] at reached
      cases reached
    rw [index_eq, Function.update_of_ne differs]
    exact reached

/-- Every turn with a call open leaves less to do. -/
theorem work_step (closed : ∀ vertex, ∀ other ∈ edges vertex, other < count)
    {call : Nat × Nat} {calls : List (Nat × Nat)} (calls_eq : walk.calls = call :: calls) :
    unreachedWork edges count (walk.step edges reports) +
        openWork edges (walk.step edges reports).calls <
      unreachedWork edges count walk + openWork edges walk.calls := by
  obtain ⟨vertex, taken⟩ := call
  unfold step
  rw [calls_eq]
  simp only
  split
  · next other edge =>
      have inside : taken < (edges vertex).length := (List.getElem?_eq_some_iff.mp edge).1
      rcases follow_cases { walk with calls := (vertex, taken + 1) :: calls } vertex other with
        ⟨unreached, follow_eq⟩ | ⟨-, index_eq, rest_eq⟩
      · rw [follow_eq, visit]
        have visit_work := unreachedWork_visit edges
          (closed vertex other (List.mem_of_getElem? edge)) unreached
        change unreachedWork edges count (walk.visit other) + _ = unreachedWork edges count walk
          at visit_work
        change unreachedWork edges count (walk.visit other) +
          openWork edges ((other, 0) :: (vertex, taken + 1) :: calls) < _
        simp only [openWork, List.map_cons, List.sum_cons]
        omega
      · have work_eq : unreachedWork edges count
            ({ walk with calls := (vertex, taken + 1) :: calls }.follow vertex other) =
              unreachedWork edges count walk := by
          simp [unreachedWork, index_eq]
        rw [work_eq, rest_eq]
        simp only [openWork, List.map_cons, List.sum_cons]
        omega
  · have work_eq : unreachedWork edges count (walk.close reports vertex calls) =
        unreachedWork edges count walk := by
      simp [unreachedWork, (close_rest walk vertex calls).1]
    rw [work_eq, (close_rest walk vertex calls).2]
    simp only [openWork, List.map_cons, List.sum_cons]
    omega

/-- With fuel for all that is left to do, the loop ends with no call open. -/
theorem Sound.run {root : Nat} {finished : List Nat}
    (closed : ∀ vertex, ∀ other ∈ edges vertex, other < count)
    (covers : ∀ vertex component, 1 < component.length → reports vertex component = true)
    (fuel : Nat) (sound : Sound edges reports root finished walk) (bounded : Bounded count walk)
    (enough : unreachedWork edges count walk + openWork edges walk.calls ≤ fuel) :
    (∃ finished, Sound edges reports root finished (walk.run edges reports fuel)) ∧
      Bounded count (walk.run edges reports fuel) ∧
      (∀ vertex, (walk.index vertex).isSome = true →
        ((walk.run edges reports fuel).index vertex).isSome = true) ∧
      (walk.run edges reports fuel).calls = [] := by
  induction fuel generalizing walk finished with
  | zero =>
      refine ⟨⟨finished, sound⟩, bounded, fun vertex reached => reached, ?_⟩
      cases calls_eq : walk.calls with
      | nil => exact calls_eq
      | cons call calls => simp [openWork, calls_eq] at enough
  | succ fuel ih =>
      unfold Walk.run
      split
      · next calls_eq => exact ⟨⟨finished, sound⟩, bounded, fun vertex reached => reached, calls_eq⟩
      · next call calls calls_eq =>
          obtain ⟨_, step_sound⟩ := sound.step covers
          have less : unreachedWork edges count (walk.step edges reports) +
              openWork edges (walk.step edges reports).calls <
                unreachedWork edges count walk + openWork edges walk.calls :=
            work_step closed calls_eq
          obtain ⟨run_sound, run_bounded, run_reached, run_calls⟩ :=
            ih step_sound (bounded.step closed) (by omega)
          exact ⟨run_sound, run_bounded,
            fun vertex reached => run_reached vertex (reached_step closed reached), run_calls⟩

/-- What holds between two roots: all that was reached is finished. -/
structure Rested (edges : Nat → List Nat) (reports : Nat → List Nat → Bool) (count : Nat)
    (finished : List Nat) (walk : Walk) : Prop where
  sound : ∀ root, Sound edges reports root finished walk
  empty : walk.stack = []
  bounded : Bounded count walk

theorem rested_start : Rested edges reports count [] Walk.start where
  sound := by
    intro root
    constructor <;> simp [Walk.start, callers, Finished]
  empty := rfl
  bounded := by
    intro vertex reached
    cases reached

theorem Rested.fromRoot {finished : List Nat} (rested : Rested edges reports count finished walk)
    (closed : ∀ vertex, ∀ other ∈ edges vertex, other < count)
    (covers : ∀ vertex component, 1 < component.length → reports vertex component = true)
    {fuel root : Nat} (inside : root < count)
    (enough : ∑ vertex ∈ Finset.range count, ((edges vertex).length + 1) ≤ fuel) :
    (∃ finished, Rested edges reports count finished (walk.fromRoot edges reports fuel root)) ∧
      (∀ vertex, vertex = root ∨ (walk.index vertex).isSome = true →
        ((walk.fromRoot edges reports fuel root).index vertex).isSome = true) := by
  unfold Walk.fromRoot
  cases index_eq : walk.index root with
  | some index =>
      refine ⟨⟨finished, rested⟩, ?_⟩
      rintro vertex (rfl | reached)
      · simp [index_eq]
      · exact reached
  | none =>
      have no_calls : walk.calls = [] := by
        have callers_sublist := (rested.sound root).callers_sublist
        rw [rested.empty, List.sublist_nil] at callers_sublist
        exact List.map_eq_nil_iff.mp callers_sublist
      have visited := (rested.sound root).visit index_eq (fun _ => rfl)
        (fun nonempty => absurd rested.empty nonempty)
      have bounded : Bounded count (walk.visit root) := by
        intro vertex reached
        by_cases same : vertex = root
        · rw [same]
          exact inside
        · exact rested.bounded vertex (by simpa [Walk.visit, same] using reached)
      have visit_work := unreachedWork_visit edges inside index_eq
      have all_work : unreachedWork edges count walk ≤
          ∑ vertex ∈ Finset.range count, ((edges vertex).length + 1) := by
        refine Finset.sum_le_sum fun vertex _ => ?_
        split_ifs
        · exact le_rfl
        · exact Nat.zero_le _
      have open_work : openWork edges (walk.visit root).calls = (edges root).length + 1 := by
        simp [openWork, Walk.visit, no_calls]
      obtain ⟨⟨finished, run_sound⟩, run_bounded, run_reached, run_calls⟩ :=
        visited.run closed covers fuel bounded (by omega)
      have run_empty := run_sound.stack_eq_nil run_calls
      refine ⟨⟨finished, fun other => run_sound.rebase run_empty other, run_empty, run_bounded⟩, ?_⟩
      rintro vertex (rfl | reached)
      · exact run_reached vertex (by simp [Walk.visit])
      · refine run_reached vertex ?_
        have differs : vertex ≠ root := by
          rintro rfl
          rw [index_eq] at reached
          cases reached
        simpa [Walk.visit, differs] using reached

theorem Rested.foldl {finished : List Nat} (rested : Rested edges reports count finished walk)
    (closed : ∀ vertex, ∀ other ∈ edges vertex, other < count)
    (covers : ∀ vertex component, 1 < component.length → reports vertex component = true)
    {fuel : Nat} (enough : ∑ vertex ∈ Finset.range count, ((edges vertex).length + 1) ≤ fuel)
    (roots : List Nat) (inside : ∀ root ∈ roots, root < count) :
    (∃ finished, Rested edges reports count finished
        (roots.foldl (Walk.fromRoot edges reports fuel) walk)) ∧
      (∀ vertex, vertex ∈ roots ∨ (walk.index vertex).isSome = true →
        ((roots.foldl (Walk.fromRoot edges reports fuel) walk).index vertex).isSome = true) := by
  induction roots generalizing walk finished with
  | nil => exact ⟨⟨finished, rested⟩, by simp⟩
  | cons root roots ih =>
      obtain ⟨⟨_, first_rested⟩, first_reached⟩ :=
        rested.fromRoot closed covers (inside root (by simp)) enough
      obtain ⟨rest_rested, rest_reached⟩ :=
        ih first_rested fun other other_mem => inside other (List.mem_cons_of_mem _ other_mem)
      refine ⟨rest_rested, ?_⟩
      rintro vertex (vertex_mem | reached)
      · rcases List.mem_cons.mp vertex_mem with rfl | vertex_mem
        · exact rest_reached vertex (Or.inr (first_reached vertex (Or.inl rfl)))
        · exact rest_reached vertex (Or.inl vertex_mem)
      · exact rest_reached vertex (Or.inr (first_reached vertex (Or.inr reached)))

end Walk

/-! ## Graphs without a reported component -/

theorem sum_turns (edges : List (List Nat)) :
    ∑ vertex ∈ Finset.range edges.length, ((leadsTo edges vertex).length + 1) = turns edges := by
  unfold turns leadsTo
  induction edges with
  | nil => rfl
  | cons targets edges ih =>
      rw [List.length_cons, Finset.sum_range_succ', List.map_cons, List.sum_cons, ← ih, add_comm]
      rfl

/-- Edges within the graph lead within the graph. -/
theorem leadsTo_lt {edges : List (List Nat)}
    (closed : ∀ targets ∈ edges, ∀ target ∈ targets, target < edges.length) :
    ∀ vertex, ∀ other ∈ leadsTo edges vertex, other < edges.length := by
  intro vertex other other_mem
  unfold leadsTo at other_mem
  rw [List.getD_eq_getElem?_getD] at other_mem
  cases targets_eq : edges[vertex]? with
  | none => simp [targets_eq] at other_mem
  | some targets =>
      rw [targets_eq, Option.getD_some] at other_mem
      exact closed targets (List.mem_of_getElem? targets_eq) other other_mem

/-- When every component of two or more vertices would be reported and none is, the vertices stand
in an order in which each one leads only to later ones, or to itself unreported. -/
theorem finished_of_reportedComponents {reports : Nat → List Nat → Bool} {edges : List (List Nat)}
    (covers : ∀ vertex component, 1 < component.length → reports vertex component = true)
    (closed : ∀ targets ∈ edges, ∀ target ∈ targets, target < edges.length)
    (none_reported : reportedComponents reports edges = []) :
    ∃ order, (∀ vertex < edges.length, vertex ∈ order) ∧
      Finished (leadsTo edges) reports order := by
  obtain ⟨⟨order, rested⟩, reached⟩ := Walk.rested_start.foldl (leadsTo_lt closed) covers
    (sum_turns edges).le (List.range edges.length) (by simp)
  refine ⟨order, ?_, ?_⟩
  · intro vertex inside
    have vertex_reached := reached vertex (Or.inl (List.mem_range.mpr inside))
    have stacked_or := ((rested.sound 0).reached_iff vertex).mp vertex_reached
    rw [rested.empty] at stacked_or
    simpa using stacked_or
  · refine (rested.sound 0).ordered ?_
    unfold reportedComponents at none_reported
    exact List.length_eq_zero_iff.mp (by rw [← List.length_mergeSort, none_reported]; rfl)

/-! ## A graph without edges -/

theorem Walk.fromRoot_edgeless {edges : Nat → List Nat} {reports : Nat → List Nat → Bool}
    (edgeless : ∀ vertex, edges vertex = []) (unreported : ∀ vertex, reports vertex [vertex] = false)
    (fuel : Nat) {walk : Walk} (calls_nil : walk.calls = []) (stack_nil : walk.stack = [])
    (root : Nat) :
    (walk.fromRoot edges reports (fuel + 1) root).calls = [] ∧
      (walk.fromRoot edges reports (fuel + 1) root).stack = [] ∧
      (walk.fromRoot edges reports (fuel + 1) root).onCycle = walk.onCycle := by
  rw [fromRoot]
  cases walk.index root with
  | some _ => exact ⟨calls_nil, stack_nil, rfl⟩
  | none =>
      have closed : (walk.visit root).step edges reports =
          (walk.visit root).close reports root [] := by
        simp [step, visit, calls_nil, edgeless]
      have popped : popUntil root [root] = ([root], []) := by simp [popUntil]
      have calls_closed : ((walk.visit root).close reports root []).calls = [] := by
        simp [close, visit, popComponent]
      have rested : run edges reports fuel ((walk.visit root).close reports root []) =
          (walk.visit root).close reports root [] := by
        cases fuel with
        | zero => rfl
        | succ fuel => rw [run, calls_closed]
      have ran : run edges reports (fuel + 1) (walk.visit root) =
          (walk.visit root).close reports root [] := by
        rw [run]
        simp only [visit]
        rw [← visit, closed, rested]
      rw [ran]
      refine ⟨calls_closed, ?_, ?_⟩
      · simp [close, visit, popComponent, stack_nil, popped]
      · simp [close, visit, popComponent, stack_nil, popped, unreported]

/-- A graph without edges has no component to report but the single vertices. -/
theorem reportedComponents_edgeless {reports : Nat → List Nat → Bool} {edges : List (List Nat)}
    (edgeless : ∀ targets ∈ edges, targets = [])
    (unreported : ∀ vertex, reports vertex [vertex] = false) :
    reportedComponents reports edges = [] := by
  have leads_nowhere (vertex : Nat) : leadsTo edges vertex = [] := by
    rw [leadsTo, List.getD_eq_getElem?_getD]
    cases found : edges[vertex]? with
    | none => rfl
    | some targets => exact edgeless targets (List.mem_of_getElem? found)
  have turns_eq : turns edges = edges.length := by
    rw [turns, List.map_congr_left (g := fun _ => 1) fun targets targets_mem => by
      rw [edgeless targets targets_mem, List.length_nil]]
    simp
  rw [reportedComponents, turns_eq]
  cases count : edges.length with
  | zero => exact List.mergeSort_nil
  | succ fuel =>
      have walked (roots : List Nat) (walk : Walk) (calls_nil : walk.calls = [])
          (stack_nil : walk.stack = []) :
          (roots.foldl (Walk.fromRoot (leadsTo edges) reports (fuel + 1)) walk).onCycle =
            walk.onCycle := by
        induction roots generalizing walk with
        | nil => rfl
        | cons root roots ih =>
            obtain ⟨calls_after, stack_after, onCycle_after⟩ :=
              Walk.fromRoot_edgeless leads_nowhere unreported fuel calls_nil stack_nil root
            rw [List.foldl_cons, ih _ calls_after stack_after, onCycle_after]
      rw [walked _ _ rfl rfl]
      exact List.mergeSort_nil

end Baley.Graph
