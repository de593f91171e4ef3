import Mathlib.Logic.Relation
import Baley.Graph.Components

/-!
# Exact components

Every popped component is one strongly connected component.  A caller that reports exactly the
components on a cycle is told exactly the vertices that lead back to themselves.
-/

namespace Baley.Graph

open Relation

/-- One edge of the graph. -/
def Leads (edges : Nat → List Nat) (vertex other : Nat) : Prop :=
  other ∈ edges vertex

/-- A path of any length. -/
abbrev Reaches (edges : Nat → List Nat) : Nat → Nat → Prop :=
  ReflTransGen (Leads edges)

/-- A vertex that a nonempty path leads back to. -/
def Cyclic (edges : Nat → List Nat) (vertex : Nat) : Prop :=
  TransGen (Leads edges) vertex vertex

theorem cyclic_iff_of_mutual {edges : Nat → List Nat} {vertex other : Nat}
    (there : Reaches edges vertex other) (back : Reaches edges other vertex) :
    Cyclic edges vertex ↔ Cyclic edges other := by
  have around {first second : Nat} (there : Reaches edges first second)
      (back : Reaches edges second first) (cyclic : Cyclic edges first) : Cyclic edges second :=
    (TransGen.trans_right back cyclic).trans_left there
  exact ⟨around there back, around back there⟩

/-- What popping until a vertex gives ends with the vertex. -/
theorem popUntil_eq_concat {vertex : Nat} {stack : List Nat} (vertex_mem : vertex ∈ stack) :
    ∃ above, (popUntil vertex stack).1 = above ++ [vertex] := by
  induction stack with
  | nil => cases vertex_mem
  | cons member rest ih =>
      rw [popUntil]
      split_ifs with same
      · exact ⟨[], by rw [same]; rfl⟩
      · obtain ⟨above, above_eq⟩ := ih ((List.mem_cons.mp vertex_mem).resolve_left (Ne.symm same))
        exact ⟨member :: above, by simp [above_eq]⟩

namespace Walk

variable {edges : Nat → List Nat} {reports : Nat → List Nat → Bool}

/-- What the numbers of a walk say about paths, given what was finished. -/
structure Tight (edges : Nat → List Nat) (finished : List Nat) (walk : Walk) : Prop where
  /-- The low number of a vertex is that of a vertex it leads to. -/
  witness : ∀ vertex ∈ walk.stack,
    ∃ other ∈ walk.stack, walk.reachedAt other = walk.low vertex ∧ Reaches edges vertex other
  /-- An open call leads to all that was reached after it. -/
  descends : ∀ caller ∈ walk.callers, ∀ vertex ∈ walk.stack,
    walk.reachedAt caller ≤ walk.reachedAt vertex → Reaches edges caller vertex
  returned_low : ∀ vertex ∈ walk.stack, vertex ∉ walk.callers → walk.low vertex < walk.reachedAt vertex
  returned_edges : ∀ vertex ∈ walk.stack, vertex ∉ walk.callers → ∀ other ∈ edges vertex,
    (walk.index other).isSome = true ∧
      (other ∈ walk.stack → walk.low vertex ≤ walk.reachedAt other)
  /-- A returned vertex is not lower than the innermost call it was reached in. -/
  above : ∀ vertex ∈ walk.stack, vertex ∉ walk.callers → ∃ caller ∈ walk.callers,
    walk.reachedAt caller ≤ walk.reachedAt vertex ∧ walk.low caller ≤ walk.low vertex ∧
      ∀ other ∈ walk.callers, walk.reachedAt other ≤ walk.reachedAt vertex →
        walk.reachedAt other ≤ walk.reachedAt caller
  closed : ∀ vertex ∈ finished, ∀ other ∈ edges vertex, other ∈ finished
  onCycle_iff : ∀ vertex, vertex ∈ walk.onCycle ↔ vertex ∈ finished ∧ Cyclic edges vertex
  onCycle_nodup : walk.onCycle.Nodup

namespace Tight

variable {root : Nat} {finished : List Nat} {walk : Walk}

theorem start : Tight edges [] Walk.start := by
  constructor <;> simp [Walk.start, callers]

/-- Reaching a vertex that the open calls lead to. -/
theorem visit (tight : Tight edges finished walk) (sound : Sound edges reports root finished walk)
    {vertex : Nat} (unreached : walk.index vertex = none)
    (led : ∀ caller ∈ walk.callers, Reaches edges caller vertex) :
    Tight edges finished (walk.visit vertex) := by
  have absent := sound.not_mem_stack unreached
  have differs {other : Nat} (other_mem : other ∈ walk.stack) : other ≠ vertex :=
    fun same => absent (same ▸ other_mem)
  have caller_mem {caller : Nat} (caller_mem : caller ∈ walk.callers) : caller ∈ walk.stack :=
    sound.callers_sublist.subset caller_mem
  have reachedAt_self : (walk.visit vertex).reachedAt vertex = walk.next := by
    simp [reachedAt, Walk.visit]
  have reachedAt_other {other : Nat} (other_mem : other ∈ walk.stack) :
      (walk.visit vertex).reachedAt other = walk.reachedAt other := by
    simp [reachedAt, Walk.visit, differs other_mem]
  have low_self : (walk.visit vertex).low vertex = walk.next := by simp [Walk.visit]
  have low_other {other : Nat} (other_mem : other ∈ walk.stack) :
      (walk.visit vertex).low other = walk.low other := by simp [Walk.visit, differs other_mem]
  have returned {other : Nat} (other_mem : other ∈ (walk.visit vertex).stack)
      (closed : other ∉ (walk.visit vertex).callers) :
      other ∈ walk.stack ∧ other ∉ walk.callers := by
    change other ∈ vertex :: walk.stack at other_mem
    change other ∉ vertex :: walk.callers at closed
    rw [List.mem_cons, not_or] at closed
    exact ⟨(List.mem_cons.mp other_mem).resolve_left closed.1, closed.2⟩
  constructor
  · intro other other_mem
    rcases List.mem_cons.mp other_mem with rfl | other_mem
    · exact ⟨other, List.mem_cons_self, reachedAt_self.trans low_self.symm, .refl⟩
    · obtain ⟨lowest, lowest_mem, low_eq, path⟩ := tight.witness other other_mem
      refine ⟨lowest, List.mem_cons_of_mem _ lowest_mem, ?_, path⟩
      rw [reachedAt_other lowest_mem, low_other other_mem, low_eq]
  · intro caller caller_of other other_mem le
    rcases List.mem_cons.mp caller_of with rfl | caller_open
    · rcases List.mem_cons.mp other_mem with rfl | other_stacked
      · exact .refl
      · have before := sound.before_next other other_stacked
        rw [reachedAt_self, reachedAt_other other_stacked] at le
        omega
    · rcases List.mem_cons.mp other_mem with rfl | other_stacked
      · exact led caller caller_open
      · rw [reachedAt_other (caller_mem caller_open), reachedAt_other other_stacked] at le
        exact tight.descends caller caller_open other other_stacked le
  · intro other other_mem closed
    obtain ⟨other_mem, closed⟩ := returned other_mem closed
    rw [low_other other_mem, reachedAt_other other_mem]
    exact tight.returned_low other other_mem closed
  · intro other other_mem closed target edge
    obtain ⟨other_mem, closed⟩ := returned other_mem closed
    obtain ⟨reached, low_le⟩ := tight.returned_edges other other_mem closed target edge
    have target_differs : target ≠ vertex := by
      rintro rfl
      rw [unreached] at reached
      cases reached
    refine ⟨by simpa [Walk.visit, target_differs] using reached, fun stacked => ?_⟩
    have target_mem := (List.mem_cons.mp stacked).resolve_left target_differs
    rw [low_other other_mem, reachedAt_other target_mem]
    exact low_le target_mem
  · intro other other_mem closed
    obtain ⟨stacked, closed⟩ := returned other_mem closed
    obtain ⟨caller, caller_of, le, low_le, innermost⟩ := tight.above other stacked closed
    refine ⟨caller, List.mem_cons_of_mem _ caller_of, ?_, ?_, ?_⟩
    · rwa [reachedAt_other (caller_mem caller_of), reachedAt_other stacked]
    · rwa [low_other (caller_mem caller_of), low_other stacked]
    · intro second second_of second_le
      rw [reachedAt_other (caller_mem caller_of)]
      rw [reachedAt_other stacked] at second_le
      rcases List.mem_cons.mp second_of with rfl | second_open
      · have before := sound.before_next other stacked
        rw [reachedAt_self] at second_le
        omega
      · rw [reachedAt_other (caller_mem second_open)] at second_le ⊢
        exact innermost second second_open second_le
  · exact tight.closed
  · exact tight.onCycle_iff
  · exact tight.onCycle_nodup

/-- Lowering an open call to a vertex it leads to. -/
theorem lower (tight : Tight edges finished walk) {vertex bound : Nat}
    (vertex_of : vertex ∈ walk.callers)
    (bounded : ∃ other ∈ walk.stack, walk.reachedAt other = bound ∧ Reaches edges vertex other) :
    Tight edges finished (walk.lower vertex bound) := by
  have low_le (other : Nat) : (walk.lower vertex bound).low other ≤ walk.low other := by
    by_cases same : other = vertex
    · simp [Walk.lower, same]
    · simp [Walk.lower, same]
  have low_returned {other : Nat} (closed : other ∉ walk.callers) :
      (walk.lower vertex bound).low other = walk.low other := by
    have differs : other ≠ vertex := fun same => closed (same ▸ vertex_of)
    simp [Walk.lower, differs]
  constructor
  · intro other other_mem
    by_cases same : other = vertex
    · subst same
      have low_eq : (walk.lower other bound).low other = min (walk.low other) bound := by
        simp [Walk.lower]
      rw [low_eq]
      rcases min_choice (walk.low other) bound with min_eq | min_eq
      · rw [min_eq]
        exact tight.witness other other_mem
      · rw [min_eq]
        exact bounded
    · have low_eq : (walk.lower vertex bound).low other = walk.low other := by
        simp [Walk.lower, same]
      rw [low_eq]
      exact tight.witness other other_mem
  · exact tight.descends
  · intro other other_mem closed
    rw [low_returned closed]
    exact tight.returned_low other other_mem closed
  · intro other other_mem closed
    rw [low_returned closed]
    exact tight.returned_edges other other_mem closed
  · intro other other_mem closed
    obtain ⟨caller, caller_of, le, caller_low, innermost⟩ := tight.above other other_mem closed
    rw [low_returned closed]
    exact ⟨caller, caller_of, le, (low_le caller).trans caller_low, innermost⟩
  · exact tight.closed
  · exact tight.onCycle_iff
  · exact tight.onCycle_nodup

/-- Counting the edges of the open calls anew. -/
theorem recount (tight : Tight edges finished walk) {calls : List (Nat × Nat)}
    (callers_eq : calls.map Prod.fst = walk.callers) :
    Tight edges finished { walk with calls } := by
  obtain ⟨witness, descends, returned_low, returned_edges, above, closed, onCycle_iff, nodup⟩ := tight
  rw [← callers_eq] at descends returned_low returned_edges above
  exact ⟨witness, descends, returned_low, returned_edges, above, closed, onCycle_iff, nodup⟩

/-- The vertices of the other open calls were reached before the innermost one's. -/
theorem callers_before (sound : Sound edges reports root finished walk) {vertex : Nat}
    {callers : List Nat} (callers_eq : walk.callers = vertex :: callers) :
    ∀ caller ∈ callers, walk.reachedAt caller < walk.reachedAt vertex := by
  have sorted := sound.sorted.sublist sound.callers_sublist
  rw [callers_eq] at sorted
  exact (List.pairwise_cons.mp sorted).1

/-- Closing a call that leaves its vertex on the stack. -/
theorem returned (tight : Tight edges finished walk) (sound : Sound edges reports root finished walk)
    {vertex count parent taken : Nat} {calls : List (Nat × Nat)}
    (calls_eq : walk.calls = (vertex, count) :: (parent, taken) :: calls)
    (all_taken : (edges vertex)[count]? = none)
    (lowered : walk.low vertex < walk.reachedAt vertex)
    (parent_low : walk.low parent ≤ walk.low vertex) :
    Tight edges finished { walk with calls := (parent, taken) :: calls } := by
  have callers_eq : walk.callers = vertex :: parent :: calls.map Prod.fst := by
    simp [callers, calls_eq]
  have before := callers_before sound callers_eq
  have innermost : ∀ caller ∈ parent :: calls.map Prod.fst,
      walk.reachedAt caller ≤ walk.reachedAt parent := by
    have sorted := sound.sorted.sublist sound.callers_sublist
    rw [callers_eq] at sorted
    intro caller caller_of
    rcases List.mem_cons.mp caller_of with rfl | caller_of
    · exact le_rfl
    · exact ((List.pairwise_cons.mp (List.pairwise_cons.mp sorted).2).1 caller caller_of).le
  have still_open {caller : Nat} (caller_of : caller ∈ parent :: calls.map Prod.fst) :
      caller ∈ walk.callers := by
    rw [callers_eq]
    exact List.mem_cons_of_mem _ caller_of
  have was_closed {other : Nat} (closed : other ∉ parent :: calls.map Prod.fst)
      (differs : other ≠ vertex) : other ∉ walk.callers := by
    rw [callers_eq, List.mem_cons, not_or]
    exact ⟨differs, closed⟩
  constructor
  · exact tight.witness
  · exact fun caller caller_of => tight.descends caller (still_open caller_of)
  · intro other other_mem closed
    by_cases same : other = vertex
    · rw [same]
      exact lowered
    · exact tight.returned_low other other_mem (was_closed closed same)
  · intro other other_mem closed
    by_cases same : other = vertex
    · subst same
      have taken_all : (edges other).take count = edges other :=
        List.take_of_length_le (List.getElem?_eq_none_iff.mp all_taken)
      intro target edge
      exact sound.taken other count (by simp [calls_eq]) target (by rwa [taken_all])
    · exact tight.returned_edges other other_mem (was_closed closed same)
  · intro other other_mem closed
    by_cases same : other = vertex
    · rw [same]
      exact ⟨parent, List.mem_cons_self, (before parent List.mem_cons_self).le, parent_low,
        fun caller caller_of _ => innermost caller caller_of⟩
    · obtain ⟨caller, caller_of, le, low_le, latest⟩ :=
        tight.above other other_mem (was_closed closed same)
      rw [callers_eq] at caller_of
      rcases List.mem_cons.mp caller_of with rfl | caller_open
      · exact ⟨parent, List.mem_cons_self, (before parent List.mem_cons_self).le.trans le,
          parent_low.trans low_le, fun second second_of _ => innermost second second_of⟩
      · exact ⟨caller, caller_open, le, low_le,
          fun second second_of => latest second (still_open second_of)⟩
  · exact tight.closed
  · exact tight.onCycle_iff
  · exact tight.onCycle_nodup

/-- The component that the innermost call pops: what was reached since it was opened, which is what
leads there and back. -/
structure Popped (edges : Nat → List Nat) (finished : List Nat) (walk : Walk) (vertex : Nat)
    (component rest : List Nat) : Prop where
  append_eq : component ++ rest = walk.stack
  mem_iff : ∀ other, other ∈ component ↔
    other ∈ walk.stack ∧ walk.reachedAt vertex ≤ walk.reachedAt other
  closed : ∀ other ∈ component, ∀ target ∈ edges other, target ∈ component ++ finished
  mutual_iff : ∀ other,
    other ∈ component ↔ Reaches edges vertex other ∧ Reaches edges other vertex

/-- Popping until a vertex pops what was reached since. -/
theorem mem_popUntil (sound : Sound edges reports root finished walk) {vertex : Nat}
    (vertex_mem : vertex ∈ walk.stack) (other : Nat) :
    other ∈ (popUntil vertex walk.stack).1 ↔
      other ∈ walk.stack ∧ walk.reachedAt vertex ≤ walk.reachedAt other := by
  obtain ⟨above, above_eq⟩ := popUntil_eq_concat vertex_mem
  have append_eq := popUntil_append vertex walk.stack
  have sorted := sound.sorted
  rw [← append_eq, above_eq] at sorted
  obtain ⟨upper_sorted, -, apart⟩ := List.pairwise_append.mp sorted
  have upper := (List.pairwise_append.mp upper_sorted).2.2
  rw [above_eq]
  constructor
  · intro other_mem
    refine ⟨?_, ?_⟩
    · rw [← append_eq, above_eq]
      exact List.mem_append_left _ other_mem
    · rcases List.mem_append.mp other_mem with other_above | other_last
      · exact (upper other other_above vertex (by simp)).le
      · rw [List.mem_singleton.mp other_last]
  · rintro ⟨other_mem, le⟩
    rw [← append_eq, above_eq] at other_mem
    refine (List.mem_append.mp other_mem).resolve_right fun other_below => ?_
    have less := apart vertex (by simp) other other_below
    omega

theorem popped (tight : Tight edges finished walk) (sound : Sound edges reports root finished walk)
    {vertex count : Nat} {calls : List (Nat × Nat)} (calls_eq : walk.calls = (vertex, count) :: calls)
    (all_taken : (edges vertex)[count]? = none) (low_eq : walk.low vertex = walk.reachedAt vertex) :
    Popped edges finished walk vertex (popUntil vertex walk.stack).1
      (popUntil vertex walk.stack).2 := by
  have callers_eq : walk.callers = vertex :: calls.map Prod.fst := by simp [callers, calls_eq]
  have vertex_of : vertex ∈ walk.callers := by simp [callers_eq]
  have vertex_mem : vertex ∈ walk.stack := sound.callers_sublist.subset vertex_of
  have before := callers_before sound callers_eq
  have mem_iff := mem_popUntil sound vertex_mem
  have closed_call {other : Nat} (le : walk.reachedAt vertex ≤ walk.reachedAt other)
      (differs : other ≠ vertex) : other ∉ walk.callers := by
    rw [callers_eq, List.mem_cons, not_or]
    refine ⟨differs, fun other_of => ?_⟩
    have less := before other other_of
    omega
  -- Nothing in the component is lower than its vertex.
  have low_le : ∀ other ∈ (popUntil vertex walk.stack).1, walk.reachedAt vertex ≤ walk.low other := by
    intro other other_mem
    obtain ⟨stacked, le⟩ := (mem_iff other).mp other_mem
    by_cases same : other = vertex
    · rw [same, low_eq]
    · obtain ⟨caller, caller_of, -, caller_low, innermost⟩ :=
        tight.above other stacked (closed_call le same)
      have caller_le := innermost vertex vertex_of le
      rw [callers_eq] at caller_of
      rcases List.mem_cons.mp caller_of with rfl | caller_open
      · omega
      · have less := before caller caller_open
        omega
  have edges_closed : ∀ other ∈ (popUntil vertex walk.stack).1, ∀ target ∈ edges other,
      target ∈ (popUntil vertex walk.stack).1 ++ finished := by
    intro other other_mem target edge
    obtain ⟨stacked, le⟩ := (mem_iff other).mp other_mem
    have followed : (walk.index target).isSome = true ∧
        (target ∈ walk.stack → walk.low other ≤ walk.reachedAt target) := by
      by_cases same : other = vertex
      · subst same
        have taken_all : (edges other).take count = edges other :=
          List.take_of_length_le (List.getElem?_eq_none_iff.mp all_taken)
        exact sound.taken other count (by simp [calls_eq]) target (by rwa [taken_all])
      · exact tight.returned_edges other stacked (closed_call le same) target edge
    rw [List.mem_append, mem_iff]
    rcases (sound.reached_iff target).mp followed.1 with target_mem | target_finished
    · exact .inl ⟨target_mem, (low_le other other_mem).trans (followed.2 target_mem)⟩
    · exact .inr target_finished
  -- By induction on when a vertex was reached: its low number names one reached earlier.
  have leads_back : ∀ time, ∀ other ∈ (popUntil vertex walk.stack).1,
      walk.reachedAt other = time → Reaches edges other vertex := by
    intro time
    induction time using Nat.strong_induction_on with
    | h time ih =>
        intro other other_mem time_eq
        by_cases same : other = vertex
        · rw [same]
        · obtain ⟨stacked, le⟩ := (mem_iff other).mp other_mem
          have less := tight.returned_low other stacked (closed_call le same)
          obtain ⟨lowest, lowest_mem, reached_eq, path⟩ := tight.witness other stacked
          have lowest_popped : lowest ∈ (popUntil vertex walk.stack).1 :=
            (mem_iff lowest).mpr ⟨lowest_mem, reached_eq.symm ▸ low_le other other_mem⟩
          exact path.trans (ih (walk.reachedAt lowest) (by omega) lowest lowest_popped rfl)
  have path_closed {first last : Nat} (path : Reaches edges first last)
      (first_mem : first ∈ (popUntil vertex walk.stack).1 ++ finished) :
      last ∈ (popUntil vertex walk.stack).1 ++ finished := by
    induction path with
    | refl => exact first_mem
    | tail _ edge ih =>
        rcases List.mem_append.mp ih with inside | outside
        · exact edges_closed _ inside _ edge
        · exact List.mem_append_right _ (tight.closed _ outside _ edge)
  have finished_closed {first last : Nat} (path : Reaches edges first last)
      (first_mem : first ∈ finished) : last ∈ finished := by
    induction path with
    | refl => exact first_mem
    | tail _ edge ih => exact tight.closed _ ih _ edge
  refine ⟨popUntil_append vertex walk.stack, mem_iff, edges_closed, fun other => ⟨?_, ?_⟩⟩
  · intro other_mem
    obtain ⟨stacked, le⟩ := (mem_iff other).mp other_mem
    exact ⟨tight.descends vertex vertex_of other stacked le, leads_back _ other other_mem rfl⟩
  · rintro ⟨there, back⟩
    have vertex_popped : vertex ∈ (popUntil vertex walk.stack).1 :=
      (mem_iff vertex).mpr ⟨vertex_mem, le_rfl⟩
    rcases List.mem_append.mp (path_closed there (List.mem_append_left _ vertex_popped)) with
      inside | outside
    · exact inside
    · exact absurd (finished_closed back outside) (sound.disjoint vertex vertex_mem)

/-- A component is reported exactly when it is on a cycle. -/
def ReportsCycles (edges : Nat → List Nat) (reports : Nat → List Nat → Bool) : Prop :=
  ∀ vertex component, component.Nodup →
    (∀ other, other ∈ component ↔ Reaches edges vertex other ∧ Reaches edges other vertex) →
      (reports vertex component = true ↔ Cyclic edges vertex)

/-- Where no vertex leads to itself at once, a component is on a cycle when it has two vertices. -/
theorem reportsCycles_of_loopless {reports : Nat → List Nat → Bool}
    (loopless : ∀ vertex, vertex ∉ edges vertex)
    (reports_iff : ∀ vertex component, reports vertex component = true ↔ 1 < component.length) :
    ReportsCycles edges reports := by
  intro vertex component nodup mutual_iff
  have vertex_mem : vertex ∈ component := (mutual_iff vertex).mpr ⟨.refl, .refl⟩
  rw [reports_iff]
  constructor
  · intro large
    obtain ⟨other, other_mem, differs⟩ : ∃ other ∈ component, other ≠ vertex := by
      by_contra alone
      push Not at alone
      have sub : component ⊆ [vertex] := fun other other_mem => by simp [alone other other_mem]
      have small := (nodup.subperm sub).length_le
      simp at small
      omega
    obtain ⟨there, back⟩ := (mutual_iff other).mp other_mem
    rcases ReflTransGen.cases_head there with same | ⟨first, edge, rest⟩
    · exact absurd same.symm differs
    · exact TransGen.head' edge (rest.trans back)
  · intro cyclic
    obtain ⟨other, edge, back⟩ := TransGen.head'_iff.mp cyclic
    have differs : vertex ≠ other := by
      rintro rfl
      exact loopless vertex edge
    have other_mem : other ∈ component := (mutual_iff other).mpr ⟨.single edge, back⟩
    have sub : [vertex, other] ⊆ component := by simp [vertex_mem, other_mem]
    have pair_nodup : [vertex, other].Nodup := by simp [differs]
    exact (pair_nodup.subperm sub).length_le

/-- Popping the component of the innermost call, which closes it. -/
theorem popComponent (tight : Tight edges finished walk)
    (sound : Sound edges reports root finished walk) (exactly : ReportsCycles edges reports)
    {vertex count : Nat} {calls : List (Nat × Nat)} (calls_eq : walk.calls = (vertex, count) :: calls)
    (all_taken : (edges vertex)[count]? = none) (low_eq : walk.low vertex = walk.reachedAt vertex) :
    Tight edges ((popUntil vertex walk.stack).1 ++ finished)
      ({ walk with calls }.popComponent reports vertex) := by
  have callers_eq : walk.callers = vertex :: calls.map Prod.fst := by simp [callers, calls_eq]
  have popped := tight.popped sound calls_eq all_taken low_eq
  simp only [Walk.popComponent]
  generalize popUntil vertex walk.stack = parts at *
  obtain ⟨component, rest⟩ := parts
  simp only at *
  obtain ⟨append_eq, mem_iff, edges_closed, mutual_iff⟩ := popped
  have nodup := sound.nodup
  rw [← append_eq, List.nodup_append] at nodup
  have rest_mem {other : Nat} (other_mem : other ∈ rest) : other ∈ walk.stack := by
    rw [← append_eq]
    exact List.mem_append_right _ other_mem
  have below {other : Nat} (other_mem : other ∈ rest) :
      walk.reachedAt other < walk.reachedAt vertex := by
    by_contra later
    have inside := (mem_iff other).mpr ⟨rest_mem other_mem, not_lt.mp later⟩
    exact nodup.2.2 other inside other other_mem rfl
  have stays {other : Nat} (other_mem : other ∈ walk.stack)
      (earlier : walk.reachedAt other < walk.reachedAt vertex) : other ∈ rest := by
    rw [← append_eq] at other_mem
    refine (List.mem_append.mp other_mem).resolve_left fun inside => ?_
    have later := ((mem_iff other).mp inside).2
    omega
  have was_closed {other : Nat} (other_mem : other ∈ rest) (closed : other ∉ calls.map Prod.fst) :
      other ∉ walk.callers := by
    rw [callers_eq, List.mem_cons, not_or]
    refine ⟨?_, closed⟩
    rintro rfl
    exact lt_irrefl _ (below other_mem)
  have apart : ∀ other ∈ component, other ∉ finished := fun other other_mem =>
    sound.disjoint other ((mem_iff other).mp other_mem).1
  have cyclic_iff {other : Nat} (other_mem : other ∈ component) :
      Cyclic edges other ↔ reports vertex component = true := by
    obtain ⟨there, back⟩ := (mutual_iff other).mp other_mem
    rw [exactly vertex component nodup.1 mutual_iff]
    exact cyclic_iff_of_mutual back there
  constructor
  · intro other other_mem
    obtain ⟨lowest, lowest_mem, reached_eq, path⟩ := tight.witness other (rest_mem other_mem)
    have low_le := sound.low_le other (rest_mem other_mem)
    have earlier := below other_mem
    exact ⟨lowest, stays lowest_mem (by omega), reached_eq, path⟩
  · intro caller caller_of other other_mem
    refine tight.descends caller ?_ other (rest_mem other_mem)
    rw [callers_eq]
    exact List.mem_cons_of_mem _ caller_of
  · intro other other_mem closed
    exact tight.returned_low other (rest_mem other_mem) (was_closed other_mem closed)
  · intro other other_mem closed target edge
    obtain ⟨reached, low_le⟩ :=
      tight.returned_edges other (rest_mem other_mem) (was_closed other_mem closed) target edge
    exact ⟨reached, fun target_mem => low_le (rest_mem target_mem)⟩
  · intro other other_mem closed
    obtain ⟨caller, caller_of, le, low_le, innermost⟩ :=
      tight.above other (rest_mem other_mem) (was_closed other_mem closed)
    rw [callers_eq] at caller_of
    rcases List.mem_cons.mp caller_of with rfl | caller_open
    · have earlier := below other_mem
      change walk.reachedAt caller ≤ walk.reachedAt other at le
      omega
    · refine ⟨caller, caller_open, le, low_le, fun second second_of => ?_⟩
      refine innermost second ?_
      rw [callers_eq]
      exact List.mem_cons_of_mem _ second_of
  · intro other other_mem target edge
    rcases List.mem_append.mp other_mem with inside | outside
    · exact edges_closed other inside target edge
    · exact List.mem_append_right _ (tight.closed other outside target edge)
  · intro other
    rw [List.mem_append]
    by_cases inside : other ∈ component
    · have unlisted : other ∉ walk.onCycle := fun listed =>
        apart other inside ((tight.onCycle_iff other).mp listed).1
      rw [cyclic_iff inside]
      split_ifs with reported <;> simp [inside, unlisted, reported]
    · have listed_iff := tight.onCycle_iff other
      split_ifs <;> simp [inside, listed_iff]
  · have listed_apart : ∀ first ∈ walk.onCycle, ∀ second ∈ component, first ≠ second := by
      rintro first listed second inside rfl
      exact apart first inside ((tight.onCycle_iff first).mp listed).1
    simp only
    split_ifs
    · exact List.nodup_append.mpr ⟨tight.onCycle_nodup, nodup.1, listed_apart⟩
    · exact tight.onCycle_nodup

end Tight

/-! ## The loop -/

variable {root count : Nat} {walk : Walk}

/-- A walk that is sound and whose numbers are tight, for some finished vertices. -/
def Faithful (edges : Nat → List Nat) (reports : Nat → List Nat → Bool) (root : Nat)
    (walk : Walk) : Prop :=
  ∃ finished, Sound edges reports root finished walk ∧ Tight edges finished walk

/-- Closing the innermost call. -/
theorem Faithful.close (exactly : Tight.ReportsCycles edges reports)
    (covers : ∀ vertex component, 1 < component.length → reports vertex component = true)
    (faithful : Faithful edges reports root walk) {vertex count : Nat} {calls : List (Nat × Nat)}
    (calls_eq : walk.calls = (vertex, count) :: calls) (all_taken : (edges vertex)[count]? = none) :
    Faithful edges reports root (walk.close reports vertex calls) := by
  obtain ⟨finished, sound, tight⟩ := faithful
  have callers_eq : walk.callers = vertex :: calls.map Prod.fst := by simp [callers, calls_eq]
  have vertex_of : vertex ∈ walk.callers := by simp [callers_eq]
  have vertex_mem : vertex ∈ walk.stack := sound.callers_sublist.subset vertex_of
  have index_eq := sound.index_eq vertex_mem
  have callers_nodup := sound.nodup.sublist sound.callers_sublist
  rw [callers_eq, List.nodup_cons] at callers_nodup
  have own_iff (low : Nat → Nat) (same_low : low vertex = walk.low vertex) :
      walk.index vertex = some (low vertex) ↔ walk.low vertex = walk.reachedAt vertex := by
    rw [same_low, index_eq, Option.some.injEq, eq_comm]
  cases calls with
  | nil =>
      -- The root's call always pops.
      have low_eq := (sound.low_of_outermost calls_eq).2
      unfold Walk.close
      simp only
      rw [if_pos ((own_iff _ rfl).mpr low_eq)]
      exact ⟨_, sound.popComponent covers calls_eq all_taken low_eq,
        tight.popComponent sound exactly calls_eq all_taken low_eq⟩
  | cons call calls =>
      obtain ⟨parent, taken⟩ := call
      have parent_of : parent ∈ walk.callers := by simp [callers_eq]
      have parent_mem : parent ∈ walk.stack := sound.callers_sublist.subset parent_of
      have parent_before : walk.reachedAt parent < walk.reachedAt vertex :=
        Tight.callers_before sound callers_eq parent (by simp)
      have differs : vertex ≠ parent := by
        rintro rfl
        exact callers_nodup.1 (by simp)
      obtain ⟨lowest, lowest_mem, reached_eq, path⟩ := tight.witness vertex vertex_mem
      have parent_path := tight.descends parent parent_of vertex vertex_mem parent_before.le
      have lowered_sound : Sound edges reports root finished (walk.lower parent (walk.low vertex)) :=
        sound.lower (sound.root_le vertex vertex_mem)
      have lowered_tight : Tight edges finished (walk.lower parent (walk.low vertex)) :=
        tight.lower parent_of ⟨lowest, lowest_mem, reached_eq, parent_path.trans path⟩
      have lowered_low : (walk.lower parent (walk.low vertex)).low vertex = walk.low vertex := by
        simp [Walk.lower, differs]
      unfold Walk.close
      simp only
      split_ifs with own
      · have low_eq := (own_iff _ lowered_low).mp own
        have lowered_eq : (walk.lower parent (walk.low vertex)).low vertex =
            (walk.lower parent (walk.low vertex)).reachedAt vertex := by
          rw [lowered_low, low_eq]
          rfl
        exact ⟨_, lowered_sound.popComponent covers calls_eq all_taken lowered_eq,
          lowered_tight.popComponent lowered_sound exactly calls_eq all_taken lowered_eq⟩
      · have low_ne : walk.low vertex ≠ walk.reachedAt vertex := mt (own_iff _ lowered_low).mpr own
        have less : walk.low vertex < walk.reachedAt vertex :=
          lt_of_le_of_ne (sound.low_le vertex vertex_mem) low_ne
        refine ⟨finished, lowered_sound.close_unpopped calls_eq, ?_⟩
        refine lowered_tight.returned lowered_sound calls_eq all_taken ?_ ?_
        · rw [lowered_low]
          exact less
        · rw [lowered_low]
          simp [Walk.lower]

/-- Following an edge of the innermost call. -/
theorem Faithful.follow (faithful : Faithful edges reports root walk) {vertex taken other : Nat}
    {calls : List (Nat × Nat)} (calls_eq : walk.calls = (vertex, taken) :: calls)
    (edge : (edges vertex)[taken]? = some other) :
    Faithful edges reports root
      ({ walk with calls := (vertex, taken + 1) :: calls }.follow vertex other) := by
  obtain ⟨finished, sound, tight⟩ := faithful
  refine ⟨finished, sound.follow calls_eq edge, ?_⟩
  have callers_eq : walk.callers = vertex :: calls.map Prod.fst := by simp [callers, calls_eq]
  have vertex_of : vertex ∈ walk.callers := by simp [callers_eq]
  have vertex_mem : vertex ∈ walk.stack := sound.callers_sublist.subset vertex_of
  have leads : Leads edges vertex other := List.mem_of_getElem? edge
  have led : ∀ caller ∈ walk.callers, Reaches edges caller other := by
    intro caller caller_of
    have le : walk.reachedAt caller ≤ walk.reachedAt vertex := by
      rw [callers_eq] at caller_of
      rcases List.mem_cons.mp caller_of with rfl | caller_open
      · exact le_rfl
      · exact (Tight.callers_before sound callers_eq caller caller_open).le
    exact (tight.descends caller caller_of vertex vertex_mem le).tail leads
  unfold Walk.follow
  cases index_eq : walk.index other with
  | none =>
      simp only
      exact (tight.visit sound index_eq led).recount (by simp [callers, Walk.visit, calls_eq])
  | some index =>
      have reached_eq : walk.reachedAt other = index := by simp [reachedAt, index_eq]
      simp only
      split_ifs with stacked
      · have other_mem := (sound.onStack_iff other).mp stacked
        have lowered := tight.lower vertex_of ⟨other, other_mem, reached_eq, .single leads⟩
        exact lowered.recount (by simp [callers, Walk.lower, calls_eq])
      · exact tight.recount (by simp [callers, calls_eq])

/-- One turn of the loop. -/
theorem Faithful.step (exactly : Tight.ReportsCycles edges reports)
    (covers : ∀ vertex component, 1 < component.length → reports vertex component = true)
    (faithful : Faithful edges reports root walk) :
    Faithful edges reports root (walk.step edges reports) := by
  unfold Walk.step
  split
  · exact faithful
  · next vertex taken calls calls_eq =>
      split
      · next other edge => exact faithful.follow calls_eq edge
      · next all_taken => exact faithful.close exactly covers calls_eq all_taken

/-- With no call open the walk may go on from any root. -/
theorem Faithful.rebase (faithful : Faithful edges reports root walk) (closed : walk.calls = [])
    (other : Nat) : Faithful edges reports other walk := by
  obtain ⟨finished, sound, tight⟩ := faithful
  exact ⟨finished, sound.rebase (sound.stack_eq_nil closed) other, tight⟩

/-- Starting from a root that was not reached, with no call open. -/
theorem Faithful.visit (faithful : Faithful edges reports root walk) (closed : walk.calls = [])
    {other : Nat} (unreached : walk.index other = none) :
    Faithful edges reports other (walk.visit other) := by
  obtain ⟨finished, sound, tight⟩ := faithful.rebase closed other
  have empty := sound.stack_eq_nil closed
  refine ⟨finished, sound.visit unreached (fun _ => rfl) fun nonempty => absurd empty nonempty, ?_⟩
  refine tight.visit sound unreached fun caller caller_of => ?_
  rw [callers, closed] at caller_of
  cases caller_of

/-! ## The search -/

/-- The walks that the search comes through: each root is started with no call open. -/
inductive Searching (edges : Nat → List Nat) (reports : Nat → List Nat → Bool) (count : Nat) :
    Walk → Prop
  | start : Searching edges reports count Walk.start
  | root {walk : Walk} {root : Nat} (searching : Searching edges reports count walk)
      (closed : walk.calls = []) (inside : root < count) (unreached : walk.index root = none) :
      Searching edges reports count (walk.visit root)
  | turn {walk : Walk} (searching : Searching edges reports count walk) :
      Searching edges reports count (walk.step edges reports)

namespace Searching

theorem faithful (exactly : Tight.ReportsCycles edges reports)
    (covers : ∀ vertex component, 1 < component.length → reports vertex component = true)
    (searching : Searching edges reports count walk) :
    ∃ root, Faithful edges reports root walk := by
  induction searching with
  | start =>
      have rested : Rested edges reports count [] Walk.start := rested_start
      exact ⟨0, [], rested.sound 0, Tight.start⟩
  | root _ closed _ unreached ih =>
      obtain ⟨_, faithful⟩ := ih
      exact ⟨_, faithful.visit closed unreached⟩
  | turn _ ih =>
      obtain ⟨root, faithful⟩ := ih
      exact ⟨root, faithful.step exactly covers⟩

theorem bounded (leads_inside : ∀ vertex, ∀ other ∈ edges vertex, other < count)
    (searching : Searching edges reports count walk) : Bounded count walk := by
  induction searching with
  | start =>
      intro vertex reached
      cases reached
  | @root walk root _ _ inside _ ih =>
      intro vertex reached
      by_cases same : vertex = root
      · rw [same]
        exact inside
      · exact ih vertex (by simpa [Walk.visit, same] using reached)
  | turn _ ih => exact ih.step leads_inside

/-- Nothing the search looks up is out of range: neither what is on the stack, nor an open call,
nor an edge that a call may still take. -/
theorem inside (exactly : Tight.ReportsCycles edges reports)
    (covers : ∀ vertex component, 1 < component.length → reports vertex component = true)
    (leads_inside : ∀ vertex, ∀ other ∈ edges vertex, other < count)
    (searching : Searching edges reports count walk) :
    (∀ vertex ∈ walk.stack, vertex < count) ∧
      ∀ call ∈ walk.calls, call.1 ∈ walk.stack ∧ ∀ other ∈ edges call.1, other < count := by
  obtain ⟨root, finished, sound, -⟩ := searching.faithful exactly covers
  refine ⟨fun vertex vertex_mem => ?_, fun call call_mem => ⟨?_, leads_inside call.1⟩⟩
  · exact searching.bounded leads_inside vertex ((sound.reached_iff vertex).mpr (.inl vertex_mem))
  · exact sound.callers_sublist.subset (List.mem_map_of_mem call_mem)

/-- What there is left to do never grows. -/
theorem work_le (leads_inside : ∀ vertex, ∀ other ∈ edges vertex, other < count)
    (searching : Searching edges reports count walk) :
    unreachedWork edges count walk + openWork edges walk.calls ≤
      ∑ vertex ∈ Finset.range count, ((edges vertex).length + 1) := by
  induction searching with
  | start => simp [unreachedWork, openWork, Walk.start]
  | @root walk root _ closed inside unreached ih =>
      have visit_work := unreachedWork_visit edges inside unreached
      have open_work : openWork edges (walk.visit root).calls = (edges root).length + 1 := by
        simp [openWork, Walk.visit, closed]
      omega
  | @turn walk _ ih =>
      cases calls_eq : walk.calls with
      | nil =>
          have rests : walk.step edges reports = walk := by
            unfold Walk.step
            rw [calls_eq]
          rwa [rests]
      | cons call calls => exact (work_step leads_inside calls_eq).le.trans ih

theorem run (fuel : Nat) (searching : Searching edges reports count walk) :
    Searching edges reports count (walk.run edges reports fuel) := by
  induction fuel generalizing walk with
  | zero => exact searching
  | succ fuel ih =>
      unfold Walk.run
      split
      · exact searching
      · exact ih searching.turn

/-- With fuel for all there is to do, the loop ends. -/
theorem run_calls (exactly : Tight.ReportsCycles edges reports)
    (covers : ∀ vertex component, 1 < component.length → reports vertex component = true)
    (leads_inside : ∀ vertex, ∀ other ∈ edges vertex, other < count) {fuel : Nat}
    (enough : ∑ vertex ∈ Finset.range count, ((edges vertex).length + 1) ≤ fuel)
    (searching : Searching edges reports count walk) :
    (walk.run edges reports fuel).calls = [] := by
  obtain ⟨root, finished, sound, -⟩ := searching.faithful exactly covers
  exact (sound.run leads_inside covers fuel (searching.bounded leads_inside)
    ((searching.work_le leads_inside).trans enough)).2.2.2

theorem foldl (exactly : Tight.ReportsCycles edges reports)
    (covers : ∀ vertex component, 1 < component.length → reports vertex component = true)
    (leads_inside : ∀ vertex, ∀ other ∈ edges vertex, other < count) {fuel : Nat}
    (enough : ∑ vertex ∈ Finset.range count, ((edges vertex).length + 1) ≤ fuel)
    (roots : List Nat) (inside : ∀ root ∈ roots, root < count)
    (searching : Searching edges reports count walk) (closed : walk.calls = []) :
    Searching edges reports count (roots.foldl (Walk.fromRoot edges reports fuel) walk) ∧
      (roots.foldl (Walk.fromRoot edges reports fuel) walk).calls = [] := by
  induction roots generalizing walk with
  | nil => exact ⟨searching, closed⟩
  | cons root roots ih =>
      rw [List.foldl_cons]
      have rest_inside : ∀ root ∈ roots, root < count :=
        fun other other_mem => inside other (List.mem_cons_of_mem _ other_mem)
      cases index_eq : walk.index root with
      | some index =>
          have skipped : walk.fromRoot edges reports fuel root = walk := by
            simp [Walk.fromRoot, index_eq]
          rw [skipped]
          exact ih rest_inside searching closed
      | none =>
          have walked : walk.fromRoot edges reports fuel root =
              (walk.visit root).run edges reports fuel := by
            simp [Walk.fromRoot, index_eq]
          have visited := searching.root closed (inside root List.mem_cons_self) index_eq
          rw [walked]
          exact ih rest_inside (visited.run fuel)
            (visited.run_calls exactly covers leads_inside enough)

end Searching

end Walk

/-! ## What is reported -/

section Reported

variable {reports : Nat → List Nat → Bool} {edges : List (List Nat)}

/-- The walk after the last root: nothing is open, all was reached, and the components reported are
those of the vertices on a cycle. -/
theorem searched (exactly : Walk.Tight.ReportsCycles (leadsTo edges) reports)
    (covers : ∀ vertex component, 1 < component.length → reports vertex component = true)
    (closed : ∀ targets ∈ edges, ∀ target ∈ targets, target < edges.length) :
    ∃ walk : Walk, reportedComponents reports edges =
        walk.onCycle.mergeSort (fun first second => decide (first ≤ second)) ∧
      walk.onCycle.Nodup ∧
      ∀ vertex, vertex ∈ walk.onCycle ↔ vertex < edges.length ∧ Cyclic (leadsTo edges) vertex := by
  have leads_inside := leadsTo_lt closed
  have roots_inside : ∀ root ∈ List.range edges.length, root < edges.length := by simp
  obtain ⟨searching, calls_eq⟩ := Walk.Searching.foldl exactly covers leads_inside
    (sum_turns edges).le (List.range edges.length) roots_inside .start rfl
  obtain ⟨-, reached⟩ := Walk.rested_start.foldl leads_inside covers (sum_turns edges).le
    (List.range edges.length) roots_inside
  obtain ⟨root, finished, sound, tight⟩ := searching.faithful exactly covers
  have empty := sound.stack_eq_nil calls_eq
  refine ⟨_, rfl, tight.onCycle_nodup, fun vertex => ?_⟩
  rw [tight.onCycle_iff]
  refine and_congr_left fun _ => ?_
  have finished_iff := sound.reached_iff vertex
  simp only [empty, List.not_mem_nil, false_or] at finished_iff
  rw [← finished_iff]
  exact ⟨searching.bounded leads_inside vertex,
    fun inside => reached vertex (.inl (List.mem_range.mpr inside))⟩

/-- Exactly the vertices on a cycle are reported. -/
theorem mem_reportedComponents (exactly : Walk.Tight.ReportsCycles (leadsTo edges) reports)
    (covers : ∀ vertex component, 1 < component.length → reports vertex component = true)
    (closed : ∀ targets ∈ edges, ∀ target ∈ targets, target < edges.length) (vertex : Nat) :
    vertex ∈ reportedComponents reports edges ↔
      vertex < edges.length ∧ Cyclic (leadsTo edges) vertex := by
  obtain ⟨walk, reported_eq, -, mem_iff⟩ := searched exactly covers closed
  rw [reported_eq, List.mem_mergeSort, mem_iff]

/-- They are reported in ascending order, each one once. -/
theorem reportedComponents_ascending (exactly : Walk.Tight.ReportsCycles (leadsTo edges) reports)
    (covers : ∀ vertex component, 1 < component.length → reports vertex component = true)
    (closed : ∀ targets ∈ edges, ∀ target ∈ targets, target < edges.length) :
    (reportedComponents reports edges).Pairwise (· < ·) := by
  obtain ⟨walk, reported_eq, nodup, -⟩ := searched exactly covers closed
  rw [reported_eq]
  have sorted : (walk.onCycle.mergeSort fun first second => decide (first ≤ second)).Pairwise
      fun first second => decide (first ≤ second) = true := by
    refine List.pairwise_mergeSort ?_ ?_ walk.onCycle
    · intro first second third
      simpa using le_trans
    · intro first second
      simpa using le_total first second
  have sorted_nodup := (List.mergeSort_perm walk.onCycle
    fun first second => decide (first ≤ second)).nodup_iff.mpr nodup
  refine (sorted.and sorted_nodup).imp ?_
  rintro first second ⟨le, differs⟩
  exact lt_of_le_of_ne (of_decide_eq_true le) differs

end Reported

end Baley.Graph
