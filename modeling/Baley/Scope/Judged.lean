import Baley.Scope.Records
import Baley.Scope.Step

/-!
# What the judgement of a change finds

Each rule, read off the roadmap it was judged against.
-/

namespace Baley.Scope

open Relation

@[simp]
theorem refuseFound_eq_ok {α : Type} {found : Option α} {refusal : α → ScopeRefusal} {done : Unit} :
    refuseFound found refusal = .ok done ↔ found = none := by
  cases found <;> simp [refuseFound]

theorem forM_eq_ok {ε α : Type} {items : List α} {judge : α → Except ε Unit} :
    items.forM judge = .ok () ↔ ∀ item ∈ items, judge item = .ok () := by
  induction items with
  | nil => simp [List.forM, pure, Except.pure]
  | cons item items ih =>
      rw [List.forall_mem_cons, ← ih]
      change (judge item >>= fun _ => items.forM judge) = _ ↔ _
      rw [Except.bind_eq_ok]
      exact ⟨fun ⟨_, judged, rest⟩ => ⟨judged, rest⟩, fun ⟨judged, rest⟩ => ⟨(), judged, rest⟩⟩

namespace Roadmap

variable {roadmap : Roadmap}

/-! ## Looking up -/

theorem of_phase {number : Nat} {phase : HeldPhase}
    (found : roadmap.accepted.phase number = some phase) :
    phase ∈ roadmap.phases ∧ phase.number = number :=
  ⟨List.mem_of_find?_eq_some found, by simpa using List.find?_some found⟩

theorem of_declared {number : Nat} {phase : HeldPhase}
    (found : roadmap.accepted.declared number = some phase) :
    roadmap.accepted.phase number = some phase ∧ phase ∈ roadmap.phases ∧
      phase.number = number ∧ phase.withdrawn = false := by
  obtain ⟨phase_found, stands⟩ := Option.filter_eq_some_iff.mp found
  obtain ⟨phase_mem, number_eq⟩ := of_phase phase_found
  exact ⟨phase_found, phase_mem, number_eq, by simpa using stands⟩

theorem declared_of_isNone {number : Nat}
    (held : (roadmap.accepted.declared number).isNone = false) : roadmap.Declared number := by
  cases found : roadmap.accepted.declared number with
  | none => simp [found] at held
  | some phase =>
      obtain ⟨-, phase_mem, number_eq, stands⟩ := of_declared found
      exact ⟨phase, phase_mem, number_eq, stands⟩

theorem declared_eq (serving : Serving [] roadmap) {phase : HeldPhase}
    (phase_mem : phase ∈ roadmap.phases) (stands : phase.withdrawn = false) :
    roadmap.accepted.declared phase.number = some phase := by
  have phase_eq : roadmap.accepted.phase phase.number = some phase := by
    cases found : roadmap.accepted.phase phase.number with
    | none =>
        have absent := List.find?_eq_none.mp found phase phase_mem
        simp at absent
    | some other =>
        obtain ⟨other_mem, same⟩ := of_phase found
        rw [serving.phase_eq other_mem phase_mem same]
  rw [AcceptedScope.declared, phase_eq, Option.filter_some, if_pos (by simpa using stands)]

theorem declared_of_required {number : Nat} {phase : HeldPhase}
    (judged : requireDeclared roadmap.accepted number = .ok phase) : roadmap.Declared number := by
  obtain ⟨-, phase_mem, number_eq, stands⟩ := of_declared (Except.ofOption_eq_ok.mp judged)
  exact ⟨phase, phase_mem, number_eq, stands⟩

theorem of_story {id : Nat} {held : HeldStory} (found : roadmap.accepted.story id = some held) :
    ∃ story ∈ roadmap.stories, story.id = id ∧ story.heldStory = held := by
  obtain ⟨story, story_mem, rfl⟩ := List.mem_map.mp (List.mem_of_find?_eq_some found)
  have id_eq := List.find?_some found
  exact ⟨story, story_mem, of_decide_eq_true id_eq, rfl⟩

/-! ## Members -/

/-- The dependencies given are declared, and each story given is active and served by no other phase
than the edited one. -/
theorem of_judgeMembers (consistent : Consistent roadmap) {dependsOn stories : List Nat}
    {edited : Option Nat}
    (judged : judgeMembers roadmap.accepted dependsOn stories edited = .ok ()) :
    (∀ number ∈ dependsOn, roadmap.Declared number) ∧
      ∀ id ∈ stories, ∃ story ∈ roadmap.stories, story.id = id ∧ story.status = .active ∧
        (story.phase = none ∨ story.phase = edited) := by
  simp only [judgeMembers, Except.bind_eq_ok, refuseFound_eq_ok, forM_eq_ok] at judged
  obtain ⟨-, depends_held, -, stories_held, -, stories_active, once⟩ := judged
  constructor
  · intro number number_mem
    exact declared_of_isNone (Bool.eq_false_iff.mpr (List.find?_eq_none.mp depends_held number number_mem))
  · intro id id_mem
    have known := List.find?_eq_none.mp stories_held id id_mem
    have active := List.findIdx?_eq_none_iff.mp stories_active id id_mem
    cases found : roadmap.accepted.story id with
    | none => simp [found] at known
    | some held =>
        obtain ⟨story, story_mem, id_eq, rfl⟩ := of_story found
        refine ⟨story, story_mem, id_eq, ?_, ?_⟩
        · simpa [found, StoryEntry.heldStory] using active
        · cases names : story.phase with
          | none => exact Or.inl rfl
          | some number =>
              right
              obtain ⟨phase, phase_mem, number_eq, listed⟩ :=
                consistent.serving.names_lists ⟨story, story_mem, id_eq, names⟩
              obtain ⟨other, other_mem, other_eq, stands⟩ :=
                consistent.named_declared story_mem names
              obtain rfl := consistent.serving.phase_eq other_mem phase_mem
                (other_eq.trans number_eq.symm)
              have not_elsewhere := List.find?_eq_none.mp (once id id_mem) other
                (List.mem_filter.mpr ⟨other_mem, by simpa using stands⟩)
              by_contra differs
              exact not_elsewhere (by simpa [number_eq, listed] using differs)

/-! ## Cycles -/

/-- Looking up what was folded in, one row for each number. -/
theorem lookup_foldl_insert {phases : List HeldPhase}
    (distinct : (phases.map HeldPhase.number).Nodup) (edges : Table Nat (List Nat)) :
    (∀ phase ∈ phases, (phases.foldl (fun edges phase =>
        edges.insert phase.number phase.dependsOn) edges).lookup phase.number =
          some phase.dependsOn) ∧
      ∀ number ∉ phases.map HeldPhase.number, (phases.foldl (fun edges phase =>
        edges.insert phase.number phase.dependsOn) edges).lookup number = edges.lookup number := by
  induction phases generalizing edges with
  | nil => simp
  | cons head phases ih =>
      rw [List.map_cons, List.nodup_cons] at distinct
      obtain ⟨held, absent⟩ := ih distinct.2 (edges.insert head.number head.dependsOn)
      constructor
      · intro phase phase_mem
        rcases List.mem_cons.mp phase_mem with rfl | phase_mem
        · exact (absent phase.number distinct.1).trans (AList.lookup_insert edges)
        · exact held phase phase_mem
      · intro number unlisted
        rw [List.map_cons, List.mem_cons, not_or] at unlisted
        exact (absent number unlisted.2).trans (AList.lookup_insert_ne unlisted.1)

/-- What the search for cycles follows. -/
theorem mem_nextOf (serving : Serving [] roadmap) (edited : Nat) (dependsOn : List Nat)
    (number dependency : Nat) :
    dependency ∈ nextOf (dependencies roadmap.accepted edited dependsOn) number ↔
      number = edited ∧ dependency ∈ dependsOn ∨
        number ≠ edited ∧ roadmap.DependsOn number dependency := by
  have distinct : (roadmap.accepted.declaredPhases.map HeldPhase.number).Nodup :=
    serving.numbers_nodup.sublist (List.filter_sublist.map HeldPhase.number)
  obtain ⟨held, absent⟩ := lookup_foldl_insert distinct ∅
  rw [nextOf, dependencies, Table.lookup_put]
  split_ifs with same
  · simp [same]
  · simp only [same, false_and, ne_eq, not_false_eq_true, true_and, false_or]
    constructor
    · intro depends
      by_cases listed : number ∈ roadmap.accepted.declaredPhases.map HeldPhase.number
      · obtain ⟨phase, phase_mem, rfl⟩ := List.mem_map.mp listed
        rw [held phase phase_mem] at depends
        obtain ⟨phase_mem, stands⟩ := List.mem_filter.mp phase_mem
        exact ⟨phase, phase_mem, rfl, by simpa using stands, depends⟩
      · rw [absent number listed] at depends
        cases depends
    · rintro ⟨phase, phase_mem, rfl, stands, depends⟩
      rwa [held phase (List.mem_filter.mpr ⟨phase_mem, by simpa using stands⟩)]

theorem mem_previousOf (edges : Table Nat (List Nat)) (number dependent : Nat) :
    dependent ∈ previousOf edges number ↔ number ∈ nextOf edges dependent := by
  simp only [previousOf, nextOf, List.mem_flatMap, List.mem_map, List.mem_filter,
    decide_eq_true_eq, Prod.exists]
  constructor
  · rintro ⟨found, dependsOn, row_mem, dependency, ⟨depends, rfl⟩, rfl⟩
    rw [Table.mem_rows.mp row_mem]
    exact depends
  · intro depends
    cases found : edges.lookup dependent with
    | none =>
        rw [found] at depends
        cases depends
    | some dependsOn =>
        rw [found] at depends
        exact ⟨dependent, dependsOn, Table.mem_rows.mpr found, number, ⟨depends, rfl⟩, rfl⟩

theorem nextOf_outside {edges : Table Nat (List Nat)} :
    ∀ number ∉ edges.keys.toFinset, nextOf edges number = [] := by
  intro number outside
  rw [List.mem_toFinset, ← AList.mem_keys, ← AList.lookup_eq_none] at outside
  rw [nextOf, outside]
  rfl

theorem previousOf_outside {edges : Table Nat (List Nat)} :
    ∀ number ∉ (edges.rows.flatMap Prod.snd).toFinset, previousOf edges number = [] := by
  intro number outside
  refine List.eq_nil_iff_forall_not_mem.mpr fun dependent dependent_mem => outside ?_
  simp only [previousOf, List.mem_flatMap, List.mem_map, List.mem_filter, decide_eq_true_eq,
    Prod.exists] at dependent_mem
  obtain ⟨found, dependsOn, row_mem, dependency, ⟨depends, rfl⟩, -⟩ := dependent_mem
  rw [List.mem_toFinset, List.mem_flatMap]
  exact ⟨(found, dependsOn), row_mem, depends⟩

/-- With none on a cycle the edited phase is on none. -/
theorem of_onCycleWith {edges : Nat → Nat → Prop} (serving : Serving [] roadmap) {edited : Nat}
    {dependsOn : List Nat} (none_found : onCycleWith roadmap.accepted edited dependsOn = [])
    (edges_iff : ∀ number dependency, edges number dependency ↔
      number = edited ∧ dependency ∈ dependsOn ∨
        number ≠ edited ∧ roadmap.DependsOn number dependency) :
    ¬ TransGen edges edited edited := by
  intro cycle
  have next_edges : edges = fun number dependency =>
      dependency ∈ nextOf (dependencies roadmap.accepted edited dependsOn) number := by
    funext number dependency
    exact propext ((edges_iff number dependency).trans
      (mem_nextOf serving edited dependsOn number dependency).symm)
  have previous_edges : Function.swap edges = fun number dependent =>
      dependent ∈ previousOf (dependencies roadmap.accepted edited dependsOn) number := by
    funext number dependent
    change edges dependent number = _
    rw [next_edges, mem_previousOf]
  have reached : edited ∈ Graph.reach _
      (nextOf (dependencies roadmap.accepted edited dependsOn)) edited :=
    (Graph.mem_reach nextOf_outside).mpr (next_edges ▸ cycle)
  have reaching : edited ∈ Graph.reach _
      (previousOf (dependencies roadmap.accepted edited dependsOn)) edited :=
    (Graph.mem_reach previousOf_outside).mpr (previous_edges ▸ cycle.swap)
  have found := (Finset.mem_sort (· ≤ ·)).mpr (Finset.mem_inter.mpr ⟨reached, reaching⟩)
  rw [onCycleWith] at none_found
  rw [none_found] at found
  cases found

/-! ## Orders -/

/-- Numbers as many as their set are distinct. -/
theorem nodup_of_card {order : List Nat} (card_eq : order.toFinset.card = order.length) :
    order.Nodup :=
  Multiset.coe_nodup.mp (Multiset.toFinset_card_eq_card_iff_nodup.mp card_eq)

theorem mem_declaredNumbers (number : Nat) :
    number ∈ (roadmap.accepted.declaredPhases.map HeldPhase.number).toFinset ↔
      roadmap.Declared number := by
  rw [List.mem_toFinset, List.mem_map]
  constructor
  · rintro ⟨phase, phase_mem, number_eq⟩
    obtain ⟨phase_mem, stands⟩ := List.mem_filter.mp phase_mem
    exact ⟨phase, phase_mem, number_eq, by simpa using stands⟩
  · rintro ⟨phase, phase_mem, number_eq, stands⟩
    exact ⟨phase, List.mem_filter.mpr ⟨phase_mem, by simpa using stands⟩, number_eq⟩

/-- An accepted order lists each declared phase once, and none before one it depends on. -/
theorem of_judgeReorder (serving : Serving [] roadmap) {order : List Nat}
    (judged : judgeReorder roadmap.accepted order = .ok ()) :
    order.Nodup ∧ (∀ number, number ∈ order ↔ roadmap.Declared number) ∧
      ∀ number dependency, roadmap.DependsOn number dependency →
        ¬ Before order number dependency := by
  simp only [judgeReorder, Except.bind_eq_ok, refuseFound_eq_ok, Except.require_eq_ok, forM_eq_ok]
    at judged
  obtain ⟨-, declared_found, -, ⟨card_eq, length_eq⟩, placed⟩ := judged
  have distinct := nodup_of_card card_eq
  have listed_declared : ∀ number ∈ order, roadmap.Declared number := fun number number_mem =>
    declared_of_isNone (Bool.eq_false_iff.mpr (List.find?_eq_none.mp declared_found number number_mem))
  have same : order.toFinset = (roadmap.accepted.declaredPhases.map HeldPhase.number).toFinset := by
    refine Finset.eq_of_subset_of_card_le (fun number number_mem => ?_) ?_
    · exact (mem_declaredNumbers number).mpr
        (listed_declared number (List.mem_toFinset.mp number_mem))
    · rw [← length_eq, card_eq]
  have mem_order (number : Nat) : number ∈ order ↔ roadmap.Declared number := by
    rw [← List.mem_toFinset, same, mem_declaredNumbers]
  refine ⟨distinct, mem_order, ?_⟩
  rintro number dependency ⟨phase, phase_mem, rfl, stands, depends⟩
  have number_mem := (mem_order phase.number).mpr ⟨phase, phase_mem, rfl, stands⟩
  have phase_placed := placed phase.number number_mem
  rw [declared_eq serving phase_mem stands] at phase_placed
  exact not_before_of_placedAfter distinct phase_placed dependency depends

/-- An accepted backlog order names stories that are held, each at most once. -/
theorem of_judgeBacklogOrder {order : List Nat}
    (judged : judgeBacklogOrder roadmap.accepted order = .ok ()) :
    order.Nodup ∧ ∀ id ∈ order, id ∈ roadmap.stories.map StoryEntry.id := by
  simp only [judgeBacklogOrder, Except.bind_eq_ok, refuseFound_eq_ok, Except.require_eq_ok]
    at judged
  obtain ⟨-, known, set_eq, length_eq⟩ := judged
  refine ⟨nodup_of_card (by rw [set_eq, length_eq]), fun id id_mem => ?_⟩
  have found := List.find?_eq_none.mp known id id_mem
  cases story_found : roadmap.accepted.story id with
  | none => simp [story_found] at found
  | some held =>
      obtain ⟨story, story_mem, id_eq, -⟩ := of_story story_found
      exact List.mem_map.mpr ⟨story, story_mem, id_eq⟩

/-! ## Withdrawals and stories -/

/-- No declared phase depends on one that may be withdrawn, and each of its stories is dropped or goes
to a phase that stays declared. -/
theorem of_judgeWithdrawal {withdrawn : HeldPhase} {decisions : List Decision}
    (judged : judgeWithdrawal roadmap.accepted withdrawn decisions = .ok ()) :
    (∀ other, other ≠ withdrawn.number → ¬ roadmap.DependsOn other withdrawn.number) ∧
      (∀ id ∈ withdrawn.stories, id ∈ decisions.map Decision.story) ∧
      ∀ decision ∈ decisions, ∀ number, decision.destination = .phase number →
        number ≠ withdrawn.number ∧ roadmap.Declared number := by
  simp only [judgeWithdrawal, Except.bind_eq_ok, refuseFound_eq_ok, Except.require_eq_ok] at judged
  obtain ⟨-, none_depends, -, decided, -, -, destinations⟩ := judged
  refine ⟨?_, ?_, ?_⟩
  · rintro _ differs ⟨phase, phase_mem, rfl, stands, depends⟩
    have dependent : phase.number ∈ ((roadmap.accepted.declaredPhases.filter fun held =>
        held.number ≠ withdrawn.number ∧ withdrawn.number ∈ held.dependsOn).map
          HeldPhase.number).toFinset := by
      refine List.mem_toFinset.mpr (List.mem_map_of_mem (List.mem_filter.mpr ⟨?_, ?_⟩))
      · exact List.mem_filter.mpr ⟨phase_mem, by simpa using stands⟩
      · simpa using ⟨differs, depends⟩
    rw [none_depends] at dependent
    exact absurd dependent (Finset.notMem_empty _)
  · intro id id_mem
    simpa using List.find?_eq_none.mp decided id id_mem
  · intro decision decision_mem number destination_eq
    have allowed := List.findSome?_eq_none_iff.mp destinations decision decision_mem
    simp only [badDestination, destination_eq] at allowed
    split_ifs at allowed with bad
    rw [not_or] at bad
    refine ⟨bad.1, declared_of_isNone ?_⟩
    exact Bool.eq_false_iff.mpr fun none_declared => bad.2 (Option.isNone_iff_eq_none.mp none_declared)

/-- A story still served is held with a status a submission can state. -/
theorem of_served {id : Nat} (judged : served roadmap.accepted id = .ok ()) :
    ∃ story ∈ roadmap.stories, story.id = id ∧ ¬ story.status.Final ∧
      ∃ status, heldStatus roadmap.accepted id = .ok status ∧ status.held = story.status := by
  simp only [served, Except.bind_eq_ok, Except.ofOption_eq_ok] at judged
  obtain ⟨held, found, still_served⟩ := judged
  obtain ⟨story, story_mem, id_eq, rfl⟩ := of_story found
  refine ⟨story, story_mem, id_eq, ?_⟩
  have status_eq : story.heldStory.status = story.status := rfl
  rw [status_eq] at still_served
  rw [heldStatus, found, Option.bind_some, status_eq]
  unfold HeldStatus.Final
  cases status : story.status with
  | active => exact ⟨by simp, .active, rfl, rfl⟩
  | deferred => exact ⟨by simp, .deferred, rfl, rfl⟩
  | excluded | dropped =>
      rw [status] at still_served
      cases still_served

/-! ## Declarations and edits -/

/-- An accepted declaration takes its place in the order, after every phase it depends on. -/
theorem of_judgeDeclaration {declaration : PhaseDeclaration}
    (judged : judgeDeclaration roadmap.accepted declaration = .ok ()) :
    judgeMembers roadmap.accepted declaration.dependsOn declaration.stories none = .ok () ∧
      ∃ index ≤ roadmap.order.length,
        (match declaration.position with
          | some position => min (position - 1) roadmap.order.length
          | none => roadmap.order.length) = index ∧
        (roadmap.highestPhase + 1 ≤ maxU32 →
          placedAfter (roadmap.order.insertIdx index (roadmap.highestPhase + 1))
            (roadmap.highestPhase + 1) declaration.dependsOn = .ok ()) := by
  simp only [judgeDeclaration, Except.bind_eq_ok] at judged
  obtain ⟨⟨⟩, members_judged, index, place_eq, placed⟩ := judged
  refine ⟨members_judged, index, ?_⟩
  have placed_within (fits : roadmap.highestPhase + 1 ≤ maxU32) :
      placedAfter (roadmap.order.insertIdx index (roadmap.highestPhase + 1))
        (roadmap.highestPhase + 1) declaration.dependsOn = .ok () := by
    have left_over : ¬ maxU32 < roadmap.accepted.highestPhase + 1 := Nat.not_lt.mpr fits
    rwa [if_neg left_over] at placed
  cases position_eq : declaration.position with
  | none =>
      rw [declarationPlace, position_eq] at place_eq
      obtain rfl := Except.ok.inj place_eq
      exact ⟨le_refl _, rfl, placed_within⟩
  | some position =>
      simp only [declarationPlace, position_eq, Except.bind_eq_ok, Except.require_eq_ok,
        Except.ok.injEq] at place_eq
      obtain ⟨-, inside, rfl⟩ := place_eq
      change position ≤ roadmap.order.length + 1 at inside
      exact ⟨by omega, min_eq_left (by omega), placed_within⟩

/-- An accepted edit's dependencies put the phase on no cycle and before none of them. -/
theorem of_judgeDependencies {phase : Nat} {dependsOn : List Nat}
    (judged : judgeDependencies roadmap.accepted phase dependsOn = .ok ()) :
    onCycleWith roadmap.accepted phase dependsOn = [] ∧
      placedAfter roadmap.order phase dependsOn = .ok () := by
  simp only [judgeDependencies, Except.bind_eq_ok, Except.require_eq_ok] at judged
  obtain ⟨-, none_found, placed⟩ := judged
  exact ⟨none_found, placed⟩

end Roadmap

end Baley.Scope
