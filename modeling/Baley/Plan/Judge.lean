import Baley.Plan.Coverage

/-!
# The judge of a plan

Fourteen steps run in a fixed order, the first fault answering.  What each step asks is said of the
content of the plan and the facts alone, so that a later step's question does not depend on how an
earlier one answered.
-/

namespace Baley.Plan

open Json

/-- Judge a submitted plan against the phase's facts. -/
def judgePlan (isAlphanumeric : Char → Bool) (submitted : Value) (facts : PlanFacts) :
    Except PlanRefusal Plan := do
  let plan ← read submitted
  PlanTask.withinLease plan.tasks plan.files plan.directories
  Evidence.blankFields plan.evidenceMap
  holdsTruths facts
  committed plan.stories facts
  let truths ← bind plan.stories plan.evidenceMap facts
  let definitions := ((submitted.get? "evidence_map").bind Value.asArray).getD []
  consistent definitions plan.evidenceMap facts.approved
  named isAlphanumeric plan.evidenceMap truths
  let phase := Phase.new plan.stories plan.evidenceMap facts
  phase.covered
  phase.checked
  phase.observed
  phase.limited
  within plan.stories plan.tasks.length facts
  .ok plan

/-! ## Steps in order -/

/-- A result given by steps from one on: the value when what each of them asks holds, and the refusal
of the first whose question does not. -/
structure Decides {α : Type} (asks : Nat → Prop) (first : Nat) (result : Except PlanRefusal α)
    (value : α) : Prop where
  accepts : (∀ step, first ≤ step → asks step) → result = .ok value
  accepted : ∀ found, result = .ok found → found = value ∧ ∀ step, first ≤ step → asks step
  refused : ∀ refusal, result = .error refusal →
    first ≤ refusal.step ∧ (∀ step, first ≤ step → step < refusal.step → asks step) ∧ ¬asks refusal.step

section Decides

variable {α β : Type} {asks : Nat → Prop} {first : Nat} {value : α}

theorem Decides.done (rest : ∀ step, first ≤ step → asks step) : Decides asks first (.ok value) value where
  accepts _ := rfl
  accepted found same := ⟨(Except.ok.inj same).symm, rest⟩
  refused refusal same := by cases same

/-- A step before steps that decide. -/
theorem Decides.bind {check : Except PlanRefusal β} {next : β → Except PlanRefusal α}
    (step_refuses : RefusedAt first check) (passes_iff : (∃ found, check = .ok found) ↔ asks first)
    (rest : ∀ found, check = .ok found → Decides asks (first + 1) (next found) value) :
    Decides asks first (check >>= next) value := by
  cases check with
  | error refusal =>
      have not_asked : ¬asks first := fun asked => by
        obtain ⟨found, passed⟩ := passes_iff.mpr asked
        cases passed
      have at_first := step_refuses refusal rfl
      constructor
      · exact fun asked => absurd (asked first le_rfl) not_asked
      · rintro found ⟨⟩
      · rintro _ ⟨⟩
        rw [at_first]
        exact ⟨le_rfl, fun step above below => by omega, not_asked⟩
  | ok found =>
      have asked : asks first := passes_iff.mp ⟨found, rfl⟩
      obtain ⟨accepts, accepted, refused⟩ := rest found rfl
      have from_first {last : Nat} (after : ∀ step, first + 1 ≤ step → step < last → asks step) (step : Nat)
          (above : first ≤ step) (below : step < last) : asks step := by
        rcases above.eq_or_lt with rfl | above
        · exact asked
        · exact after step above below
      constructor
      · exact fun all => accepts fun step above => all step (by omega)
      · intro other same
        obtain ⟨value_eq, after⟩ := accepted other same
        exact ⟨value_eq, fun step above =>
          from_first (fun step above _ => after step above) step above (Nat.lt_succ_self step)⟩
      · intro refusal same
        obtain ⟨above, before, not_asked⟩ := refused refusal same
        exact ⟨by omega, from_first before, not_asked⟩

/-- A step that gives no value. -/
theorem Decides.then {check : Except PlanRefusal Unit} {next : Except PlanRefusal α}
    (step_refuses : RefusedAt first check) (passes_iff : check = .ok () ↔ asks first)
    (rest : asks first → Decides asks (first + 1) next value) :
    Decides asks first (check >>= fun _ => next) value := by
  refine .bind step_refuses ?_ fun _ passed => rest (passes_iff.mp passed)
  rw [← passes_iff]
  constructor
  · rintro ⟨_, passed⟩
    exact passed
  · exact fun passed => ⟨(), passed⟩

end Decides

/-! ## What each step asks -/

/-- What a step of the judge asks of the content of a plan.  The first asks that the value has one, and
is asked of the value itself. -/
def Asks (isAlphanumeric : Char → Bool) (submitted : Value) (facts : PlanFacts) (plan : PlanContent) :
    Nat → Prop
  | 2 => ∃ set, QuestionsPass submitted set
  | 3 => ∀ task ∈ plan.tasks, ∀ file ∈ task.files, InsideLease plan.files plan.directories file
  | 4 => ∀ item ∈ plan.evidenceMap, Evidence.Filled item
  | 5 => ∃ story ∈ facts.stories, story.truths ≠ []
  | 6 => ∀ id ∈ plan.stories, ∃ story ∈ facts.stories, story.id = id
  | 7 => ∀ item ∈ plan.evidenceMap, ∃ truth, Binds plan.stories facts item truth
  | 8 => ∀ definitions, submitted.get? "evidence_map" = some (.array definitions) →
      List.Forall₂ (OneDefinition facts) definitions plan.evidenceMap
  | 9 => ∀ item ∈ plan.evidenceMap, ∀ truth, currentTruth facts item.story item.truth = some truth →
      LinkNamed isAlphanumeric item truth
  | 10 => EachServed plan.stories facts (Covered plan.evidenceMap facts)
  | 11 => EachServed plan.stories facts (ShownBy plan.evidenceMap facts .check)
  | 12 => EachServed plan.stories facts (Observed plan.evidenceMap facts)
  | 13 => EachServed plan.stories facts (CheckedOnce plan.evidenceMap facts)
  | 14 => WithinCapacity plan.tasks.length facts
  | _ => True

variable {isAlphanumeric : Char → Bool} {submitted : Value} {facts : PlanFacts}

/-- A value has one content. -/
theorem ContentAs.unique {first second : PlanContent} (written : ContentAs submitted first)
    (written' : ContentAs submitted second) : first = second := by
  obtain ⟨questions, given⟩ := Option.isSome_iff_exists.mp written.questions_given
  have object_eq := written.object_eq
  have object_eq' := written'.object_eq
  subst object_eq
  have same : first.submitted = second.submitted := Value.object.inj object_eq'
  have read_first := (readMembers_eq_ok written.within).mpr ⟨rfl, written, given⟩
  have read_second := (readMembers_eq_ok written.within).mpr ⟨same.symm, written', given⟩
  rw [read_first] at read_second
  exact (Prod.mk.inj (Except.ok.inj read_second)).1

theorem exists_forall₂ {α β : Type} {Holds : α → β → Prop} {items : List α} :
    (∃ others, List.Forall₂ Holds items others) ↔ ∀ item ∈ items, ∃ other, Holds item other := by
  induction items with
  | nil => simp
  | cons item items ih =>
      rw [List.forall_mem_cons, ← ih]
      constructor
      · rintro ⟨_, holds⟩
        cases holds with
        | cons first rest => exact ⟨⟨_, first⟩, _, rest⟩
      · rintro ⟨⟨other, first⟩, others, rest⟩
        exact ⟨other :: others, .cons first rest⟩

/-- Links are judged by the truths their items are bound to. -/
theorem linkNamed_iff {stories : List Nat} {items : List EvidenceItem} {truths : List CurrentTruth}
    (bound : List.Forall₂ (Binds stories facts) items truths) :
    List.Forall₂ (LinkNamed isAlphanumeric) items truths ↔
      ∀ item ∈ items, ∀ truth, currentTruth facts item.story item.truth = some truth →
        LinkNamed isAlphanumeric item truth := by
  induction bound with
  | nil => simp
  | cons binds _ ih =>
      rw [List.forall₂_cons, List.forall_mem_cons, ih, binds.2.1]
      simp only [Option.some.injEq, forall_eq']

/-- The steps after the plan is read decide by what they ask. -/
theorem judge_decides {plan : Plan} (written : ContentAs submitted plan.toPlanContent)
    (read_eq : read submitted = .ok plan) :
    Decides (Asks isAlphanumeric submitted facts plan.toPlanContent) 3
      (judgePlan isAlphanumeric submitted facts) plan := by
  obtain ⟨definitions, definitions_eq, items_as⟩ := written.evidence_as
  have definitions_given : ((submitted.get? "evidence_map").bind Value.asArray).getD [] = definitions := by
    rw [definitions_eq]
    rfl
  simp only [judgePlan, read_eq, definitions_given]
  refine .then (PlanTask.refusedAt_withinLease _ _ _) PlanTask.withinLease_eq_ok fun _ => ?_
  refine .then (Evidence.refusedAt_blankFields _) Evidence.blankFields_eq_ok fun _ => ?_
  refine .then (refusedAt_holdsTruths _) holdsTruths_eq_ok fun _ => ?_
  refine .then (refusedAt_committed _ _) committed_eq_ok fun _ => ?_
  refine .bind (refusedAt_bind _ _ _) ?_ fun truths bound => ?_
  · simp only [bind_eq_ok]
    exact exists_forall₂
  rw [bind_eq_ok] at bound
  refine .then (refusedAt_consistent _ _ _) ?_ fun one => ?_
  · rw [consistent_eq_ok items_as]
    simp [Asks, definitions_eq]
  have one := one definitions definitions_eq
  refine .then (refusedAt_named _ _ _) ((named_eq_ok bound).trans (linkNamed_iff bound)) fun _ => ?_
  refine .then (Phase.refusedAt_covered _) (Phase.covered_eq_ok items_as one _) fun _ => ?_
  refine .then (Phase.refusedAt_checked _) (Phase.checked_eq_ok items_as one _) fun _ => ?_
  refine .then (Phase.refusedAt_observed _) (Phase.observed_eq_ok items_as one _) fun _ => ?_
  refine .then (Phase.refusedAt_limited _) (Phase.limited_eq_ok items_as one _) fun _ => ?_
  refine .then (refusedAt_within _ _ _) within_eq_ok fun _ => .done fun step above => ?_
  unfold Asks
  split <;> trivial

/-- The judge accepts exactly the plans that every one of its fourteen steps holds of, with the content
and the questions that are written, and a refusal names the first step that does not hold. -/
theorem judgePlan_exact (isAlphanumeric : Char → Bool) (submitted : Value) (facts : PlanFacts) :
    (∀ plan, judgePlan isAlphanumeric submitted facts = .ok plan ↔
      ContentAs submitted plan.toPlanContent ∧ QuestionsPass submitted plan.questions ∧
        ∀ step, Asks isAlphanumeric submitted facts plan.toPlanContent step) ∧
    ∀ refusal, judgePlan isAlphanumeric submitted facts = .error refusal →
      refusal.step = 1 ∧ (∀ content, ¬ContentAs submitted content) ∨
        ∃ content, ContentAs submitted content ∧
          (∀ step < refusal.step, Asks isAlphanumeric submitted facts content step) ∧
          ¬Asks isAlphanumeric submitted facts content refusal.step := by
  have below_three {plan : Plan} (passed : QuestionsPass submitted plan.questions) (step : Nat)
      (below : step < 3) : Asks isAlphanumeric submitted facts plan.toPlanContent step := by
    obtain rfl | rfl | rfl : step = 0 ∨ step = 1 ∨ step = 2 := by omega
    · trivial
    · trivial
    · exact ⟨plan.questions, passed⟩
  cases read_eq : read submitted with
  | error fault =>
      have judged : judgePlan isAlphanumeric submitted facts = .error fault := by
        rw [judgePlan, read_eq]
        rfl
      have fails := read_eq_error read_eq
      rw [judged]
      constructor
      · refine fun plan => iff_of_false (by simp) ?_
        rintro ⟨written, passed, -⟩
        rw [read_eq_ok.mpr ⟨written, passed⟩] at read_eq
        cases read_eq
      · rintro _ ⟨⟩
        rcases fails with ⟨at_one, no_content⟩ | ⟨at_two, ⟨content, written⟩, not_passed⟩
        · exact .inl ⟨at_one, no_content⟩
        · refine .inr ⟨content, written, fun step below => ?_, ?_⟩
          · rw [at_two] at below
            obtain rfl | rfl : step = 0 ∨ step = 1 := by omega
            · trivial
            · trivial
          · rw [at_two]
            rintro ⟨set, passed⟩
            exact not_passed set passed
  | ok plan =>
      obtain ⟨written, passed⟩ := read_eq_ok.mp read_eq
      obtain ⟨accepts, accepted, refused⟩ :=
        @judge_decides isAlphanumeric submitted facts plan written read_eq
      constructor
      · intro found
        constructor
        · intro judged
          obtain ⟨rfl, from_three⟩ := accepted found judged
          refine ⟨written, passed, fun step => ?_⟩
          rcases Nat.lt_or_ge step 3 with below | above
          · exact below_three passed step below
          · exact from_three step above
        · rintro ⟨written', passed', asked⟩
          have same : plan = found := by
            have read_found := read_eq_ok.mpr ⟨written', passed'⟩
            rw [read_eq] at read_found
            exact Except.ok.inj read_found
          subst same
          exact accepts fun step _ => asked step
      · intro refusal judged
        obtain ⟨-, before, not_asked⟩ := refused refusal judged
        refine .inr ⟨plan.toPlanContent, written, fun step below => ?_, not_asked⟩
        rcases Nat.lt_or_ge step 3 with below_three' | above
        · exact below_three passed step below_three'
        · exact before step above below

end Baley.Plan
