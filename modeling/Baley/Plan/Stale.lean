import Baley.Plan.Agree
import Baley.Questions.Round

/-!
# Approving a plan draft

An approval is judged in one fixed order.  A draft that is not the newest is refused by the first part at
which it differs from the newest, and there always is one.
-/

namespace Baley.Plan.Approval

open Json

/-! ## The judgement -/

/-- A recorded plan draft: its digest and its body read back. -/
structure DraftRead where
  digest : Hash
  plan : RecordedPlan

structure PriorApproval where
  owner : String
  at_ : String

/-- What an approval of one plan draft is judged on. -/
structure PlanApprovalFacts where
  /-- The target draft, or none when no document has its digest. -/
  target : Option DraftRead
  /-- Whether the target's submission was found among the events. -/
  recorded : Bool
  /-- The newest plan draft of the phase. -/
  newest : Option DraftRead
  /-- The approval of this digest recorded after its latest submission. -/
  approved : Option PriorApproval
  /-- Everything recorded about the target draft's question set. -/
  set : SetFacts

inductive PlanApprovalRefusal where
  | unknownDraft
  | staleDraft (path : String)
  | draftApproved (owner at_ : String)
  | questionOpen (questions : List String)
  | answerNotApplied (questions : List String)
  deriving DecidableEq

/-- The questions neither answered nor deferred, in submitted order. -/
def openQuestions (set : SetFacts) : List String :=
  (set.questions.map Question.id).filter fun id =>
    !(set.answers.map QuestionAnswer.question).contains id &&
      !(set.deferrals.map Deferral.question).contains id

/-- The questions whose answers rejected the recommended answer, in submitted order. -/
def rejectedQuestions (set : SetFacts) : List String :=
  let rejected := (set.answers.filter fun answer => !answer.accepted).map QuestionAnswer.question
  (set.questions.map Question.id).filter rejected.contains

/-- The judgement of an approval of the newest draft. -/
def judgeNewest (facts : PlanApprovalFacts) : Except PlanApprovalRefusal Unit :=
  match facts.approved with
  | some approved => .error (.draftApproved approved.owner approved.at_)
  | none =>
      let unsettled := openQuestions facts.set
      if unsettled ≠ [] then .error (.questionOpen unsettled)
      else
        let rejected := rejectedQuestions facts.set
        if rejected ≠ [] then .error (.answerNotApplied rejected) else .ok ()

/-- Judge an approval; none where the source panics. -/
def judgePlanApproval (facts : PlanApprovalFacts) : Option (Except PlanApprovalRefusal Unit) :=
  match facts.target.filter fun _ => facts.recorded with
  | none => some (.error .unknownDraft)
  | some target =>
      match facts.newest with
      | none => some (.error .unknownDraft)
      | some newest =>
          if newest.digest ≠ target.digest then
            (difference target.plan newest.plan).map fun path => .error (.staleDraft path)
          else some (judgeNewest facts)

theorem judgeNewest_ne_stale (facts : PlanApprovalFacts) (path : String) :
    judgeNewest facts ≠ .error (.staleDraft path) := by
  unfold judgeNewest
  cases facts.approved with
  | some approved => simp
  | none =>
      dsimp only
      split_ifs <;> simp

/-! ## The first difference of two drafts -/

/-- The body a draft was read from. -/
def bodyOf (draft : RecordedPlan) : Value :=
  .object (draftBody (draft.plan.asObject.getD []) draft.replaces)

/-- The places of two bindings: their members when both drafts hold one. -/
def replacesPlaces : Option Replaces → Option Replaces → List Place
  | some _, some _ =>
      [[.member "replaces", .member "plan"], [.member "replaces", .member "digest"]]
  | _, _ => [[.member "replaces"]]

/-- The places of two drafts, in the order they are looked at. -/
def draftPlaces (first second : RecordedPlan) : List Place :=
  replacesPlaces first.replaces second.replaces ++ planPlaces first.plan second.plan

/-- A place as a refusal writes it. -/
def render : Place → String
  | .member name :: place => Place.below name place
  | place => Place.below "" place

/-- The place is the first of the walk's at which the bodies of two drafts differ. -/
def FirstDifference (first second : RecordedPlan) (place : Place) : Prop :=
  ∃ before after, draftPlaces first second = before ++ place :: after ∧
    (∀ other ∈ before, (bodyOf first).at_place other = (bodyOf second).at_place other) ∧
    (bodyOf first).at_place place ≠ (bodyOf second).at_place place

section Difference

open Place

variable {members members' : Members} {binding binding' : Option Replaces}

theorem member_draftBody {name : String} (name_mem : name ∈ planNames) :
    (Value.object (draftBody members binding)).member name = (Value.object members).member name := by
  have not_kind : name ≠ "kind" := by
    rintro rfl
    exact absurd name_mem (by decide)
  have not_replaces : name ≠ "replaces" := by
    rintro rfl
    exact absurd name_mem (by decide)
  cases binding <;> simp [Value.member, draftBody, Members.lookup_insert, not_kind, not_replaces]

/-- Inside the plan's members the bodies differ where the plans do. -/
theorem find?_planPlaces :
    (planPlaces (.object members) (.object members')).find?
        (differs (.object (draftBody members binding)) (.object (draftBody members' binding'))) =
      (planPlaces (.object members) (.object members')).find?
        (differs (.object members) (.object members')) := by
  rw [← List.head?_filter, ← List.head?_filter]
  refine congrArg List.head? (List.filter_congr fun place place_mem => ?_)
  obtain ⟨name, name_mem, place_mem⟩ := List.mem_flatMap.mp place_mem
  obtain ⟨rest, -, rfl⟩ := List.mem_map.mp place_mem
  rw [differs_cons rfl rfl, differs_cons rfl rfl, member_draftBody name_mem, member_draftBody name_mem]

/-- The walk over two plans. -/
theorem findSome?_planMember (first second : Value) :
    (planNames.findSome? fun name => planMember name (first.member name) (second.member name)) =
      ((planPlaces first second).find? (differs first second)).map render := by
  rw [planPlaces, memberPlaces, List.find?_flatMap, List.map_findSome?]
  refine congrArg (List.findSome? · planNames) (funext fun name => ?_)
  rw [Function.comp_apply, find?_below rfl rfl, Option.map_map, names_planMember name _ _ name rfl]
  rfl

/-- The member of a binding in a body. -/
theorem member_replaces (unbound : members.lookup "replaces" = none) :
    (Value.object (draftBody members binding)).member "replaces" =
      (binding.map Replaces.toValue).getD .null := by
  cases binding <;> simp [Value.member, draftBody, Members.lookup_insert, unbound]

theorem differs_one (first second : Value) (name : String) :
    differs first second [.member name] = (first.member name != second.member name) := by
  rw [differs_cons rfl rfl, differs_nil]

theorem replaces_eq (unbound : members.lookup "replaces" = none)
    (unbound' : members'.lookup "replaces" = none) :
    replaces binding binding' =
      ((replacesPlaces binding binding').find?
        (differs (.object (draftBody members binding)) (.object (draftBody members' binding')))).map
          render := by
  have whole : differs (.object (draftBody members binding)) (.object (draftBody members' binding'))
      [.member "replaces"] =
        ((binding.map Replaces.toValue).getD .null != (binding'.map Replaces.toValue).getD .null) := by
    rw [differs_one, member_replaces unbound, member_replaces unbound']
  cases binding with
  | none =>
      cases binding' with
      | none =>
          rw [replacesPlaces, List.find?_cons, whole]
          · rfl
          · simp
      | some second =>
          rw [replacesPlaces, List.find?_cons, whole]
          · rfl
          · simp
  | some first =>
      cases binding' with
      | none =>
          rw [replacesPlaces, List.find?_cons, whole]
          · rfl
          · simp
      | some second =>
          have inner (name : String) :
              differs (.object (draftBody members (some first))) (.object (draftBody members' (some second)))
                  [.member "replaces", .member name] =
                (first.toValue.member name != second.toValue.member name) := by
            rw [differs_cons rfl rfl, member_replaces unbound, member_replaces unbound', differs_one]
            rfl
          have plan_eq (held : Replaces) : held.toValue.member "plan" = .ofNat held.plan := by
            simp [Value.member, Replaces.toValue]
          have digest_eq (held : Replaces) : held.toValue.member "digest" = .string held.digest.toHex := by
            simp [Value.member, Replaces.toValue]
          have plans : (Value.ofNat first.plan != .ofNat second.plan) = decide (first.plan ≠ second.plan) := by
            rw [Bool.eq_iff_iff, bne_iff_ne, decide_eq_true_eq]
            exact not_congr Value.ofNat_injective.eq_iff
          have digests : (Value.string first.digest.toHex != .string second.digest.toHex) =
              decide (first.digest ≠ second.digest) := by
            rw [Bool.eq_iff_iff, bne_iff_ne, decide_eq_true_eq]
            exact not_congr (Value.string.injEq _ _ ▸ Hash.toHex_injective.eq_iff)
          rw [replacesPlaces, List.find?_cons, List.find?_cons, inner, inner, plan_eq, plan_eq, digest_eq,
            digest_eq, plans, digests, replaces]
          split_ifs with plan_differs digest_differs <;> simp [*] <;> rfl

/-- The walk names the first place at which the bodies differ. -/
theorem difference_eq (unbound : members.lookup "replaces" = none)
    (unbound' : members'.lookup "replaces" = none) :
    difference ⟨.object members, binding⟩ ⟨.object members', binding'⟩ =
      ((draftPlaces ⟨.object members, binding⟩ ⟨.object members', binding'⟩).find?
        (differs (.object (draftBody members binding)) (.object (draftBody members' binding')))).map
          render := by
  rw [difference, draftPlaces, List.find?_append, find?_planPlaces, findSome?_planMember,
    replaces_eq unbound unbound']
  cases (replacesPlaces binding binding').find?
    (differs (.object (draftBody members binding)) (.object (draftBody members' binding'))) <;> rfl

end Difference

/-! ## Drafts with no difference -/

theorem replaces_eq_none {binding binding' : Option Replaces} (same : replaces binding binding' = none) :
    binding = binding' := by
  cases binding with
  | none =>
      cases binding' with
      | none => rfl
      | some second => cases same
  | some first =>
      cases binding' with
      | none => cases same
      | some second =>
          obtain ⟨plan, digest, _⟩ := first
          obtain ⟨plan', digest', _⟩ := second
          rw [replaces] at same
          split_ifs at same with plan_differs digest_differs
          rw [not_not] at plan_differs digest_differs
          dsimp only at plan_differs digest_differs
          subst plan_differs digest_differs
          rfl

/-- Drafts of accepted plans in which the walk finds no difference are the same draft. -/
theorem eq_of_difference_eq_none {isAlphanumeric : Char → Bool} {submitted submitted' : Value}
    {facts facts' : PlanFacts} {plan plan' : Plan} {binding binding' : Option Replaces}
    (accepted : Accepted isAlphanumeric submitted facts plan)
    (accepted' : Accepted isAlphanumeric submitted' facts' plan')
    (same : difference ⟨submitted, binding⟩ ⟨submitted', binding'⟩ = none) :
    submitted = submitted' ∧ binding = binding' := by
  rw [difference, Option.or_eq_none_iff, findSome?_planMember, Option.map_eq_none_iff,
    List.find?_eq_none] at same
  obtain ⟨bindings_same, plans_same⟩ := same
  obtain ⟨written, passed⟩ := read_eq_ok.mp accepted.read_eq
  obtain ⟨written', passed'⟩ := read_eq_ok.mp accepted'.read_eq
  refine ⟨?_, replaces_eq_none bindings_same⟩
  refine eq_of_agree_plan accepted.wellFormed accepted'.wellFormed written written' passed passed' ?_
  exact fun place place_mem => by simpa using plans_same place place_mem

/-! ## Recorded drafts -/

/-- A draft that was built from an accepted plan and read back from its body. -/
def Recorded (isAlphanumeric : Char → Bool) (sha256 : List UInt8 → Hash) (draft : DraftRead) : Prop :=
  ∃ submitted facts plan replaces built text body,
    Accepted isAlphanumeric submitted facts plan ∧ Numbered replaces ∧
      build sha256 plan replaces = .ok built ∧ built.body = utf8 text ∧
      readDocument recursionLimit (String.ofList text) = some body ∧
      readPlanDraft body = some draft.plan ∧ draft.digest = built.digest

section Recorded

variable {isAlphanumeric : Char → Bool} {sha256 : List UInt8 → Hash}

/-- What a recorded draft was built from. -/
theorem Recorded.exists_accepted {draft : DraftRead} (recorded : Recorded isAlphanumeric sha256 draft) :
    ∃ facts plan, Accepted isAlphanumeric draft.plan.plan facts plan ∧ Numbered draft.plan.replaces ∧
      draft.plan.plan = .object plan.submitted ∧
      draft.digest = sha256 (utf8 (bodyText plan.submitted draft.plan.replaces)) := by
  obtain ⟨submitted, facts, plan, replaces, built, text, body, accepted, numbered, built_eq, text_eq,
    parsed, read_eq, digest_eq⟩ := recorded
  rw [accepted.build_eq sha256 replaces] at built_eq
  obtain rfl := Except.ok.inj built_eq
  obtain rfl := utf8_injective text_eq
  rw [accepted.readDocument_eq replaces] at parsed
  obtain rfl := Option.some.inj parsed
  rw [accepted.readPlanDraft_eq numbered] at read_eq
  have plan_eq := Option.some.inj read_eq
  obtain ⟨digest, held⟩ := draft
  obtain rfl : _ = held := plan_eq
  exact ⟨facts, plan, accepted, numbered, accepted.object_eq, digest_eq⟩

/-- Drafts of different digests differ at some place, and the walk names the first. -/
theorem Recorded.difference_eq {target newest : DraftRead} (recorded : Recorded isAlphanumeric sha256 target)
    (recorded' : Recorded isAlphanumeric sha256 newest) (other : newest.digest ≠ target.digest) :
    ∃ place, FirstDifference target.plan newest.plan place ∧
      difference target.plan newest.plan = some (render place) := by
  obtain ⟨facts, plan, accepted, numbered, object_eq, digest_eq⟩ := recorded.exists_accepted
  obtain ⟨facts', plan', accepted', numbered', object_eq', digest_eq'⟩ := recorded'.exists_accepted
  obtain ⟨digest, submitted, binding⟩ := target
  obtain ⟨digest', submitted', binding'⟩ := newest
  dsimp only at accepted accepted' object_eq object_eq' digest_eq digest_eq' other ⊢
  have unbound : plan.submitted.lookup "replaces" = none := accepted.lookup_eq_none (by decide)
  have unbound' : plan'.submitted.lookup "replaces" = none := accepted'.lookup_eq_none (by decide)
  have walk := @Approval.difference_eq _ _ binding binding' unbound unbound'
  rw [← object_eq, ← object_eq'] at walk
  cases found : (draftPlaces ⟨submitted, binding⟩ ⟨submitted', binding'⟩).find? (Place.differs
      (.object (draftBody plan.submitted binding)) (.object (draftBody plan'.submitted binding'))) with
  | some place =>
      rw [found] at walk
      refine ⟨place, ?_, walk⟩
      obtain ⟨differ, before, after, places_eq, same⟩ := List.find?_eq_some_iff_append.mp found
      have body_eq : bodyOf ⟨submitted, binding⟩ = .object (draftBody plan.submitted binding) := by
        rw [object_eq]
        rfl
      have body_eq' : bodyOf ⟨submitted', binding'⟩ = .object (draftBody plan'.submitted binding') := by
        rw [object_eq']
        rfl
      refine ⟨before, after, places_eq, ?_, ?_⟩
      · intro earlier earlier_mem
        have agrees := same earlier earlier_mem
        rw [body_eq, body_eq']
        simpa [Place.differs] using agrees
      · rw [body_eq, body_eq']
        simpa [Place.differs] using differ
  | none =>
      rw [found] at walk
      obtain ⟨rfl, rfl⟩ := eq_of_difference_eq_none accepted accepted' walk
      have members_eq := Value.object.inj (object_eq.symm.trans object_eq')
      rw [digest_eq, digest_eq', members_eq] at other
      exact absurd rfl other

theorem firstDifference_iff {first second : RecordedPlan} {place : Place} :
    FirstDifference first second place ↔
      (draftPlaces first second).find? (Place.differs (bodyOf first) (bodyOf second)) = some place := by
  have differs_iff (place : Place) : Place.differs (bodyOf first) (bodyOf second) place = true ↔
      (bodyOf first).at_place place ≠ (bodyOf second).at_place place := by
    rw [Place.differs, bne_iff_ne]
  rw [List.find?_eq_some_iff_append, differs_iff, FirstDifference]
  constructor
  · rintro ⟨before, after, places_eq, same, differ⟩
    refine ⟨differ, before, after, places_eq, fun other other_mem => ?_⟩
    rw [Bool.not_eq_true', ← Bool.not_eq_true, differs_iff, not_not]
    exact same other other_mem
  · rintro ⟨differ, before, after, places_eq, same⟩
    refine ⟨before, after, places_eq, fun other other_mem => ?_, differ⟩
    have agrees := same other other_mem
    rwa [Bool.not_eq_true', ← Bool.not_eq_true, differs_iff, not_not] at agrees

/-- An approval of a recorded draft is always answered, and a stale one by the first place at which the
draft differs from the newest. -/
theorem judgePlanApproval_stale {facts : PlanApprovalFacts}
    (target_recorded : ∀ draft ∈ facts.target, Recorded isAlphanumeric sha256 draft)
    (newest_recorded : ∀ draft ∈ facts.newest, Recorded isAlphanumeric sha256 draft) :
    (judgePlanApproval facts).isSome = true ∧
      ∀ path, judgePlanApproval facts = some (.error (.staleDraft path)) ↔
        ∃ target newest place, facts.target = some target ∧ facts.recorded = true ∧
          facts.newest = some newest ∧ newest.digest ≠ target.digest ∧
          FirstDifference target.plan newest.plan place ∧ path = render place := by
  obtain ⟨target, recorded, newest, approved, set⟩ := facts
  dsimp only at target_recorded newest_recorded ⊢
  unfold judgePlanApproval
  cases target with
  | none => simp
  | some target =>
      cases recorded with
      | false => simp
      | true =>
          cases newest with
          | none => simp [Option.filter_some]
          | some newest =>
              simp only [Option.filter_some, if_true, Option.some.injEq, true_and]
              by_cases other : newest.digest = target.digest
              · rw [if_neg (not_not.mpr other)]
                refine ⟨rfl, fun path => iff_of_false ?_ ?_⟩
                · exact fun same => judgeNewest_ne_stale _ path (Option.some.inj same)
                · rintro ⟨_, _, _, rfl, rfl, differ, -⟩
                  exact differ other
              · rw [if_pos other]
                obtain ⟨place, first, difference_eq⟩ :=
                  (target_recorded target rfl).difference_eq (newest_recorded newest rfl) other
                rw [difference_eq]
                refine ⟨rfl, fun path => ?_⟩
                simp only [Option.map_some, Option.some.injEq, Except.error.injEq,
                  PlanApprovalRefusal.staleDraft.injEq]
                constructor
                · rintro rfl
                  exact ⟨target, newest, place, rfl, rfl, other, first, rfl⟩
                · rintro ⟨_, _, place', rfl, rfl, -, first', rfl⟩
                  rw [firstDifference_iff] at first first'
                  rw [Option.some.inj (first.symm.trans first')]

end Recorded

/-! ## Digests -/

/-- A body reads back as a draft. -/
def ReadsBack (body : List UInt8) (draft : RecordedPlan) : Prop :=
  ∃ text value, body = utf8 text ∧ readDocument recursionLimit (String.ofList text) = some value ∧
    readPlanDraft value = some draft

/-- Drafts of accepted plans are built and read back as submitted, and where the hash does not confuse
their bodies, their digests tell plans and bindings apart. -/
theorem draft_digests {isAlphanumeric : Char → Bool} (sha256 : List UInt8 → Hash)
    {submitted submitted' : Value} {facts facts' : PlanFacts} {plan plan' : Plan}
    {replaces replaces' : Option Replaces} (accepted : Accepted isAlphanumeric submitted facts plan)
    (accepted' : Accepted isAlphanumeric submitted' facts' plan') (numbered : Numbered replaces)
    (numbered' : Numbered replaces') :
    ∃ built built', build sha256 plan replaces = .ok built ∧ build sha256 plan' replaces' = .ok built' ∧
      ReadsBack built.body ⟨submitted, replaces⟩ ∧ ReadsBack built'.body ⟨submitted', replaces'⟩ ∧
      (Set.InjOn sha256 {built.body, built'.body} →
        (built.digest = built'.digest ↔ submitted = submitted' ∧ replaces = replaces')) := by
  refine ⟨_, _, accepted.build_eq sha256 replaces, accepted'.build_eq sha256 replaces',
    ⟨_, _, rfl, accepted.readDocument_eq replaces, accepted.readPlanDraft_eq numbered⟩,
    ⟨_, _, rfl, accepted'.readDocument_eq replaces', accepted'.readPlanDraft_eq numbered'⟩, ?_⟩
  intro injective
  rw [← accepted.bodyText_inj accepted' numbered numbered', ← utf8_injective.eq_iff]
  exact injective.eq_iff (by simp) (by simp)

/-! ## Two plans of a goal each -/

/-- A plan that serves no story. -/
def idlePlan (goal : String) : Value :=
  .ofEntries
    [("phase", .ofNat 1), ("stories", .array []), ("files", .array [.string "a"]),
      ("directories", .array []), ("goal", .string goal), ("context", .string "c"),
      ("notes", .string "n"), ("tasks", .array []), ("evidence_map", .array []),
      ("questions", .array [])]

/-- A phase of one committed story. -/
def oneStory : PlanFacts where
  stories := [⟨1, [⟨"t1", 1, "trigger", "observer", "outcome", none⟩]⟩]
  approved := []
  size := 0
  capacity := none

theorem isJson_ofEntries {entries : List (String × Value)} (json : ∀ entry ∈ entries, IsJson entry.2) :
    IsJson (.ofEntries entries) :=
  .object (Members.sorted_ofEntries entries).nodup_keys fun member member_mem =>
    json member (Members.mem_ofEntries member_mem)

theorem accepted_idlePlan {goal : String}
    (judged : (judgePlan Char.isAlphanum (idlePlan goal) oneStory).toOption.isSome = true) :
    ∃ plan, Accepted Char.isAlphanum (idlePlan goal) oneStory plan := by
  cases judged_eq : judgePlan Char.isAlphanum (idlePlan goal) oneStory with
  | error refusal =>
      rw [judged_eq] at judged
      cases judged
  | ok plan =>
      refine ⟨plan, Value.wellFormed_ofEntries (by simp), isJson_ofEntries ?_, judged_eq⟩
      have empty : IsJson (.array []) := .array (by simp)
      simp [isJson_ofNat, empty, IsJson.string, IsJson.array]

/-- A stand-in hash that tells the two plans apart. -/
def sumHash (bytes : List UInt8) : Hash :=
  .replicate (bytes.foldl (· + ·) 0)

theorem recorded_idlePlan {goal : String}
    (judged : (judgePlan Char.isAlphanum (idlePlan goal) oneStory).toOption.isSome = true) :
    ∃ draft, Recorded Char.isAlphanum sumHash draft ∧
      draft.digest = sumHash (utf8 (bodyText ((idlePlan goal).asObject.getD []) none)) := by
  obtain ⟨plan, accepted⟩ := accepted_idlePlan judged
  have members_eq : (idlePlan goal).asObject.getD [] = plan.submitted := by
    rw [accepted.object_eq]
    rfl
  have numbered : Numbered none := by
    rintro _ ⟨⟩
  rw [members_eq]
  exact ⟨⟨sumHash (utf8 (bodyText plan.submitted none)), ⟨idlePlan goal, none⟩⟩,
    ⟨_, _, plan, none, _, _, _, accepted, numbered, accepted.build_eq sumHash none, rfl,
      accepted.readDocument_eq none, accepted.readPlanDraft_eq numbered, rfl⟩, rfl⟩

theorem judged_idlePlans :
    (judgePlan Char.isAlphanum (idlePlan "a") oneStory).toOption.isSome = true ∧
      (judgePlan Char.isAlphanum (idlePlan "b") oneStory).toOption.isSome = true := by
  decide +kernel

theorem stale_idlePlan : ∃ target newest, newest.digest ≠ target.digest ∧
    (judgePlanApproval ⟨some target, true, some newest, none, ⟨[], [], [], none⟩⟩).isSome = true ∧
    ∃ place, FirstDifference target.plan newest.plan place ∧
      judgePlanApproval ⟨some target, true, some newest, none, ⟨[], [], [], none⟩⟩ =
        some (.error (.staleDraft (render place))) := by
  obtain ⟨target, recorded, digest_eq⟩ := recorded_idlePlan judged_idlePlans.1
  obtain ⟨newest, recorded', digest_eq'⟩ := recorded_idlePlan judged_idlePlans.2
  have other : newest.digest ≠ target.digest := by
    rw [digest_eq, digest_eq']
    decide +kernel
  obtain ⟨place, first, -⟩ := recorded.difference_eq recorded' other
  have stale := @judgePlanApproval_stale _ _ ⟨some target, true, some newest, none, ⟨[], [], [], none⟩⟩
    (by rintro _ ⟨⟩; exact recorded) (by rintro _ ⟨⟩; exact recorded')
  exact ⟨target, newest, other, stale.1, place, first,
    (stale.2 _).mpr ⟨target, newest, place, rfl, rfl, rfl, other, first, rfl⟩⟩

theorem digests_of_idlePlans : ∃ plan plan' built built',
    build sumHash plan none = .ok built ∧ build sumHash plan' none = .ok built' ∧
      ReadsBack built.body ⟨idlePlan "a", none⟩ ∧ ReadsBack built'.body ⟨idlePlan "b", none⟩ ∧
      (Set.InjOn sumHash {built.body, built'.body} →
        (built.digest = built'.digest ↔ idlePlan "a" = idlePlan "b" ∧ (none : Option Replaces) = none)) := by
  obtain ⟨plan, accepted⟩ := accepted_idlePlan judged_idlePlans.1
  obtain ⟨plan', accepted'⟩ := accepted_idlePlan judged_idlePlans.2
  have numbered : Numbered none := by
    rintro _ ⟨⟩
  exact ⟨plan, plan', draft_digests sumHash accepted accepted' numbered numbered⟩

end Baley.Plan.Approval
