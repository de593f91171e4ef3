import Baley.Plan.Evidence

/-!
# The content of a plan

The plan's own members are read in one fixed order, the question set last and by its own judge.  No
text is trimmed or rewritten.
-/

namespace Baley

open Json

/-- What a plan says, besides its question set. -/
structure PlanContent where
  phase : Nat
  /-- The stories it serves, in submitted order. -/
  stories : List Nat
  files : List String
  directories : List String
  goal : String
  context : String
  notes : String
  tasks : List PlanTask
  evidenceMap : List EvidenceItem
  /-- The plan object as submitted. -/
  submitted : Members

/-- A plan that was read, every member kept as submitted. -/
structure Plan extends PlanContent where
  questions : QuestionSet

namespace Plan

/-- The plan's members, in the order they are judged. -/
def members : List String :=
  ["phase", "stories", "files", "directories", "goal", "context", "notes", "tasks", "evidence_map",
    "questions"]

def listAt (plan : Members) (name : String) : Except PlanRefusal (List Value) :=
  .ofOption (.typed name) (listMember plan name)

def planText (plan : Members) (name : String) : Except PlanRefusal String :=
  .ofOption (.typed name) (textMember plan name)

/-- A story read, none twice. -/
def readStory (position : Nat) (seen : List Nat) (entry : Value) : Except PlanRefusal Nat :=
  .ofOption (.typed s!"stories[{position}]") ((counter (some entry)).filter fun story => story ∉ seen)

/-- Each member in the judge's order, and the question set as given. -/
def readMembers (plan : Members) : Except PlanRefusal (PlanContent × Value) := do
  let phase ← .ofOption (.typed "phase") (counter (plan.lookup "phase"))
  let stories ← listAt plan "stories"
  let stories ← readEach (fun story => story) readStory 0 [] stories
  let files ← listAt plan "files"
  let directories ← listAt plan "directories"
  let (files, directories) ← Lease.read files directories
  let goal ← planText plan "goal"
  let context ← planText plan "context"
  let notes ← planText plan "notes"
  let tasks ← listAt plan "tasks"
  let tasks ← PlanTask.read tasks
  let evidenceMap ← listAt plan "evidence_map"
  let evidenceMap ← Evidence.read evidenceMap
  let questions ← .ofOption (.typed "questions") (plan.lookup "questions")
  .ok ({ phase, stories, files, directories, goal, context, notes, tasks, evidenceMap, submitted := plan },
    questions)

/-- Steps (1) and (2): the plan's own members, then its questions. -/
def read (value : Value) : Except PlanRefusal Plan :=
  match value with
  | .object plan =>
      match firstUnknown plan members with
      | some unknown => .error (.typed unknown)
      | none => do
          let (content, questions) ← readMembers plan
          let questions ← (judgeSet questions).mapError .questions
          .ok { content with questions }
  | _ => .error (.typedContent none)

/-! ## What a plan is -/

/-- What the members of a plan are written as. -/
structure ContentAs (value : Value) (content : PlanContent) : Prop where
  object_eq : value = .object content.submitted
  within : Within members content.submitted
  phase_as : ∃ phase, value.get? "phase" = some phase ∧ IsCounter phase content.phase
  stories_as : ∃ stories, value.get? "stories" = some (.array stories) ∧
    List.Forall₂ IsCounter stories content.stories
  stories_nodup : content.stories.Nodup
  files_eq : value.get? "files" = some (texts content.files)
  directories_eq : value.get? "directories" = some (texts content.directories)
  lease : IsLease content.files content.directories
  goal_eq : value.get? "goal" = some (.string content.goal)
  context_eq : value.get? "context" = some (.string content.context)
  notes_eq : value.get? "notes" = some (.string content.notes)
  tasks_as : ∃ tasks, value.get? "tasks" = some (.array tasks) ∧
    List.Forall₂ PlanTask.WrittenAs tasks content.tasks
  tasks_nodup : (content.tasks.map PlanTask.id).Nodup
  evidence_as : ∃ items, value.get? "evidence_map" = some (.array items) ∧
    List.Forall₂ Evidence.ItemAs items content.evidenceMap
  items_nodup : (content.evidenceMap.map EvidenceItem.id).Nodup
  questions_given : (value.get? "questions").isSome = true

theorem listAt_eq_ok {plan : Members} {name : String} {entries : List Value} :
    listAt plan name = .ok entries ↔ plan.lookup name = some (.array entries) := by
  rw [listAt, Except.ofOption_eq_ok, listMember_eq_some]

theorem planText_eq_ok {plan : Members} {name text : String} :
    planText plan name = .ok text ↔ plan.lookup name = some (.string text) := by
  rw [planText, Except.ofOption_eq_ok, textMember_eq_some]

theorem readStories_eq_ok {entries : List Value} {stories : List Nat} :
    readEach (fun story => story) readStory 0 [] entries = .ok stories ↔
      List.Forall₂ IsCounter entries stories ∧ stories.Nodup := by
  have one (position : Nat) (seen : List Nat) (entry : Value) (story : Nat) :
      readStory position seen entry = .ok story ↔ IsCounter entry story ∧ story ∉ seen := by
    rw [readStory, Except.ofOption_eq_ok, Option.filter_eq_some_iff, counter_eq_some]
    simp
  have each := @readEach_eq_ok Nat Nat (fun story => story) readStory IsCounter one entries 0 [] stories
  refine each.trans ?_
  simp

theorem readMembers_eq_ok {plan : Members} {content : PlanContent} {questions : Value}
    (within : Within members plan) :
    readMembers plan = .ok (content, questions) ↔
      content.submitted = plan ∧ ContentAs (.object plan) content ∧ plan.lookup "questions" = some questions := by
  simp only [readMembers, Except.bind_eq_ok, Except.ofOption_eq_ok, counter_eq_some, listAt_eq_ok,
    readStories_eq_ok, planText_eq_ok, PlanTask.read_eq_ok, Evidence.read_eq_ok, Except.ok.injEq, Prod.mk.injEq]
  constructor
  · rintro ⟨phase, phase_as, stories, stories_eq, stories', ⟨stories_as, stories_nodup⟩, files, files_eq,
      directories, directories_eq, ⟨files', directories'⟩, lease, goal, goal_eq, context, context_eq, notes,
      notes_eq, tasks, tasks_eq, tasks', ⟨tasks_as, tasks_nodup⟩, items, items_eq, items',
      ⟨items_as, items_nodup⟩, found, found_eq, rfl, rfl⟩
    obtain ⟨rfl, rfl, is_lease⟩ := Lease.read_eq_ok.mp lease
    exact ⟨rfl, ⟨rfl, within, phase_as, ⟨stories, stories_eq, stories_as⟩, stories_nodup, files_eq,
      directories_eq, is_lease, goal_eq, context_eq, notes_eq, ⟨tasks, tasks_eq, tasks_as⟩, tasks_nodup,
      ⟨items, items_eq, items_as⟩, items_nodup, by simp [found_eq]⟩, found_eq⟩
  · rintro ⟨rfl, written, found_eq⟩
    obtain ⟨-, -, phase_as, ⟨stories, stories_eq, stories_as⟩, stories_nodup, files_eq, directories_eq, lease,
      goal_eq, context_eq, notes_eq, ⟨tasks, tasks_eq, tasks_as⟩, tasks_nodup, ⟨items, items_eq, items_as⟩,
      items_nodup, -⟩ := written
    exact ⟨_, phase_as, stories, stories_eq, _, ⟨stories_as, stories_nodup⟩, _, files_eq, _, directories_eq,
      (content.files, content.directories), Lease.read_eq_ok.mpr ⟨rfl, rfl, lease⟩, _, goal_eq, _, context_eq,
      _, notes_eq, tasks, tasks_eq, _, ⟨tasks_as, tasks_nodup⟩, items, items_eq, _, ⟨items_as, items_nodup⟩,
      _, found_eq, rfl, rfl⟩

/-- The value's questions pass the question set judge. -/
def QuestionsPass (value : Value) (set : QuestionSet) : Prop :=
  ∃ questions, value.get? "questions" = some questions ∧ judgeSet questions = .ok set

theorem read_eq_ok {value : Value} {plan : Plan} :
    read value = .ok plan ↔ ContentAs value plan.toPlanContent ∧ QuestionsPass value plan.questions := by
  unfold read
  cases value with
  | object submitted =>
      simp only
      cases unknown : firstUnknown submitted members with
      | some name =>
          refine iff_of_false (by simp) ?_
          rintro ⟨written, -⟩
          obtain ⟨object_eq, within, -⟩ := written
          cases object_eq
          rw [firstUnknown_eq_none.mpr within] at unknown
          cases unknown
      | none =>
          have within := firstUnknown_eq_none.mp unknown
          simp only [Except.bind_eq_ok, Except.mapError_eq_ok, Except.ok.injEq, Prod.exists,
            readMembers_eq_ok within]
          constructor
          · rintro ⟨content, questions, ⟨-, written, given⟩, set, judged, rfl⟩
            exact ⟨written, questions, given, judged⟩
          · rintro ⟨written, questions, given, judged⟩
            have submitted_eq : plan.submitted = submitted := by
              have object_eq := written.object_eq
              cases object_eq
              rfl
            exact ⟨_, questions, ⟨submitted_eq, written, given⟩, _, judged, rfl⟩
  | _ =>
      refine iff_of_false (by simp) ?_
      rintro ⟨written, -⟩
      have object_eq := written.object_eq
      cases object_eq

theorem refusedAt_readMembers (plan : Members) : RefusedAt 1 (readMembers plan) := by
  have at_list (name : String) : RefusedAt 1 (listAt plan name) := refusedAt_ofOption rfl _
  have at_text (name : String) : RefusedAt 1 (planText plan name) := refusedAt_ofOption rfl _
  have at_story (position : Nat) (seen : List Nat) (entry : Value) : RefusedAt 1 (readStory position seen entry) :=
    refusedAt_ofOption rfl _
  refine (refusedAt_ofOption rfl _).bind fun phase => (at_list _).bind fun stories => ?_
  refine (refusedAt_readEach at_story _ _ _).bind fun stories => (at_list _).bind fun files => ?_
  refine (at_list _).bind fun directories => (Lease.refusedAt_read _ _).bind fun lease => ?_
  refine (at_text _).bind fun goal => (at_text _).bind fun context => (at_text _).bind fun notes => ?_
  refine (at_list _).bind fun tasks => (PlanTask.refusedAt_read _).bind fun tasks => ?_
  refine (at_list _).bind fun items => (Evidence.refusedAt_read _).bind fun items => ?_
  exact (refusedAt_ofOption rfl _).bind fun questions => refusedAt_ok _

/-- A plan that cannot be read breaks the grammar, or its questions do not pass. -/
theorem read_eq_error {value : Value} {refusal : PlanRefusal} (refused : read value = .error refusal) :
    refusal.step = 1 ∧ (∀ content, ¬ContentAs value content) ∨
      refusal.step = 2 ∧ (∃ content, ContentAs value content) ∧ ∀ set, ¬QuestionsPass value set := by
  unfold read at refused
  cases value with
  | object submitted =>
      simp only at refused
      have submitted_eq {content : PlanContent} (written : ContentAs (.object submitted) content) :
          content.submitted = submitted := by
        have object_eq := written.object_eq
        cases object_eq
        rfl
      cases unknown : firstUnknown submitted members with
      | some name =>
          rw [unknown] at refused
          cases refused
          refine .inl ⟨rfl, fun content written => ?_⟩
          rw [firstUnknown_eq_none.mpr (submitted_eq written ▸ written.within)] at unknown
          cases unknown
      | none =>
          have within := firstUnknown_eq_none.mp unknown
          rw [unknown] at refused
          cases read_eq : readMembers submitted with
          | error fault =>
              rw [read_eq] at refused
              cases refused
              refine .inl ⟨refusedAt_readMembers submitted _ read_eq, fun content written => ?_⟩
              obtain ⟨questions, given⟩ := Option.isSome_iff_exists.mp written.questions_given
              rw [(readMembers_eq_ok within).mpr ⟨submitted_eq written, written, given⟩] at read_eq
              cases read_eq
          | ok found =>
              obtain ⟨content, questions⟩ := found
              obtain ⟨-, written, given⟩ := (readMembers_eq_ok within).mp read_eq
              rw [read_eq] at refused
              cases judged : judgeSet questions with
              | error fault =>
                  simp only [bind, Except.bind, judged, Except.mapError] at refused
                  cases refused
                  refine .inr ⟨rfl, ⟨content, written⟩, ?_⟩
                  rintro set ⟨other, other_given, passed⟩
                  have given : (Value.object submitted).get? "questions" = some questions := given
                  rw [given] at other_given
                  cases other_given
                  rw [judged] at passed
                  cases passed
              | ok set =>
                  simp only [bind, Except.bind, judged, Except.mapError] at refused
                  cases refused
  | _ =>
      cases refused
      refine .inl ⟨rfl, fun content written => ?_⟩
      have object_eq := written.object_eq
      cases object_eq

end Plan

end Baley
