import Baley.Projection
import Baley.Scope.BacklogWritten
import Baley.Scope.Start

/-!
# Runs of scope changes

A project is started once, then changes are accepted one after the other, each judged against the
roadmap document as it then stands and folded into both documents.
-/

namespace Baley.Scope

open Relation Json

/-- The documents of accepted scope. -/
structure ScopeViews where
  roadmap : Table DocKey Value
  backlog : Table DocKey Value

namespace ScopeViews

def empty : ScopeViews := ⟨∅, ∅⟩

/-- Fold recorded events into both documents. -/
def fold (views : ScopeViews) (events : List Event) : Except String ScopeViews := do
  let roadmap ← roadmapProjector.projectAll views.roadmap events
  let backlog ← backlogProjector.projectAll views.backlog events
  .ok { roadmap, backlog }

end ScopeViews

/-- The events of an approval as the store records them, each in an envelope of its own. -/
def RecordedIn (scopeEvents : List ScopeEvent) (events : List Event) : Prop :=
  List.Forall₂ (fun scopeEvent event => ∃ envelope, event = scopeEvent.new.sealedIn envelope)
    scopeEvents events

/-- The documents, and what was handed out so far in the order it was. -/
structure ScopeState where
  views : ScopeViews
  numbers : List Nat
  ids : List Nat

/-- The state an approved start leaves. -/
inductive Started (submission : Submission) : ScopeState → Prop
  | intro {details : List PayloadRef} {owner recordedAt : String} {events : List ScopeEvent}
      {recorded : List Event} {views : ScopeViews}
      (given : startEvents submission 0 0 details owner recordedAt = .ok events)
      (recorded_in : RecordedIn events recorded)
      (folded : ScopeViews.empty.fold recorded = .ok views) :
      Started submission
        { views, numbers := events.filterMap ScopeEvent.declaredNumber, ids := handedIds events }

/-- An accepted change, judged against the document and folded into both. -/
inductive ScopeStep (state : ScopeState) : ScopeState → Prop
  | intro {scope : AcceptedScope} {progress : Table Nat PhaseProgress} {started : Bool}
      {change : ChangeSubmission} {detail : Option PayloadRef} {owner recordedAt : String}
      {events : List ScopeEvent} {recorded : List Event} {views : ScopeViews}
      (read : AcceptedScope.read (state.views.roadmap.lookup roadmapKey) = some scope)
      (judged : judgeScopeChange scope progress change.change started = .ok ())
      (attached : change.change.Attaches → detail ≠ none)
      (given : changeEvents change scope detail owner recordedAt = .ok events)
      (recorded_in : RecordedIn events recorded)
      (folded : state.views.fold recorded = .ok views) :
      ScopeStep state
        { views, numbers := state.numbers ++ change.change.handedNumbers events
          ids := state.ids ++ handedIds events }

/-- A state some changes after a start. -/
def ScopeReached (submission : Submission) (state : ScopeState) : Prop :=
  ∃ start, Started submission start ∧ ReflTransGen ScopeStep start state

/-! ## Folding -/

namespace Roadmap

variable {roadmap after : Roadmap}

/-- No event lowers the highest number or id. -/
theorem highest_le_of_apply {event : ScopeEvent} (applied : roadmap.apply event = some after) :
    roadmap.highestPhase ≤ after.highestPhase ∧ roadmap.highestStory ≤ after.highestStory := by
  have of_modifyPhase {before after : Roadmap} {number : Nat} {change : HeldPhase → HeldPhase}
      (modified : before.modifyPhase number change = some after) :
      before.highestPhase ≤ after.highestPhase ∧ before.highestStory ≤ after.highestStory := by
    obtain ⟨phases, -, rfl⟩ := Option.map_eq_some_iff.mp modified
    exact ⟨le_refl _, le_refl _⟩
  have of_modifyStory {before after : Roadmap} {id : Nat} {change : StoryEntry → StoryEntry}
      (modified : before.modifyStory id change = some after) :
      before.highestPhase ≤ after.highestPhase ∧ before.highestStory ≤ after.highestStory := by
    obtain ⟨stories, -, rfl⟩ := Option.map_eq_some_iff.mp modified
    exact ⟨le_refl _, le_refl _⟩
  have of_reassignStory {id : Nat} {status : HeldStatus} {phase : Option Nat}
      (moved : roadmap.reassignStory id status phase = some after) :
      roadmap.highestPhase ≤ after.highestPhase ∧ roadmap.highestStory ≤ after.highestStory := by
    obtain ⟨middle, middle_eq, served⟩ := Option.bind_eq_some_iff.mp moved
    have first := of_modifyStory middle_eq
    cases phase with
    | none =>
        obtain rfl := Option.some.inj served
        exact first
    | some number =>
        have second := of_modifyPhase served
        exact ⟨first.1.trans second.1, first.2.trans second.2⟩
  cases event with
  | projectDescribed | phaseReordered | scopeApproved =>
      obtain rfl := Option.some.inj applied
      exact ⟨le_refl _, le_refl _⟩
  | phaseDeclared number name goal detail dependsOn stories submission =>
      obtain rfl := Option.some.inj applied
      exact ⟨le_max_left _ _, le_refl _⟩
  | storyDeclared id sentence status phase submission =>
      obtain rfl := Option.some.inj applied
      unfold declareStory
      simp only
      cases served : phase.bind fun number => modifyPhase _ number (HeldPhase.serve id) with
      | none => exact ⟨le_refl _, le_max_left _ _⟩
      | some after =>
          obtain ⟨number, -, modified⟩ := Option.bind_eq_some_iff.mp served
          have kept := of_modifyPhase modified
          exact ⟨kept.1, (le_max_left _ _).trans kept.2⟩
  | phaseWithdrawn number submission => exact of_modifyPhase applied
  | storyCorrected id sentence status submission => exact of_modifyStory applied
  | storyReassigned id status phase submission => exact of_reassignStory applied
  | storyDropped id submission => exact of_reassignStory applied
  | storyReprioritized order submission =>
      obtain ⟨stories, -, rfl⟩ := Option.map_eq_some_iff.mp applied
      exact ⟨le_refl _, le_refl _⟩

theorem highest_le_of_applyAll {events : List ScopeEvent}
    (applied : roadmap.applyAll events = some after) :
    roadmap.highestPhase ≤ after.highestPhase ∧ roadmap.highestStory ≤ after.highestStory := by
  induction events generalizing roadmap with
  | nil =>
      obtain rfl := Option.some.inj applied
      exact ⟨le_refl _, le_refl _⟩
  | cons event events ih =>
      obtain ⟨middle, first, rest⟩ := Option.bind_eq_some_iff.mp applied
      have kept := highest_le_of_apply first
      have rest_kept := ih rest
      exact ⟨kept.1.trans rest_kept.1, kept.2.trans rest_kept.2⟩

/-- Neither projector refuses what the roadmap takes, and both documents then hold what it leaves. -/
theorem Takes.fold {scopeEvents : List ScopeEvent} {recorded : List Event}
    (takes : roadmap.Takes scopeEvents after) (recorded_in : RecordedIn scopeEvents recorded)
    (phase_fits : after.highestPhase ≤ maxU32) (story_fits : after.highestStory ≤ maxU32)
    {views : ScopeViews} (holds : RoadmapProjector.Holds views.roadmap roadmap)
    {stories : List BacklogStory} (backlog_holds : BacklogProjector.Holds views.backlog stories)
    (agrees : Backlog.Agrees stories roadmap) :
    ∃ views' stories', views.fold recorded = .ok views' ∧
      RoadmapProjector.Holds views'.roadmap after ∧
      BacklogProjector.Holds views'.backlog stories' ∧ Backlog.Agrees stories' after := by
  have projected : ∃ roadmap_documents backlog_documents stories',
      roadmapProjector.projectAll views.roadmap recorded = .ok roadmap_documents ∧
      backlogProjector.projectAll views.backlog recorded = .ok backlog_documents ∧
      RoadmapProjector.Holds roadmap_documents after ∧
      BacklogProjector.Holds backlog_documents stories' ∧ Backlog.Agrees stories' after := by
    induction recorded_in generalizing roadmap stories views with
    | nil =>
        obtain rfl := Option.some.inj takes.applied
        exact ⟨views.roadmap, views.backlog, stories, rfl, rfl, holds, backlog_holds, agrees⟩
    | @cons scopeEvent event scopeEvents recorded in_envelope recorded_in ih =>
        obtain ⟨envelope, rfl⟩ := in_envelope
        obtain ⟨middle, first, rest⟩ := Option.bind_eq_some_iff.mp takes.applied
        have lowers := highest_le_of_apply first
        have rest_lowers := highest_le_of_applyAll rest
        have event_fits := takes.fits scopeEvent List.mem_cons_self
        have as_recorded := scopeEvent.recordedAs_sealedIn envelope
        obtain ⟨roadmap_documents, roadmap_projected, roadmap_holds⟩ :=
          RoadmapProjector.project_recorded holds as_recorded event_fits
            (lowers.1.trans (rest_lowers.1.trans phase_fits))
            (lowers.2.trans (rest_lowers.2.trans story_fits)) first
        obtain ⟨stories', backlog_applied, backlog_agrees⟩ := Backlog.apply_agrees agrees first
        obtain ⟨backlog_documents, backlog_projected, backlog_holds'⟩ :=
          BacklogProjector.project_recorded backlog_holds as_recorded event_fits backlog_applied
        have rest_takes : middle.Takes scopeEvents after :=
          ⟨rest, fun other other_mem => takes.fits other (List.mem_cons_of_mem _ other_mem)⟩
        obtain ⟨roadmap_last, backlog_last, stories_last, roadmap_eq, backlog_eq, rest_holds⟩ :=
          ih rest_takes
            (show RoadmapProjector.Holds (ScopeViews.mk roadmap_documents backlog_documents).roadmap
              middle from roadmap_holds) backlog_holds' backlog_agrees
        refine ⟨roadmap_last, backlog_last, stories_last, ?_, ?_, rest_holds⟩
        · rw [Projector.projectAll_cons, roadmap_projected]
          exact roadmap_eq
        · rw [Projector.projectAll_cons, backlog_projected]
          exact backlog_eq
  obtain ⟨roadmap_documents, backlog_documents, stories', roadmap_eq, backlog_eq, held⟩ := projected
  refine ⟨⟨roadmap_documents, backlog_documents⟩, stories', ?_, held⟩
  rw [ScopeViews.fold, roadmap_eq, backlog_eq]
  rfl

end Roadmap

/-! ## What holds in every state -/

/-- What a state's documents hold. -/
structure ScopeState.Writes (state : ScopeState) (roadmap : Roadmap) (stories : List BacklogStory) :
    Prop where
  roadmap_written : state.views.roadmap.lookup roadmapKey = some (.object roadmap.toMembers)
  backlog_holds : BacklogProjector.Holds state.views.backlog stories
  agrees : Backlog.Agrees stories roadmap

/-- The documents hold a roadmap that has a phase. -/
theorem ScopeState.writes_of_holds {state : ScopeState} {roadmap : Roadmap}
    {stories : List BacklogStory} (phases_ne : roadmap.phases ≠ [])
    (holds : RoadmapProjector.Holds state.views.roadmap roadmap)
    (backlog_holds : BacklogProjector.Holds state.views.backlog stories)
    (agrees : Backlog.Agrees stories roadmap) : state.Writes roadmap stories := by
  refine ⟨?_, backlog_holds, agrees⟩
  rcases holds with ⟨-, rfl⟩ | written
  · exact absurd rfl phases_ne
  · exact written

/-- What is handed out is what the roadmap holds, ever higher. -/
structure ScopeState.Hands (state : ScopeState) (roadmap : Roadmap) : Prop where
  numbers_held : state.numbers = roadmap.phases.map HeldPhase.number
  ids_held : (roadmap.stories.map StoryEntry.id).Perm state.ids
  ids_ascending : state.ids.Pairwise (· < ·)

/-- A state with its roadmap. -/
structure ScopeState.Sound (state : ScopeState) (roadmap : Roadmap) (stories : List BacklogStory) :
    Prop where
  writes : state.Writes roadmap stories
  consistent : roadmap.Consistent
  hands : state.Hands roadmap
  phases_ne : roadmap.phases ≠ []

/-! ### The start -/

theorem Submission.phases_ne (submission : Submission) : submission.phases ≠ [] := by
  intro none_listed
  have judged := submission.roadmap_judged
  simp only [judgeRoadmap, Except.bind_eq_ok, Except.require_eq_ok, none_listed] at judged
  obtain ⟨entries, -, _, entries_ne, judged⟩ := judged
  cases entries with
  | nil => exact entries_ne rfl
  | cons entry entries =>
      simp only [List.zipIdx_cons, List.mapM_cons, Except.bind_eq_ok, pure, Except.pure,
        Except.ok.injEq] at judged
      obtain ⟨phase, -, phases, -, listed⟩ := judged
      cases listed

/-- Neither projector refuses an event of a start. -/
theorem start_folds {submission : Submission} {details : List PayloadRef}
    {owner recordedAt : String} {events : List ScopeEvent} {recorded : List Event}
    (given : startEvents submission 0 0 details owner recordedAt = .ok events)
    (recorded_in : RecordedIn events recorded) :
    ∃ views stories, ScopeViews.empty.fold recorded = .ok views ∧
      RoadmapProjector.Holds views.roadmap (Roadmap.started submission) ∧
      BacklogProjector.Holds views.backlog stories ∧
      Backlog.Agrees stories (Roadmap.started submission) := by
  obtain ⟨takes, consistent, -⟩ := Roadmap.takes_start submission given
  exact takes.fold recorded_in consistent.serving.highestPhase_fits
    consistent.serving.highestStory_fits (Or.inl ⟨rfl, rfl⟩)
    (show BacklogProjector.Holds ScopeViews.empty.backlog [] from Or.inl ⟨rfl, rfl⟩) rfl

theorem Started.sound {submission : Submission} {state : ScopeState}
    (started : Started submission state) :
    ∃ stories, state.Sound (Roadmap.started submission) stories := by
  obtain ⟨given, recorded_in, folded⟩ := started
  obtain ⟨-, consistent, numbers_eq, ids_eq⟩ := Roadmap.takes_start submission given
  obtain ⟨views, stories, fold_eq, holds, backlog_holds, agrees⟩ := start_folds given recorded_in
  obtain rfl := Except.ok.inj (folded.symm.trans fold_eq)
  have phases_ne : (Roadmap.started submission).phases ≠ [] := by
    intro none_held
    have numbers_started := Roadmap.numbers_started submission
    rw [none_held] at numbers_started
    have length_eq := congrArg List.length numbers_started
    rw [List.map_nil, List.length_nil, List.length_range'] at length_eq
    exact submission.phases_ne (List.length_eq_zero_iff.mp length_eq.symm)
  refine ⟨stories, ScopeState.writes_of_holds phases_ne holds backlog_holds agrees, consistent,
    ⟨numbers_eq, ?_, ?_⟩, phases_ne⟩
  · rw [ids_eq]
  · rw [ids_eq, Roadmap.ids_started]
    exact List.pairwise_lt_range'

/-! ### A change -/

section Change

variable {state : ScopeState} {roadmap : Roadmap} {stories : List BacklogStory}
  (sound : state.Sound roadmap stories)

include sound

/-- A change is judged against the roadmap that the document holds. -/
theorem ScopeState.Sound.read :
    AcceptedScope.read (state.views.roadmap.lookup roadmapKey) = some roadmap.accepted := by
  rw [sound.writes.roadmap_written]
  exact sound.consistent.read_toMembers

variable {progress : Table Nat PhaseProgress} {started : Bool} {change : ChangeSubmission}
  {detail : Option PayloadRef} {owner recordedAt : String}

/-- Neither projector refuses an event of an accepted change. -/
theorem change_folds
    (judged : judgeScopeChange roadmap.accepted progress change.change started = .ok ())
    (attached : change.change.Attaches → detail ≠ none) {events : List ScopeEvent}
    (given : changeEvents change roadmap.accepted detail owner recordedAt = .ok events)
    {recorded : List Event} (recorded_in : RecordedIn events recorded) :
    ∃ views after stories', state.views.fold recorded = .ok views ∧
      Roadmap.Step roadmap (change.change.handedNumbers events) (handedIds events) after ∧
      RoadmapProjector.Holds views.roadmap after ∧
      BacklogProjector.Holds views.backlog stories' ∧ Backlog.Agrees stories' after := by
  obtain ⟨after, takes, step⟩ :=
    (Roadmap.changeEvents_of_judged sound.consistent judged attached owner recordedAt).2 events given
  obtain ⟨views, stories', fold_eq, held⟩ := takes.fold recorded_in
    step.consistent.serving.highestPhase_fits step.consistent.serving.highestStory_fits
    (Or.inr sound.writes.roadmap_written) sound.writes.backlog_holds sound.writes.agrees
  exact ⟨views, after, stories', fold_eq, step, held⟩

/-- An accepted change leaves a sound state. -/
theorem ScopeStep.leaves_sound {later : ScopeState} (step : ScopeStep state later) :
    ∃ numbers ids after stories', Roadmap.Step roadmap numbers ids after ∧
      later.Sound after stories' := by
  obtain ⟨read, judged, attached, given, recorded_in, folded⟩ := step
  obtain rfl := Option.some.inj (sound.read.symm.trans read)
  obtain ⟨views, after, stories', fold_eq, step, holds, backlog_holds, agrees⟩ :=
    change_folds sound judged attached given recorded_in
  obtain rfl := Except.ok.inj (folded.symm.trans fold_eq)
  have phases_ne : after.phases ≠ [] := by
    intro none_held
    have numbers_eq := step.numbers_handed
    rw [none_held, List.map_nil] at numbers_eq
    exact sound.phases_ne (List.map_eq_nil_iff.mp (List.append_eq_nil_iff.mp numbers_eq.symm).1)
  refine ⟨_, _, after, stories', step, ScopeState.writes_of_holds phases_ne holds backlog_holds
    agrees, step.consistent, ⟨?_, ?_, ?_⟩, phases_ne⟩
  · rw [step.numbers_handed, ← sound.hands.numbers_held]
  · exact step.ids_handed.trans (sound.hands.ids_held.append_right _)
  · refine List.pairwise_append.mpr ⟨sound.hands.ids_ascending, step.ids_ascending, ?_⟩
    intro first first_mem second second_mem
    obtain ⟨story, story_mem, rfl⟩ :=
      List.mem_map.mp (sound.hands.ids_held.mem_iff.mpr first_mem)
    exact (sound.consistent.serving.story_numbered story story_mem).2.trans_lt
      (step.ids_past second second_mem)

end Change

/-! ### Runs -/

/-- What a run of changes keeps of the roadmap it started from. -/
structure Roadmap.Onward (roadmap after : Roadmap) : Prop where
  final_kept : ∀ story ∈ roadmap.stories, story.status.Final →
    ∃ other ∈ after.stories, other.id = story.id ∧ other.status = story.status
  misplaced : ∀ number dependency, after.DependsOn number dependency →
    Before after.order number dependency →
      roadmap.DependsOn number dependency ∧ Before roadmap.order number dependency

theorem ScopeState.Sound.onward {state later : ScopeState} {roadmap : Roadmap}
    {stories : List BacklogStory} (sound : state.Sound roadmap stories)
    (run : ReflTransGen ScopeStep state later) :
    ∃ after stories', later.Sound after stories' ∧ roadmap.Onward after := by
  induction run with
  | refl =>
      exact ⟨roadmap, stories, sound, fun story story_mem _ => ⟨story, story_mem, rfl, rfl⟩,
        fun number dependency depends before => ⟨depends, before⟩⟩
  | tail _ step ih =>
      obtain ⟨middle, middle_stories, middle_sound, onward⟩ := ih
      obtain ⟨numbers, ids, after, stories', changed, after_sound⟩ :=
        step.leaves_sound middle_sound
      refine ⟨after, stories', after_sound, fun story story_mem final => ?_,
        fun number dependency depends before => ?_⟩
      · obtain ⟨other, other_mem, id_eq, status_eq⟩ := onward.final_kept story story_mem final
        obtain ⟨last, last_mem, last_id, last_status⟩ :=
          changed.final_kept other other_mem (status_eq ▸ final)
        exact ⟨last, last_mem, last_id.trans id_eq, last_status.trans status_eq⟩
      · obtain ⟨depended, stood⟩ := changed.misplaced number dependency depends before
        exact onward.misplaced number dependency depended stood

/-- Every state reached is sound. -/
theorem ScopeReached.sound {submission : Submission} {state : ScopeState}
    (reached : ScopeReached submission state) :
    ∃ roadmap stories, state.Sound roadmap stories ∧ (Roadmap.started submission).Onward roadmap := by
  obtain ⟨start, started, run⟩ := reached
  obtain ⟨stories, sound⟩ := started.sound
  exact sound.onward run

/-! ### A start with a forward dependency -/

/-- A phase as a submission gives it. -/
def forwardPhase (name : String) (dependsOn stories : List Value) : Value :=
  .ofEntries
    [("name", .string name), ("goal", .string "Goal"), ("detail", .string "Detail"),
      ("depends_on", .array dependsOn), ("stories", .array stories)]

/-- Two phases, of which the first depends on the second and serves the one story. -/
def forward : Submission where
  description := ⟨"A tool", "It works", []⟩
  stories := [⟨"a", "A story", .active⟩]
  phases := [⟨"First", "Goal", "Detail", [2], [0]⟩, ⟨"Second", "Goal", "Detail", [], []⟩]
  value := .ofEntries
    [("roadmap", .array
      [forwardPhase "First" [.ofNat 2] [.string "a"], forwardPhase "Second" [] []])]
  digest := Hash.replicate 0
  roadmap_judged := rfl
  stories_assigned := rfl
  acyclic := by decide +kernel

/-- The details the phases attach. -/
def forwardDetails : List PayloadRef :=
  [⟨.replicate 1, 6, .record⟩, ⟨.replicate 2, 6, .record⟩]

/-- The envelope of an approval's event. -/
def approvalEnvelope : Event :=
  { projectId := "project", seq := 1, stream := projectStream, streamVersion := 1
    typeName := Scope.projectDescribed, typeVersion := 1, actor := .owner, caller := none
    recordedAt := "2026-09-25T18:00:00Z", requestId := "request", git := none, policyVersion := 1
    payload := .null, prevHash := none, hash := .replicate 0 }

/-- A start that gives its events is approved. -/
theorem exists_started {submission : Submission} {details : List PayloadRef}
    {owner recordedAt : String} {events : List ScopeEvent}
    (given : startEvents submission 0 0 details owner recordedAt = .ok events) (envelope : Event) :
    ∃ state, Started submission state := by
  have recorded_in : RecordedIn events
      (events.map fun scopeEvent => scopeEvent.new.sealedIn envelope) := by
    rw [RecordedIn, List.forall₂_map_right_iff]
    exact List.forall₂_same.mpr fun scopeEvent _ => ⟨envelope, rfl⟩
  obtain ⟨views, _, folded, -⟩ := start_folds given recorded_in
  exact ⟨_, .intro given recorded_in folded⟩

theorem exists_forward_started : ∃ state, Started forward state := by
  have given : startEvents forward 0 0 forwardDetails "owner" "2026-09-25T18:00:00Z" = .ok _ := rfl
  exact exists_started given approvalEnvelope

end Baley.Scope
