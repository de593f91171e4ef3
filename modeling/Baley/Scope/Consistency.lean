import Baley.Scope.Runs

/-!
# Accepted scope stays consistent

Every state some accepted changes after a start, whatever they were, and which phases its order may put
before one they depend on.
-/

namespace Baley.Scope

open Relation Json

/-- What accepted scope holds in a state, written in both documents. -/
structure ScopeState.Agreed (state : ScopeState) (roadmap : Roadmap) (stories : List BacklogStory) :
    Prop where
  roadmap_written : state.views.roadmap.lookup roadmapKey = some (.object roadmap.toMembers)
  backlog_written : BacklogProjector.Holds state.views.backlog stories
  /-- The backlog's stories are the roadmap's: id, sentence, status, phase and truths. -/
  same_stories : stories.map BacklogStory.entry = roadmap.stories
  stories_distinct : (roadmap.stories.map StoryEntry.id).Nodup
  listed_once : ∀ first second id, roadmap.Lists first id → roadmap.Lists second id → first = second
  lists_iff_names : ∀ number id, roadmap.Lists number id ↔ roadmap.Names id number
  withdrawn_serve_none : ∀ phase ∈ roadmap.phases, phase.withdrawn = true → phase.stories = []
  served_active : ∀ story ∈ roadmap.stories, story.phase ≠ none → story.status = .active
  /-- The numbers handed out are those of the phases ever declared, withdrawn ones included. -/
  numbers_held : state.numbers = roadmap.phases.map HeldPhase.number
  numbers_ascending : state.numbers.Pairwise (· < ·)
  ids_held : (roadmap.stories.map StoryEntry.id).Perm state.ids
  ids_ascending : state.ids.Pairwise (· < ·)
  dependencies_declared : ∀ number dependency, roadmap.DependsOn number dependency →
    roadmap.Declared dependency
  acyclic : ∀ number, ¬ TransGen roadmap.DependsOn number number

/-- An accepted change neither panics nor has an event refused. -/
def ScopeState.TakesChanges (state : ScopeState) : Prop :=
  ∃ scope, AcceptedScope.read (state.views.roadmap.lookup roadmapKey) = some scope ∧
    ∀ (progress : Table Nat PhaseProgress) (started : Bool) (change : ChangeSubmission)
      (detail : Option PayloadRef) (owner recordedAt : String),
      judgeScopeChange scope progress change.change started = .ok () →
      (change.change.Attaches → detail ≠ none) →
        (∀ message, changeEvents change scope detail owner recordedAt ≠ .error (.panicked message)) ∧
          ∀ events recorded, changeEvents change scope detail owner recordedAt = .ok events →
            RecordedIn events recorded → ∃ views, state.views.fold recorded = .ok views

/-- A story that is dropped or excluded in a state is so in every later one. -/
def ScopeState.KeepsFinal (state : ScopeState) (roadmap : Roadmap) : Prop :=
  ∀ later, ReflTransGen ScopeStep state later →
    ∃ after stories, later.Agreed after stories ∧
      ∀ story ∈ roadmap.stories, story.status.Final →
        ∃ other ∈ after.stories, other.id = story.id ∧ other.status = story.status

variable {state : ScopeState} {roadmap : Roadmap} {stories : List BacklogStory}

theorem ScopeState.Sound.agreed (sound : state.Sound roadmap stories) :
    state.Agreed roadmap stories where
  roadmap_written := sound.writes.roadmap_written
  backlog_written := sound.writes.backlog_holds
  same_stories := sound.writes.agrees
  stories_distinct := sound.consistent.serving.stories_distinct
  listed_once := fun _ _ _ => sound.consistent.serving.listed_once
  lists_iff_names := sound.consistent.serving.lists_iff_names
  withdrawn_serve_none := fun _ => sound.consistent.withdrawn_empty
  served_active := sound.consistent.serving.served_active
  numbers_held := sound.hands.numbers_held
  numbers_ascending := sound.hands.numbers_held ▸ sound.consistent.serving.phases_ascending
  ids_held := sound.hands.ids_held
  ids_ascending := sound.hands.ids_ascending
  dependencies_declared := sound.consistent.depending.dependencies_declared
  acyclic := sound.consistent.depending.acyclic

theorem ScopeState.Sound.takesChanges (sound : state.Sound roadmap stories) :
    state.TakesChanges := by
  refine ⟨roadmap.accepted, sound.read, ?_⟩
  intro progress started change detail owner recordedAt judged attached
  refine ⟨(Roadmap.changeEvents_of_judged sound.consistent judged attached owner recordedAt).1, ?_⟩
  intro events recorded given recorded_in
  obtain ⟨views, _, _, folded, -⟩ := change_folds sound judged attached given recorded_in
  exact ⟨views, folded⟩

theorem ScopeState.Sound.keepsFinal (sound : state.Sound roadmap stories) :
    state.KeepsFinal roadmap := by
  intro later run
  obtain ⟨after, after_stories, after_sound, onward⟩ := sound.onward run
  exact ⟨after, after_stories, after_sound.agreed, onward.final_kept⟩

/-- Accepted scope stays consistent: no event of a start or of an accepted change is refused, nothing
panics, and in every state reached both documents hold one consistent scope. -/
theorem scope_stays_consistent (submission : Submission) :
    (∀ details owner recordedAt events recorded,
      startEvents submission 0 0 details owner recordedAt = .ok events →
        RecordedIn events recorded → ∃ views, ScopeViews.empty.fold recorded = .ok views) ∧
      ∀ state, ScopeReached submission state →
        ∃ roadmap stories, state.Agreed roadmap stories ∧ state.TakesChanges ∧
          state.KeepsFinal roadmap := by
  constructor
  · intro details owner recordedAt events recorded given recorded_in
    obtain ⟨views, _, folded, -⟩ := start_folds given recorded_in
    exact ⟨views, folded⟩
  · intro state reached
    obtain ⟨roadmap, stories, sound, -⟩ := reached.sound
    exact ⟨roadmap, stories, sound.agreed, sound.takesChanges, sound.keepsFinal⟩

theorem scope_stays_consistent_forward : ∃ state, ScopeReached forward state ∧
    ∃ roadmap stories, state.Agreed roadmap stories ∧ state.TakesChanges ∧
      state.KeepsFinal roadmap := by
  obtain ⟨state, started⟩ := exists_forward_started
  have reached : ScopeReached forward state := ⟨state, started, .refl⟩
  exact ⟨state, reached, (scope_stays_consistent forward).2 state reached⟩

/-!
## The order and the dependencies

A reorder, a declaration and an edit are refused when they would put a phase before one it depends on; a
start is accepted with such a phase, which then stays until a change parts the two.
-/

/-- The phase at a place of the submission depends on a later one. -/
def Submission.Forward (submission : Submission) (number dependency : Nat) : Prop :=
  ∃ index, ∃ inside : index < submission.phases.length,
    number = index + 1 ∧ dependency ∈ submission.phases[index].dependsOn ∧ number < dependency

theorem lt_of_before_range' {count first second : Nat}
    (before : Before (List.range' 1 count) first second) : first < second := by
  have ascending : [first, second].Pairwise (· < ·) := List.Pairwise.sublist before List.pairwise_lt_range'
  simpa using ascending

/-- What stands before its dependency after a start is a forward dependency of the submission. -/
theorem forward_of_started {submission : Submission} {number dependency : Nat}
    (depends : (Roadmap.started submission).DependsOn number dependency)
    (before : Before (Roadmap.started submission).order number dependency) :
    submission.Forward number dependency := by
  obtain ⟨index, inside, number_eq, listed⟩ :=
    (Roadmap.dependsOn_started submission number dependency).mp depends
  exact ⟨index, inside, number_eq, listed, lt_of_before_range' before⟩

/-- In every state reached the order lists each declared phase exactly once and no withdrawn one, and
a phase stands before one it depends on only where the start already declared the two so. -/
theorem order_of_reached {submission : Submission} {state : ScopeState}
    (reached : ScopeReached submission state) :
    ∃ roadmap : Roadmap, state.views.roadmap.lookup roadmapKey = some (.object roadmap.toMembers) ∧
      roadmap.order.Nodup ∧ (∀ number, number ∈ roadmap.order ↔ roadmap.Declared number) ∧
      ∀ number dependency, roadmap.DependsOn number dependency →
        Before roadmap.order number dependency → submission.Forward number dependency := by
  obtain ⟨roadmap, stories, sound, onward⟩ := reached.sound
  refine ⟨roadmap, sound.writes.roadmap_written, sound.consistent.ordered.order_nodup,
    sound.consistent.ordered.mem_order, fun number dependency depends before => ?_⟩
  obtain ⟨depended, stood⟩ := onward.misplaced number dependency depends before
  exact forward_of_started depended stood

theorem order_of_reached_forward : ∃ state, ScopeReached forward state ∧
    ∃ roadmap : Roadmap, state.views.roadmap.lookup roadmapKey = some (.object roadmap.toMembers) ∧
      roadmap.order.Nodup ∧ (∀ number, number ∈ roadmap.order ↔ roadmap.Declared number) ∧
      ∀ number dependency, roadmap.DependsOn number dependency →
        Before roadmap.order number dependency → forward.Forward number dependency := by
  obtain ⟨state, started⟩ := exists_forward_started
  have reached : ScopeReached forward state := ⟨state, started, .refl⟩
  exact ⟨state, reached, order_of_reached reached⟩

/-- The start whose first phase depends on the second is accepted, and leaves the first one before
it. -/
theorem forward_stands_before : ¬ ∀ (submission : Submission) (state : ScopeState)
    (roadmap : Roadmap), ScopeReached submission state →
      state.views.roadmap.lookup roadmapKey = some (.object roadmap.toMembers) →
        ∀ number dependency, roadmap.DependsOn number dependency →
          ¬ Before roadmap.order number dependency := by
  intro claimed
  obtain ⟨state, started⟩ := exists_forward_started
  obtain ⟨stories, sound⟩ := started.sound
  have depends : (Roadmap.started forward).DependsOn 1 2 :=
    (Roadmap.dependsOn_started forward 1 2).mpr ⟨0, by decide, rfl, List.mem_singleton.mpr rfl⟩
  exact claimed forward state (Roadmap.started forward) ⟨state, started, .refl⟩
    sound.writes.roadmap_written 1 2 depends (List.Sublist.refl [1, 2])

end Baley.Scope
