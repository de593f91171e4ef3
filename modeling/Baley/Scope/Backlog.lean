import Baley.Scope.BacklogView
import Baley.Scope.RoadmapWritten

/-!
# The backlog as typed entries

What the `backlog` document holds of each story.  A scope event does to its entries what it does to
the roadmap's, so both documents list the same stories.
-/

namespace Baley.Scope

open Json

/-- One story of the backlog. -/
structure BacklogStory where
  entry : StoryEntry
  /-- Its latest question set and the set of its latest refinement. -/
  set : Value
  refined : Value
  /-- The plans in force that serve it, and their sizes summed. -/
  plans : List Value
  size : Value

namespace BacklogStory

/-- A story as it was just declared. -/
def declared (entry : StoryEntry) : BacklogStory := ⟨entry, .null, .null, [], .null⟩

/-- A declared story with the plans and size of the one it replaces. -/
def keepPlans (entry : StoryEntry) : Option BacklogStory → BacklogStory
  | some held => { declared entry with plans := held.plans, size := held.size }
  | none => declared entry

def modify (change : StoryEntry → StoryEntry) (story : BacklogStory) : BacklogStory :=
  { story with entry := change story.entry }

def toValue (story : BacklogStory) : Value :=
  .ofEntries
    [("id", .ofNat story.entry.id), ("sentence", .string story.entry.sentence),
      ("status", .string story.entry.status.asStr),
      ("phase", ScopeEvent.numberOrNull story.entry.phase), ("set", story.set),
      ("refined", story.refined), ("truths", .ofNat story.entry.truths),
      ("plans", .array story.plans), ("size", story.size)]

end BacklogStory

/-! ## Operations -/

namespace Backlog

/-- Change the entry of a story, where there is one. -/
def modifyStory (stories : List BacklogStory) (id : Nat) (change : StoryEntry → StoryEntry) :
    Option (List BacklogStory) :=
  modifyFirst (fun story => story.entry.id = id) (BacklogStory.modify change) stories

/-- What a scope event does to the backlog; nothing where the projector refuses it. -/
def apply (stories : List BacklogStory) : ScopeEvent → Option (List BacklogStory)
  | .storyDeclared id sentence status phase _ =>
      some (putFirst (fun story => story.entry.id = id)
        (BacklogStory.keepPlans { id, sentence, status := status.held, phase, truths := 0 }) stories)
  | .phaseDeclared number _ _ _ _ listed _ =>
      some (stories.map (BacklogStory.modify (StoryEntry.relist number listed)))
  | .storyCorrected id sentence status _ =>
      modifyStory stories id (StoryEntry.correct sentence status.held)
  | .storyReassigned id status phase _ => modifyStory stories id (StoryEntry.move status.held phase)
  | .storyDropped id _ => modifyStory stories id (StoryEntry.move .dropped none)
  | .storyReprioritized order _ =>
      reprioritized (fun story id => story.entry.id = id) stories order
  | _ => some stories

/-- The backlog and the roadmap list the same stories, in the same order. -/
def Agrees (stories : List BacklogStory) (roadmap : Roadmap) : Prop :=
  stories.map BacklogStory.entry = roadmap.stories

variable {stories : List BacklogStory} {roadmap after : Roadmap}

theorem modifyStory_agrees {id : Nat} {change : StoryEntry → StoryEntry} {entries : List StoryEntry}
    (agrees : Agrees stories roadmap)
    (modified : modifyFirst (fun story => story.id = id) change roadmap.stories = some entries) :
    ∃ stories', modifyStory stories id change = some stories' ∧
      stories'.map BacklogStory.entry = entries := by
  rw [← agrees, modifyFirst_map BacklogStory.entry _ change (BacklogStory.modify change) stories
    fun _ _ => rfl] at modified
  exact Option.map_eq_some_iff.mp modified

/-- What the roadmap takes the backlog takes too, and they go on agreeing. -/
theorem apply_agrees (agrees : Agrees stories roadmap) {scopeEvent : ScopeEvent}
    (applied : roadmap.apply scopeEvent = some after) :
    ∃ stories', apply stories scopeEvent = some stories' ∧ Agrees stories' after := by
  cases scopeEvent with
  | projectDescribed | phaseReordered | scopeApproved =>
      obtain rfl := Option.some.inj applied
      exact ⟨stories, rfl, agrees⟩
  | phaseWithdrawn number submission =>
      obtain ⟨phases, -, rfl⟩ := Option.map_eq_some_iff.mp applied
      exact ⟨stories, rfl, agrees⟩
  | storyDeclared id sentence status phase submission =>
      obtain rfl := Option.some.inj applied
      refine ⟨_, rfl, ?_⟩
      have put_eq := putFirst_map BacklogStory.entry (fun story => decide (story.id = id))
        (fun _ => { id, sentence, status := status.held, phase, truths := 0 })
        (BacklogStory.keepPlans { id, sentence, status := status.held, phase, truths := 0 })
        (fun held => by cases held <;> rfl) stories
      rw [Agrees] at agrees ⊢
      rw [Roadmap.stories_declareStory, ← agrees]
      exact put_eq.symm
  | phaseDeclared number name goal detail dependsOn listed submission =>
      obtain rfl := Option.some.inj applied
      refine ⟨_, rfl, ?_⟩
      rw [Agrees] at agrees ⊢
      rw [List.map_map, Roadmap.declarePhase, ← agrees, List.map_map]
      rfl
  | storyCorrected id sentence status submission =>
      obtain ⟨entries, modified, rfl⟩ := Option.map_eq_some_iff.mp applied
      exact modifyStory_agrees agrees modified
  | storyReassigned id status phase submission =>
      exact modifyStory_agrees agrees (Roadmap.stories_of_reassignStory applied)
  | storyDropped id submission =>
      exact modifyStory_agrees agrees (Roadmap.stories_of_reassignStory applied)
  | storyReprioritized order submission =>
      obtain ⟨entries, moved, rfl⟩ := Option.map_eq_some_iff.mp applied
      rw [← agrees, reprioritized_map] at moved
      exact Option.map_eq_some_iff.mp moved

end Backlog

end Baley.Scope
