import Baley.Scope.RoadmapView
import Baley.Scope.Rules

/-!
# The roadmap as typed entries

What the `roadmap` document holds, with one operation for each scope event.  The projector does to the
written document what the operation does to the entries.
-/

namespace Baley.Scope

open Json

/-- The status a stated one is held as. -/
def StoryStatus.held : StoryStatus → HeldStatus
  | .active => .active
  | .deferred => .deferred
  | .excluded => .excluded

@[simp]
theorem StoryStatus.asStr_held (status : StoryStatus) : status.held.asStr = status.asStr := by
  cases status <;> rfl

/-- One story of the roadmap. -/
structure StoryEntry where
  id : Nat
  sentence : String
  status : HeldStatus
  phase : Option Nat
  /-- How many truths its latest refinement left, none when it was declared. -/
  truths : Nat
  deriving DecidableEq

/-- Accepted scope with what readers are shown of it. -/
structure Roadmap where
  description : Value
  /-- Every phase ever declared, ascending by number. -/
  phases : List HeldPhase
  order : List Nat
  /-- The stories in priority order. -/
  stories : List StoryEntry
  highestPhase : Nat
  highestStory : Nat

/-! ## Entries -/

namespace HeldPhase

def toValue (phase : HeldPhase) : Value :=
  .ofEntries
    [("number", .ofNat phase.number), ("name", .string phase.name), ("goal", .string phase.goal),
      ("depends_on", ScopeEvent.numbers phase.dependsOn),
      ("stories", ScopeEvent.numbers phase.stories),
      ("status", .string (if phase.withdrawn then "withdrawn" else "declared"))]

/-- List a story last, unless listed. -/
def serve (id : Nat) (phase : HeldPhase) : HeldPhase :=
  if id ∈ phase.stories then phase else { phase with stories := phase.stories ++ [id] }

/-- Take a story off, if it is listed. -/
def unserve (id : Nat) (phase : HeldPhase) : HeldPhase :=
  { phase with stories := phase.stories.filter fun story => story ≠ id }

def withdraw (phase : HeldPhase) : HeldPhase :=
  { phase with withdrawn := true }

end HeldPhase

namespace StoryEntry

def toValue (story : StoryEntry) : Value :=
  .ofEntries
    [("id", .ofNat story.id), ("sentence", .string story.sentence),
      ("status", .string story.status.asStr), ("phase", ScopeEvent.numberOrNull story.phase),
      ("truths", .ofNat story.truths)]

/-- The story once a phase lists `listed`. -/
def relist (number : Nat) (listed : List Nat) (story : StoryEntry) : StoryEntry :=
  if story.id ∈ listed then { story with phase := some number }
  else if story.phase = some number then { story with phase := none }
  else story

def correct (sentence : String) (status : HeldStatus) (story : StoryEntry) : StoryEntry :=
  { story with sentence, status }

def move (status : HeldStatus) (phase : Option Nat) (story : StoryEntry) : StoryEntry :=
  { story with status, phase }

end StoryEntry

/-! ## Operations -/

namespace Roadmap

def empty : Roadmap := ⟨.null, [], [], [], 0, 0⟩

variable (roadmap : Roadmap)

/-- Change the entry of a phase, where there is one. -/
def modifyPhase (number : Nat) (change : HeldPhase → HeldPhase) : Option Roadmap :=
  (modifyFirst (fun phase => phase.number = number) change roadmap.phases).map fun phases =>
    { roadmap with phases }

/-- Change the entry of a story, where there is one. -/
def modifyStory (id : Nat) (change : StoryEntry → StoryEntry) : Option Roadmap :=
  (modifyFirst (fun story => story.id = id) change roadmap.stories).map fun stories =>
    { roadmap with stories }

/-- Take a story off every phase that lists it. -/
def unserve (id : Nat) : Roadmap :=
  { roadmap with phases := roadmap.phases.map (HeldPhase.unserve id) }

def declareStory (entry : StoryEntry) : Roadmap :=
  let declared : Roadmap :=
    { roadmap with
      stories := putFirst (fun story => story.id = entry.id) (fun _ => entry) roadmap.stories
      highestStory := max roadmap.highestStory entry.id }
  (entry.phase.bind fun number => declared.modifyPhase number (HeldPhase.serve entry.id)).getD
    declared

def declarePhase (entry : HeldPhase) : Roadmap :=
  { roadmap with
    phases := putAscending (fun phase => phase.number < entry.number)
      (fun phase => phase.number = entry.number) entry roadmap.phases
    highestPhase := max roadmap.highestPhase entry.number
    stories := roadmap.stories.map (StoryEntry.relist entry.number entry.stories) }

/-- A phase a story was moved to lists it. -/
def serveMoved (id : Nat) : Option Nat → Option Roadmap
  | some number => roadmap.modifyPhase number (HeldPhase.serve id)
  | none => some roadmap

def reassignStory (id : Nat) (status : HeldStatus) (phase : Option Nat) : Option Roadmap :=
  ((roadmap.unserve id).modifyStory id (StoryEntry.move status phase)).bind fun moved =>
    moved.serveMoved id phase

def reprioritize (order : List Nat) : Option Roadmap :=
  (reprioritized (fun story id => story.id = id) roadmap.stories order).map fun stories =>
    { roadmap with stories }

theorem stories_of_modifyPhase {roadmap after : Roadmap} {number : Nat}
    {change : HeldPhase → HeldPhase} (modified : roadmap.modifyPhase number change = some after) :
    after.stories = roadmap.stories := by
  obtain ⟨phases, -, rfl⟩ := Option.map_eq_some_iff.mp modified
  rfl

theorem stories_declareStory (entry : StoryEntry) : (roadmap.declareStory entry).stories =
    putFirst (fun story => story.id = entry.id) (fun _ => entry) roadmap.stories := by
  unfold declareStory
  simp only
  cases served : entry.phase.bind fun number => modifyPhase _ number (HeldPhase.serve entry.id) with
  | none => rfl
  | some after =>
      obtain ⟨number, -, modified⟩ := Option.bind_eq_some_iff.mp served
      exact stories_of_modifyPhase modified

theorem stories_of_reassignStory {roadmap after : Roadmap} {id : Nat} {status : HeldStatus}
    {phase : Option Nat} (moved : roadmap.reassignStory id status phase = some after) :
    modifyFirst (fun story => story.id = id) (StoryEntry.move status phase) roadmap.stories =
      some after.stories := by
  obtain ⟨middle, middle_eq, served⟩ := Option.bind_eq_some_iff.mp moved
  obtain ⟨stories, stories_eq, rfl⟩ := Option.map_eq_some_iff.mp middle_eq
  change modifyFirst _ _ roadmap.stories = some stories at stories_eq
  rw [stories_eq]
  cases phase with
  | none =>
      obtain rfl := Option.some.inj served
      rfl
  | some number => exact congrArg some (stories_of_modifyPhase served).symm

/-- The description an approval accepted. -/
def describedValue (description : Description) (submission : Hash) : Value :=
  .ofEntries
    [("what", .string description.what), ("core_value", .string description.coreValue),
      ("constraints", texts description.constraints), ("submission", .string submission.toHex)]

/-- What a scope event does to the roadmap; nothing where the projector refuses it. -/
def apply : ScopeEvent → Option Roadmap
  | .projectDescribed description submission =>
      some { roadmap with description := describedValue description submission }
  | .storyDeclared id sentence status phase _ =>
      some (roadmap.declareStory { id, sentence, status := status.held, phase, truths := 0 })
  | .phaseDeclared number name goal _ dependsOn stories _ =>
      some (roadmap.declarePhase { number, name, goal, dependsOn, stories, withdrawn := false })
  | .phaseReordered order _ => some { roadmap with order }
  | .phaseWithdrawn number _ => roadmap.modifyPhase number HeldPhase.withdraw
  | .storyCorrected id sentence status _ =>
      roadmap.modifyStory id (StoryEntry.correct sentence status.held)
  | .storyReassigned id status phase _ => roadmap.reassignStory id status.held phase
  | .storyDropped id _ => roadmap.reassignStory id .dropped none
  | .storyReprioritized order _ => roadmap.reprioritize order
  | .scopeApproved .. => some roadmap

/-- What scope events do to the roadmap, in order. -/
def applyAll (events : List ScopeEvent) : Option Roadmap :=
  events.foldlM apply roadmap

/-- The members of the document. -/
def toMembers : Members :=
  Members.ofEntries
    [("roadmap", .string "project"), ("description", roadmap.description),
      ("phases", .array (roadmap.phases.map HeldPhase.toValue)),
      ("order", ScopeEvent.numbers roadmap.order),
      ("stories", .array (roadmap.stories.map StoryEntry.toValue)),
      ("highest_phase", .ofNat roadmap.highestPhase),
      ("highest_story", .ofNat roadmap.highestStory)]

theorem toMembers_empty : empty.toMembers = RoadmapProjector.empty := rfl

end Roadmap

end Baley.Scope
