import Baley.Members
import Baley.Scope.Entries
import Baley.Scope.Event
import Baley.View

/-!
# The `roadmap` view

One document per project holding its accepted scope.  A phase's stories are those it serves now and a
story's phase the one serving it, kept in step by every event that moves a story.
-/

namespace Baley.Scope

open Json

def roadmapView : String := "roadmap"

def roadmapSpec : ViewSpec where
  name := roadmapView
  version := 3
  key := [⟨"roadmap", .text⟩]
  indexes := []
  pageBound := 1

/-- The key of the project's roadmap document. -/
def roadmapKey : DocKey := [.text "project"]

/-! ## Reading and changing members -/

/-- What a projector says of an event it refuses. -/
def refuse (event : Event) (message : String) : String :=
  event.typeName ++ " at seq " ++ event.seq.repr ++ ": " ++ message

/-- A member the event must hold. -/
def require {α : Type} (event : Event) (member : Option α) : Except String α :=
  .ofOption (refuse event "a member is missing or of the wrong type") member

/-- A story the view must hold. -/
def requireStory {α : Type} (event : Event) (found : Option α) : Except String α :=
  .ofOption (refuse event "the story is not declared") found

@[simp]
theorem require_some {α : Type} (event : Event) (member : α) : require event (some member) = .ok member :=
  rfl

@[simp]
theorem requireStory_some {α : Type} (event : Event) (found : α) :
    requireStory event (some found) = .ok found :=
  rfl

def text (payload : Members) (name : String) : Option String :=
  (Members.lookup name payload).bind Value.asStr

def whole (payload : Members) (name : String) : Option Nat :=
  (Members.lookup name payload).bind Value.asU64

def wholes (payload : Members) (name : String) : Option (List Nat) := do
  let entries ← (Members.lookup name payload).bind Value.asArray
  entries.mapM Value.asU64

/-- The payload's phase: a number, or null for the backlog. -/
def phaseOrNull (payload : Members) : Option (Option Nat) :=
  match Members.lookup "phase" payload with
  | some .null => some none
  | _ => (whole payload "phase").map some

/-- The document's list of that name. -/
def entries (document : Members) (name : String) : Option (List Value) :=
  (Members.lookup name document).bind Value.asArray

/-- Whether a member of an entry is the number. -/
def holds (entry : Value) (name : String) (number : Nat) : Bool :=
  (entry.get? name).bind Value.asU64 = some number

namespace RoadmapProjector

/-- Whether the number of a phase entry is below another. -/
def isBelow (number : Nat) (phase : Value) : Bool :=
  ((phase.get? "number").bind Value.asU64).any fun held => held < number

/-- Raise a number of the document, never lowering it. -/
def raise (document : Members) (name : String) (value : Nat) : Members :=
  document.insert name (.ofNat (max ((whole document name).getD 0) value))

/-- Change the entry of a phase, where there is one. -/
def modifyPhase (document : Members) (number : Nat) (change : Value → Value) : Option Members := do
  let phases ← entries document "phases"
  let phases ← modifyFirst (fun phase => holds phase "number" number) change phases
  some (document.insert "phases" (.array phases))

/-- Change the entry of a story, where there is one. -/
def modifyStory (document : Members) (id : Nat) (change : Value → Value) : Option Members := do
  let stories ← entries document "stories"
  let stories ← modifyFirst (fun story => holds story "id" id) change stories
  some (document.insert "stories" (.array stories))

/-- List a story last among the phase entry's stories, unless listed. -/
def serve (id : Nat) (phase : Value) : Value :=
  match (phase.get? "stories").bind Value.asArray with
  | some stories =>
      if stories.any fun story => story.asU64 = some id then phase
      else phase.set "stories" (.array (stories ++ [.ofNat id]))
  | none => phase

/-- Take a story off the phase entry, if it lists it. -/
def unserveEntry (id : Nat) (phase : Value) : Value :=
  match (phase.get? "stories").bind Value.asArray with
  | some stories =>
      phase.set "stories" (.array (stories.filter fun story => story.asU64 ≠ some id))
  | none => phase

/-- Take a story off every phase entry that lists it. -/
def unserve (document : Members) (id : Nat) : Members :=
  match entries document "phases" with
  | some phases => document.insert "phases" (.array (phases.map (unserveEntry id)))
  | none => document

/-- The phase a story entry names once a phase lists `listed`. -/
def relist (number : Nat) (listed : List Nat) (story : Value) : Value :=
  if ((story.get? "id").bind Value.asU64).any listed.contains then
    story.set "phase" (.ofNat number)
  else if holds story "phase" number then story.set "phase" .null
  else story

/-! ## The events -/

variable (event : Event) (payload document : Members)

def projectDescribed : Except String Members := do
  let what ← require event (text payload "what")
  let coreValue ← require event (text payload "core_value")
  let constraints ← require event ((Members.lookup "constraints" payload).bind asTexts)
  let submission ← require event (text payload "submission")
  .ok (document.insert "description" (.ofEntries
    [("what", .string what), ("core_value", .string coreValue), ("constraints", texts constraints),
      ("submission", .string submission)]))

def storyDeclared : Except String Members := do
  let id ← require event (whole payload "id")
  let phase ← require event (phaseOrNull payload)
  let sentence ← require event (text payload "sentence")
  let status ← require event (text payload "status")
  let entry := Value.ofEntries
    [("id", .ofNat id), ("sentence", .string sentence), ("status", .string status),
      ("phase", ScopeEvent.numberOrNull phase), ("truths", .ofNat 0)]
  let stories ← require event (entries document "stories")
  let document := raise (document.insert "stories"
    (.array (putFirst (fun story => holds story "id" id) (fun _ => entry) stories)))
    "highest_story" id
  -- At a start the phase is declared after its stories and lists them itself.
  .ok ((phase.bind fun number => modifyPhase document number (serve id)).getD document)

def phaseDeclared : Except String Members := do
  let number ← require event (whole payload "number")
  let listed ← require event (wholes payload "stories")
  let name ← require event (text payload "name")
  let goal ← require event (text payload "goal")
  let dependsOn ← require event (wholes payload "depends_on")
  let entry := Value.ofEntries
    [("number", .ofNat number), ("name", .string name), ("goal", .string goal),
      ("depends_on", ScopeEvent.numbers dependsOn), ("stories", ScopeEvent.numbers listed),
      ("status", .string "declared")]
  let phases ← require event (entries document "phases")
  let document := raise (document.insert "phases"
    (.array (putAscending (isBelow number) (fun phase => holds phase "number" number) entry
      phases))) "highest_phase" number
  -- An edit that leaves a story out returns it to the backlog.
  let stories ← require event (entries document "stories")
  .ok (document.insert "stories" (.array (stories.map (relist number listed))))

def phaseReordered : Except String Members := do
  let order ← require event (wholes payload "order")
  .ok (document.insert "order" (ScopeEvent.numbers order))

def phaseWithdrawn : Except String Members := do
  let number ← require event (whole payload "number")
  .ofOption (refuse event "the phase is not declared")
    (modifyPhase document number fun phase => phase.set "status" (.string "withdrawn"))

def storyCorrected : Except String Members := do
  let id ← require event (whole payload "id")
  let sentence ← require event (text payload "sentence")
  let status ← require event (text payload "status")
  requireStory event (modifyStory document id fun story =>
    (story.set "sentence" (.string sentence)).set "status" (.string status))

def storyReassigned : Except String Members := do
  let id ← require event (whole payload "id")
  let status ← require event (text payload "status")
  let phase ← require event (phaseOrNull payload)
  let document ← requireStory event (modifyStory (unserve document id) id fun story =>
    (story.set "status" (.string status)).set "phase" (ScopeEvent.numberOrNull phase))
  match phase with
  | some number =>
      .ofOption (refuse event "the story's new phase is not declared")
        (modifyPhase document number (serve id))
  | none => .ok document

def storyDropped : Except String Members := do
  let id ← require event (whole payload "id")
  let status ← require event (text payload "status")
  requireStory event (modifyStory (unserve document id) id fun story =>
    (story.set "status" (.string status)).set "phase" .null)

def storyReprioritized : Except String Members := do
  let order ← require event (wholes payload "order")
  let stories ← require event (entries document "stories")
  let stories ← requireStory event
    (reprioritized (fun story id => holds story "id" id) stories order)
  .ok (document.insert "stories" (.array stories))

def storyRefined : Except String Members := do
  let id ← require event (whole payload "story")
  let truths ← require event ((Members.lookup "truths" payload).bind Value.asArray)
  requireStory event
    (modifyStory document id fun story => story.set "truths" (.ofNat truths.length))

/-- The document of a project with no accepted scope yet. -/
def empty : Members :=
  Members.ofEntries
    [("roadmap", .string "project"), ("description", .null), ("phases", .array []),
      ("order", .array []), ("stories", .array []), ("highest_phase", .ofNat 0),
      ("highest_story", .ofNat 0)]

/-- What an event of the view does to the document. -/
def change : Except String Members :=
  if event.typeName = Scope.projectDescribed then projectDescribed event payload document
  else if event.typeName = Scope.storyDeclared then storyDeclared event payload document
  else if event.typeName = Scope.phaseDeclared then phaseDeclared event payload document
  else if event.typeName = Scope.phaseReordered then phaseReordered event payload document
  else if event.typeName = Scope.phaseWithdrawn then phaseWithdrawn event payload document
  else if event.typeName = Scope.storyCorrected then storyCorrected event payload document
  else if event.typeName = Scope.storyReassigned then storyReassigned event payload document
  else if event.typeName = Scope.storyDropped then storyDropped event payload document
  else if event.typeName = Scope.storyReprioritized then storyReprioritized event payload document
  else if event.typeName = Scope.storyRefined then storyRefined event payload document
  else .error (refuse event "not a roadmap event")

/-- The document given, or that of an empty scope. -/
def given (documents : List (DocKey × Value)) : Except String Members :=
  match documents with
  | (_, .object document) :: _ => .ok document
  | _ :: _ => .error (refuse event "the roadmap document is not an object")
  | [] => .ok empty

def apply (documents : List (DocKey × Value)) : Except String (List Change) := do
  let payload ← .ofOption (refuse event "the payload is not an object") event.payload.asObject
  let document ← given event documents
  let document ← change event payload document
  .ok [.put roadmapKey (.object document)]

end RoadmapProjector

/-- Keeps the `roadmap` view current from the events an approval records. -/
def roadmapProjector : Projector where
  spec := roadmapSpec
  handles :=
    [projectDescribed, storyDeclared, phaseDeclared, phaseReordered, phaseWithdrawn, storyCorrected,
      storyReassigned, storyDropped, storyReprioritized, storyRefined]
  keys := fun _ => [roadmapKey]
  apply := RoadmapProjector.apply

end Baley.Scope
