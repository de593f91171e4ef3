import Baley.Questions.View
import Baley.Scope.RoadmapView

/-!
# The `backlog` view

One document per project listing its stories in priority order, each with its latest question set,
what its refinement left and the plans in force that serve it.
-/

namespace Baley.Scope

open Json

def backlogView : String := "backlog"

def planApproved : String := "plan.approved"
def planReplaced : String := "plan.replaced"

def backlogSpec : ViewSpec where
  name := backlogView
  version := 4
  key := [⟨"backlog", .text⟩]
  indexes := []
  pageBound := 1

/-- The key of the project's backlog document. -/
def backlogKey : DocKey := [.text "project"]

namespace BacklogProjector

/-- A story's plans in force. -/
def plans (story : Value) : Option (List Value) :=
  (story.get? "plans").bind Value.asArray

/-- The sizes of the plans summed, none where one is unreadable or the sum passes 64 bits. -/
def total : List Value → Nat → Option Nat
  | [], sum => some sum
  | plan :: rest, sum => do
      let size ← (plan.get? "size").bind Value.asU64
      if sum + size < 2 ^ 64 then total rest (sum + size) else none

/-- A story with its size set to its plans' sizes summed, null when it has none. -/
def settle (story : Value) : Option Value := do
  let plans ← plans story
  if plans = [] then some (story.set "size" .null)
  else
    let total ← total plans 0
    some (story.set "size" (.ofNat total))

/-- A declared entry, with the plans and size of the one it replaces. -/
def keepPlans (entry : Value) : Option Value → Value
  | some held =>
      (entry.set "plans" ((held.get? "plans").getD .null)).set "size"
        ((held.get? "size").getD .null)
  | none => entry

/-- Whether a story's id is among the listed ones. -/
def listedBy (listed : List Nat) (story : Value) : Bool :=
  ((story.get? "id").bind Value.asU64).any listed.contains

variable (event : Event)

def text (name : String) : Except String String :=
  Scope.require event (textOf event.payload name)

def whole (name : String) : Except String Nat :=
  Scope.require event ((event.payload.get? name).bind Value.asU64)

def wholes (name : String) : Except String (List Nat) :=
  Scope.require event (((event.payload.get? name).bind Value.asArray).bind (·.mapM Value.asU64))

/-- The payload's phase: a number, or null for the backlog. -/
def phase : Except String (Option Nat) :=
  Scope.require event ((event.payload.get? "phase").bind fun phase =>
    match phase with
    | .null => some none
    | phase => phase.asU64.map some)

def modifyStory (stories : List Value) (id : Nat) (change : Value → Value) :
    Except String (List Value) :=
  requireStory event (modifyFirst (fun story => holds story "id" id) change stories)

variable (stories : List Value)

def storyDeclared : Except String (List Value) := do
  let id ← whole event "id"
  let sentence ← text event "sentence"
  let status ← text event "status"
  let phase ← phase event
  .ok (putFirst (fun story => holds story "id" id) (keepPlans (.ofEntries
    [("id", .ofNat id), ("sentence", .string sentence), ("status", .string status),
      ("phase", ScopeEvent.numberOrNull phase), ("set", .null), ("refined", .null),
      ("truths", .ofNat 0), ("plans", .array []), ("size", .null)])) stories)

def phaseDeclared : Except String (List Value) := do
  let number ← whole event "number"
  let listed ← wholes event "stories"
  .ok (stories.map (RoadmapProjector.relist number listed))

def storyCorrected : Except String (List Value) := do
  let sentence ← text event "sentence"
  let status ← text event "status"
  let id ← whole event "id"
  modifyStory event stories id fun story =>
    (story.set "sentence" (.string sentence)).set "status" (.string status)

def storyReassigned : Except String (List Value) := do
  let status ← text event "status"
  let phase ← phase event
  let id ← whole event "id"
  modifyStory event stories id fun story =>
    (story.set "status" (.string status)).set "phase" (ScopeEvent.numberOrNull phase)

def storyDropped : Except String (List Value) := do
  let status ← text event "status"
  let id ← whole event "id"
  modifyStory event stories id fun story =>
    (story.set "status" (.string status)).set "phase" .null

def storyReprioritized : Except String (List Value) := do
  let order ← wholes event "order"
  requireStory event (reprioritized (fun story id => holds story "id" id) stories order)

def questionsOpened : Except String (List Value) := do
  let set ← text event "set"
  let id ← whole event "story"
  modifyStory event stories id fun story => story.set "set" (.string set)

def storyRefined : Except String (List Value) := do
  let set ← text event "set"
  let truths ← Scope.require event ((event.payload.get? "truths").bind Value.asArray)
  let id ← whole event "story"
  modifyStory event stories id fun story =>
    (story.set "refined" (.string set)).set "truths" (.ofNat truths.length)

/-- A story with one more plan that serves it. -/
def serveStory (listed : List Nat) (served story : Value) : Except String Value :=
  if listedBy listed story then do
    let held ← Scope.require event (plans story)
    .ofOption (refuse event "the story's size would exceed a u64")
      (settle (story.set "plans" (.array (held ++ [served]))))
  else .ok story

def planApproved : Except String (List Value) := do
  let number ← whole event "phase"
  let plan ← whole event "plan"
  let size ← whole event "size"
  let listed ← wholes event "stories"
  .require (∀ id ∈ listed, stories.any fun story => holds story "id" id)
    (refuse event "the story is not declared")
  stories.mapM (serveStory event listed (.ofEntries
    [("phase", .ofNat number), ("plan", .ofNat plan), ("size", .ofNat size)]))

/-- A story without one plan; its size is settled again where that took something off. -/
def unserveStory (number plan : Nat) (story : Value) : Except String Value := do
  let held ← Scope.require event (plans story)
  let kept := held.filter fun served => !(holds served "phase" number && holds served "plan" plan)
  if kept.length = held.length then .ok story
  else Scope.require event (settle (story.set "plans" (.array kept)))

def planReplaced : Except String (List Value) := do
  let number ← whole event "phase"
  let plan ← whole event "plan"
  stories.mapM (unserveStory event number plan)

/-- What an event of the view does to the stories. -/
def change : Except String (List Value) :=
  if event.typeName = Scope.storyDeclared then storyDeclared event stories
  else if event.typeName = Scope.phaseDeclared then phaseDeclared event stories
  else if event.typeName = Scope.storyCorrected then storyCorrected event stories
  else if event.typeName = Scope.storyReassigned then storyReassigned event stories
  else if event.typeName = Scope.storyDropped then storyDropped event stories
  else if event.typeName = Scope.storyReprioritized then storyReprioritized event stories
  else if event.typeName = Baley.questionsOpened then questionsOpened event stories
  else if event.typeName = Scope.storyRefined then storyRefined event stories
  else if event.typeName = Scope.planApproved then planApproved event stories
  else if event.typeName = Scope.planReplaced then planReplaced event stories
  else .error (refuse event "not a backlog event")

/-- The stories of the document given, or none. -/
def given (documents : List (DocKey × Value)) : Except String (List Value) :=
  match documents with
  | (_, document) :: _ =>
      .ofOption (refuse event "the backlog document holds no story list")
        ((document.get? "stories").bind Value.asArray)
  | [] => .ok []

/-- Whether the event opens a set that is not a story's; it changes nothing. -/
def passesBy : Except String Bool :=
  if event.typeName = Baley.questionsOpened then
    (text event "subject").map fun subject => subject ≠ "story"
  else .ok false

/-- The document of the stories. -/
def document (stories : List Value) : Value :=
  .ofEntries [("backlog", .string "project"), ("stories", .array stories)]

def apply (documents : List (DocKey × Value)) : Except String (List Change) := do
  if ← passesBy event then .ok []
  else
    let stories ← given event documents
    let stories ← change event stories
    .ok [.put backlogKey (document stories)]

end BacklogProjector

/-- Keeps the `backlog` view current. -/
def backlogProjector : Projector where
  spec := backlogSpec
  handles :=
    [storyDeclared, phaseDeclared, storyCorrected, storyReassigned, storyDropped,
      storyReprioritized, questionsOpened, storyRefined, planApproved, planReplaced]
  keys := fun _ => [backlogKey]
  apply := BacklogProjector.apply

end Baley.Scope
