import Baley.Command
import Baley.Scope.Change

/-!
# Scope events

The events an approval records, with their streams and payloads.  No payload holds a caller or a time
of its own, except an approval's owner and time.
-/

namespace Baley.Scope

open Json

def projectStream : StreamName := "project"
def roadmapStream : StreamName := "roadmap"

def projectDescribed : String := "project.described"
def scopeApproved : String := "scope.approved"
def storyDeclared : String := "story.declared"
def phaseDeclared : String := "phase.declared"
def phaseReordered : String := "phase.reordered"
def phaseWithdrawn : String := "phase.withdrawn"
def storyCorrected : String := "story.corrected"
def storyReassigned : String := "story.reassigned"
def storyDropped : String := "story.dropped"
def storyReprioritized : String := "story.reprioritized"
def storyRefined : String := "story.refined"

/-- The change kind of a submission that starts a project. -/
def startKind : String := "start"

/-- One event of a scope approval, with what its payload holds. -/
inductive ScopeEvent where
  | projectDescribed (description : Description) (submission : Hash)
  | storyDeclared (id : Nat) (sentence : String) (status : StoryStatus) (phase : Option Nat)
      (submission : Hash)
  /-- Dependencies and stories are phase numbers and story ids, never labels. -/
  | phaseDeclared (number : Nat) (name goal : String) (detail : PayloadRef)
      (dependsOn stories : List Nat) (submission : Hash)
  | phaseReordered (order : List Nat) (submission : Hash)
  | phaseWithdrawn (number : Nat) (submission : Hash)
  | storyCorrected (id : Nat) (sentence : String) (status : StoryStatus) (submission : Hash)
  | storyReassigned (id : Nat) (status : StoryStatus) (phase : Option Nat) (submission : Hash)
  | storyDropped (id : Nat) (submission : Hash)
  | storyReprioritized (order : List Nat) (submission : Hash)
  | scopeApproved (submission : Hash) (kind owner recordedAt : String)

namespace ScopeEvent

def typeName : ScopeEvent → String
  | projectDescribed .. => Scope.projectDescribed
  | storyDeclared .. => Scope.storyDeclared
  | phaseDeclared .. => Scope.phaseDeclared
  | phaseReordered .. => Scope.phaseReordered
  | phaseWithdrawn .. => Scope.phaseWithdrawn
  | storyCorrected .. => Scope.storyCorrected
  | storyReassigned .. => Scope.storyReassigned
  | storyDropped .. => Scope.storyDropped
  | storyReprioritized .. => Scope.storyReprioritized
  | scopeApproved .. => Scope.scopeApproved

def stream : ScopeEvent → StreamName
  | projectDescribed .. | scopeApproved .. => projectStream
  | _ => roadmapStream

/-- A list of numbers as a payload holds it. -/
def numbers (list : List Nat) : Value :=
  .array (list.map Value.ofNat)

/-- A number, or null for none. -/
def numberOrNull : Option Nat → Value
  | some number => .ofNat number
  | none => .null

def payload : ScopeEvent → Value
  | projectDescribed description submission =>
      .ofEntries
        [("what", .string description.what), ("core_value", .string description.coreValue),
          ("constraints", texts description.constraints), ("submission", .string submission.toHex)]
  | storyDeclared id sentence status phase submission =>
      .ofEntries
        [("id", .ofNat id), ("sentence", .string sentence), ("status", .string status.asStr),
          ("phase", numberOrNull phase), ("submission", .string submission.toHex)]
  | phaseDeclared number name goal detail dependsOn stories submission =>
      .ofEntries
        [("number", .ofNat number), ("name", .string name), ("goal", .string goal),
          ("detail", detail.toValue), ("depends_on", numbers dependsOn),
          ("stories", numbers stories), ("submission", .string submission.toHex)]
  | phaseReordered order submission =>
      .ofEntries [("order", numbers order), ("submission", .string submission.toHex)]
  | phaseWithdrawn number submission =>
      .ofEntries [("number", .ofNat number), ("submission", .string submission.toHex)]
  | storyCorrected id sentence status submission =>
      .ofEntries
        [("id", .ofNat id), ("sentence", .string sentence), ("status", .string status.asStr),
          ("submission", .string submission.toHex)]
  | storyReassigned id status phase submission =>
      .ofEntries
        [("id", .ofNat id), ("status", .string status.asStr), ("phase", numberOrNull phase),
          ("submission", .string submission.toHex)]
  | storyDropped id submission =>
      .ofEntries
        [("id", .ofNat id), ("status", .string "dropped"),
          ("submission", .string submission.toHex)]
  | storyReprioritized order submission =>
      .ofEntries [("order", numbers order), ("submission", .string submission.toHex)]
  | scopeApproved submission kind owner recordedAt =>
      .ofEntries
        [("submission", .string submission.toHex), ("kind", .string kind),
          ("owner", .string owner), ("at", .string recordedAt)]

/-- A declaration attaches its detail. -/
def attachments : ScopeEvent → List PayloadRef
  | phaseDeclared _ _ _ detail .. => [detail]
  | _ => []

/-- The event as the approval appends it; every scope type is at version 1. -/
def new (event : ScopeEvent) : NewEvent where
  stream := event.stream
  typeName := event.typeName
  typeVersion := 1
  git := none
  payload := event.payload
  attachments := event.attachments

/-- The recorded event of a scope event, in any envelope. -/
def RecordedAs (scopeEvent : ScopeEvent) (event : Event) : Prop :=
  event.typeName = scopeEvent.typeName ∧ event.payload = scopeEvent.payload

theorem recordedAs_sealedIn (scopeEvent : ScopeEvent) (envelope : Event) :
    scopeEvent.RecordedAs (scopeEvent.new.sealedIn envelope) :=
  ⟨rfl, rfl⟩

end ScopeEvent

end Baley.Scope
