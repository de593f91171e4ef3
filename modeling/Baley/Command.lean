import Baley.Anchor
import Baley.Payload
import Baley.View

/-!
# Commands, their decisions and their recorded outcomes
-/

namespace Baley

open Json

/-- The events of one thing that changes over time, with its own version counter. -/
abbrev StreamName := String

/-- The kind of a command; request ids are scoped to a project and a kind. -/
abbrev CommandKind := String

/-- One request from a caller that may record events. -/
structure Command where
  project : ProjectId
  kind : CommandKind
  requestId : RequestId
  /-- The same id with another digest is refused. -/
  digest : Hash
  /-- Exact scope tokens held or checked by this command. -/
  scope : List String
  policyVersion : Nat
  recordedAt : String
  actor : Actor
  caller : Option Caller

/-- An event as a decision appends it; the transaction adds the rest. -/
structure NewEvent where
  stream : StreamName
  typeName : String
  typeVersion : Nat
  git : Option GitFacts
  payload : Value
  /-- Every payload this event references. -/
  attachments : List PayloadRef

/-- A new event in the envelope the transaction gave it. -/
def NewEvent.sealedIn (new : NewEvent) (envelope : Event) : Event :=
  { envelope with
    stream := new.stream, typeName := new.typeName, typeVersion := new.typeVersion, git := new.git
    payload := new.payload }

/-- A match against recorded events: the type, optionally the stream, and top-level payload
fields. -/
structure EventMatch where
  typeName : String
  stream : Option StreamName
  fields : List (String × Value)

/-- Something the caller relied on not existing. -/
inductive Absence where
  | event (matching : EventMatch)
  | documents (view index : String) (equals : List KeyValue)

/-- A view document as the caller saw it during its slow work. -/
structure ObservedDocument where
  view : String
  key : DocKey
  producedSeq : Option Nat

/-- The cheap git facts of one checkout, as seen and as they are now. -/
structure GitObservation where
  checkout : String
  headSeen : String
  headNow : String
  indexSeen : String
  indexNow : String

/-- Every input the caller's slow work depended on. -/
structure Observed where
  documents : List ObservedDocument
  absences : List Absence
  git : List GitObservation

/-- Nothing observed. -/
def Observed.none : Observed := ⟨[], [], []⟩

/-- Whether the command did what it was asked or refused on the merits. -/
inductive OutcomeKind where
  | done
  | refused
  deriving DecidableEq, Repr

/-- What a decision returns. -/
structure Decision where
  kind : OutcomeKind
  answer : Value
  answer_wellFormed : answer.WellFormed
  /-- Sensitive answers are stored as a payload at any size. -/
  sensitive : Bool
  observed : Observed
  git : Option GitFacts

/-- An answer: inline, stored as a payload, or the state of a payload that is gone. -/
inductive Answer where
  | inline (value : Value)
  | stored (reference : PayloadRef)
  /-- Only in a replayed outcome, after the answer's own reference was released. -/
  | tombstone (reference : PayloadRef) (status : PayloadStatus)

/-- A recorded outcome. -/
structure Outcome where
  kind : OutcomeKind
  answer : Answer

/-- What a command did: its decision ran and committed, or its request was answered before. -/
inductive Recorded where
  | new (outcome : Outcome) (head : Head)
  | replayed (outcome : Outcome)

/-- The stream a command kind's own events go to. -/
def commandStream (kind : CommandKind) : StreamName :=
  "command/" ++ kind

/-- Whether the store, not a decision, records events of this type. -/
def storeOwned (typeName : String) : Bool :=
  "command.".toList.isPrefixOf typeName.toList || "payload.".toList.isPrefixOf typeName.toList

/-- The `request` document key of a command. -/
def requestKey (command : Command) : DocKey :=
  [.text command.kind, .text command.requestId]

end Baley
