import Baley.Scope.Event
import Baley.Scope.Rules

/-!
# What an approval records

Each kind of change appends its own events, and every approval ends with `scope.approved` of its kind.
A declaration is numbered one past the highest number ever declared, so no number is reused.
-/

namespace Baley.Scope

open Json

/-- Why no events are given: a number would pass the largest of 32 bits, or the caller broke what the
judgement promises and the code panics. -/
inductive RecordFailure where
  | numbersExhausted
  | panicked (message : String)
  deriving DecidableEq

/-- The whole numbers after the highest one, as many as are needed. -/
def nextNumbers (highest count : Nat) : Except RecordFailure (List Nat) :=
  (List.range' 1 count).mapM fun step => do
    .require (highest + step ≤ maxU32) .numbersExhausted
    .ok (highest + step)

/-! ## A start -/

/-- The phase that lists a story by its index. -/
def servingPhase (phases : List Phase) (story : Nat) : Option Nat :=
  phases.findIdx? fun phase => story ∈ phase.stories

/-- The events an approved start appends: the description, the stories in submission order, the
phases in roadmap order, their order, and the approval. -/
def startEvents (submission : Submission) (highestPhase highestStory : Nat)
    (details : List PayloadRef) (owner recordedAt : String) :
    Except RecordFailure (List ScopeEvent) := do
  .require (details.length = submission.phases.length) (.panicked "one detail reference per phase")
  let ids ← nextNumbers highestStory submission.stories.length
  let numbers ← nextNumbers highestPhase submission.phases.length
  let declareStory (entry : Story × Nat) : ScopeEvent :=
    .storyDeclared (ids.getD entry.2 0) entry.1.sentence entry.1.status
      ((servingPhase submission.phases entry.2).map fun index => numbers.getD index 0)
      submission.digest
  let declarePhase (entry : (Phase × Nat) × PayloadRef) : ScopeEvent :=
    .phaseDeclared (numbers.getD entry.1.2 0) entry.1.1.name entry.1.1.goal entry.2
      (entry.1.1.dependsOn.map fun position => numbers.getD (position - 1) 0)
      (entry.1.1.stories.map fun story => ids.getD story 0) submission.digest
  .ok <|
    [.projectDescribed submission.description submission.digest] ++
      submission.stories.zipIdx.map declareStory ++
      (submission.phases.zipIdx.zip details).map declarePhase ++
      [.phaseReordered numbers submission.digest,
        .scopeApproved submission.digest startKind owner recordedAt]

/-! ## A change -/

/-- A story's status in accepted scope; none or dropped panics. -/
def heldStatus (scope : AcceptedScope) (id : Nat) : Except RecordFailure StoryStatus :=
  .ofOption (.panicked "an approved story change names a story still served")
    ((scope.story id).bind fun story => story.status.stated)

/-- The detail a declaration or an edit attaches. -/
def attached (detail : Option PayloadRef) : Except RecordFailure PayloadRef :=
  .ofOption (.panicked "a declaration or an edit attaches its detail") detail

/-- What a withdrawal decides for one story of the phase. -/
def decisionEvent (decisions : List Decision) (submission : Hash) (story : Nat) :
    Option ScopeEvent := do
  let decision ← decisions.find? fun decision => decision.story = story
  match decision.destination with
  | .phase number => some (.storyReassigned story .active (some number) submission)
  | .drop => some (.storyDropped story submission)

/-- The events of the change itself, before its approval. -/
def changeRecords (change : ScopeChange) (submission : Hash) (scope : AcceptedScope)
    (detail : Option PayloadRef) : Except RecordFailure (List ScopeEvent) :=
  match change with
  | .phaseDeclare declaration => do
      let numbers ← nextNumbers scope.highestPhase 1
      let number := numbers.getD 0 0
      let detail ← attached detail
      let index :=
        match declaration.position with
        | some position => min (position - 1) scope.order.length
        | none => scope.order.length
      .ok
        [.phaseDeclared number declaration.name declaration.goal detail declaration.dependsOn
            declaration.stories submission,
          .phaseReordered (scope.order.insertIdx index number) submission]
  | .phaseEdit phase fields => do
      let held ← .ofOption (.panicked "an approved edit names a phase the scope holds")
        (scope.phase phase)
      let detail ← attached detail
      .ok
        [.phaseDeclared phase (fields.name.getD held.name) (fields.goal.getD held.goal) detail
          (fields.dependsOn.getD held.dependsOn) (fields.stories.getD held.stories) submission]
  | .phaseReorder order => .ok [.phaseReordered order submission]
  | .phaseWithdraw phase decisions =>
      let stories := ((scope.phase phase).map HeldPhase.stories).getD []
      .ok
        ([.phaseWithdrawn phase submission] ++
          stories.filterMap (decisionEvent decisions submission) ++
          [.phaseReordered (scope.order.filter fun number => number ≠ phase) submission])
  | .storyDeclare sentence status phase => do
      let ids ← nextNumbers scope.highestStory 1
      .ok [.storyDeclared (ids.getD 0 0) sentence status phase submission]
  | .storyEdit story sentence => do
      let status ← heldStatus scope story
      .ok [.storyCorrected story sentence status submission]
  | .storyReassign story phase => do
      -- A story given a phase is promised; one sent to the backlog keeps its status.
      let status ← match phase with
        | some _ => .ok StoryStatus.active
        | none => heldStatus scope story
      .ok [.storyReassigned story status phase submission]
  | .storyDrop story => .ok [.storyDropped story submission]
  | .backlogReorder order => .ok [.storyReprioritized order submission]
  | .projectDescribe description => .ok [.projectDescribed description submission]

/-- The events an approved change appends, given the accepted scope it was judged against and the
detail a declaration or an edit attaches. -/
def changeEvents (change : ChangeSubmission) (scope : AcceptedScope) (detail : Option PayloadRef)
    (owner recordedAt : String) : Except RecordFailure (List ScopeEvent) := do
  let records ← changeRecords change.change change.digest scope detail
  .ok (records ++
    [.scopeApproved change.digest change.change.kind.asStr owner recordedAt])

end Baley.Scope
