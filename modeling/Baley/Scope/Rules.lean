import Mathlib.Data.Finset.Sort
import Baley.Graph.Reach
import Baley.Scope.Change
import Baley.Table

/-!
# The judgement of a scope change

A change whose shape was accepted is judged against the scope the `roadmap` document holds and the
facts of each phase's progress.  Each kind's rules run in a fixed order.
-/

namespace Baley.Scope

open Json

/-! ## Accepted scope -/

/-- What has happened in one phase; a phase with no entry has neither execution nor completion. -/
structure PhaseProgress where
  /-- The undo the phase's execution needs, present only when execution is. -/
  undo : Option String
  complete : Bool
  deriving DecidableEq

def PhaseProgress.none : PhaseProgress := ⟨.none, false⟩

/-- A story's status in accepted scope: one a submission states, or dropped. -/
inductive HeldStatus where
  | active
  | deferred
  | excluded
  | dropped
  deriving DecidableEq

namespace HeldStatus

def parse : String → Option HeldStatus
  | "active" => some active
  | "deferred" => some deferred
  | "excluded" => some excluded
  | "dropped" => some dropped
  | _ => none

/-- The status as a submission states it, or none for dropped. -/
def stated : HeldStatus → Option StoryStatus
  | active => some .active
  | deferred => some .deferred
  | excluded => some .excluded
  | dropped => none

def asStr : HeldStatus → String
  | active => "active"
  | deferred => "deferred"
  | excluded => "excluded"
  | dropped => "dropped"

end HeldStatus

structure HeldPhase where
  number : Nat
  name : String
  goal : String
  dependsOn : List Nat
  stories : List Nat
  withdrawn : Bool
  deriving DecidableEq

structure HeldStory where
  id : Nat
  status : HeldStatus
  phase : Option Nat
  deriving DecidableEq

/-- Accepted scope as the `roadmap` document holds it. -/
structure AcceptedScope where
  /-- Every phase ever declared, withdrawn ones included. -/
  phases : List HeldPhase
  order : List Nat
  /-- The stories in priority order. -/
  stories : List HeldStory
  /-- The highest phase number and story id ever declared. -/
  highestPhase : Nat
  highestStory : Nat
  deriving DecidableEq

namespace AcceptedScope

def empty : AcceptedScope := ⟨[], [], [], 0, 0⟩

def readWhole (value : Option Value) : Option Nat :=
  value.bind asU32

def readWholes (value : Option Value) : Option (List Nat) := do
  let entries ← value.bind Value.asArray
  entries.mapM asU32

def readPhase (phase : Value) : Option HeldPhase := do
  let phase ← phase.asObject
  let number ← readWhole (Members.lookup "number" phase)
  let name ← (Members.lookup "name" phase).bind Value.asStr
  let goal ← (Members.lookup "goal" phase).bind Value.asStr
  let dependsOn ← readWholes (Members.lookup "depends_on" phase)
  let stories ← readWholes (Members.lookup "stories" phase)
  let status ← (Members.lookup "status" phase).bind Value.asStr
  if status = "declared" then
    some { number, name, goal, dependsOn, stories, withdrawn := false }
  else if status = "withdrawn" then
    some { number, name, goal, dependsOn, stories, withdrawn := true }
  else none

/-- A phase number, or null for none. -/
def readPhaseOrNull : Value → Option (Option Nat)
  | .null => some none
  | value => (asU32 value).map some

def readStory (story : Value) : Option HeldStory := do
  let story ← story.asObject
  let id ← readWhole (Members.lookup "id" story)
  let status ← ((Members.lookup "status" story).bind Value.asStr).bind HeldStatus.parse
  let phase ← (Members.lookup "phase" story).bind readPhaseOrNull
  some { id, status, phase }

/-- Accepted scope from the `roadmap` document's body, empty with no document yet. -/
def read : Option Value → Option AcceptedScope
  | none => some empty
  | some document => do
      let document ← document.asObject
      let phases ← ((Members.lookup "phases" document).bind Value.asArray).bind (·.mapM readPhase)
      let stories ← ((Members.lookup "stories" document).bind Value.asArray).bind
        (·.mapM readStory)
      let order ← readWholes (Members.lookup "order" document)
      let highestPhase ← readWhole (Members.lookup "highest_phase" document)
      let highestStory ← readWhole (Members.lookup "highest_story" document)
      some { phases, order, stories, highestPhase, highestStory }

variable (scope : AcceptedScope)

/-- The phase of a number, withdrawn or not. -/
def phase (number : Nat) : Option HeldPhase :=
  scope.phases.find? fun phase => phase.number = number

/-- The phase of a number when it is not withdrawn, since no change names a withdrawn one. -/
def declared (number : Nat) : Option HeldPhase :=
  (scope.phase number).filter fun phase => phase.withdrawn = false

def declaredPhases : List HeldPhase :=
  scope.phases.filter fun phase => phase.withdrawn = false

def story (id : Nat) : Option HeldStory :=
  scope.stories.find? fun story => story.id = id

end AcceptedScope

/-! ## Refusals -/

/-- Why a change is refused against accepted scope. -/
inductive ScopeRefusal where
  | projectNotStarted
  | noSuchPhase (phase : Nat)
  | noSuchStory (story : Nat)
  | malformed («section» field : String)
  | storyDoubleAssigned (story phase : Nat)
  | dependencyCycle (phases : List Nat)
  | dependencyOrder (phase dependsOn : Nat)
  | orderIncomplete (order : List Nat)
  | storyUndecided (story : Nat)
  | phaseHasDependents (phases : List Nat)
  | storyNotServed (story : Nat) (status : String)
  | executionPresent (phase : Nat) (undo : String)
  | phaseComplete (phase : Nat)
  | storyShipped (story phase : Nat)
  deriving DecidableEq

abbrev ScopeJudged := Except ScopeRefusal Unit

/-- Refuse what a search found. -/
def refuseFound {α : Type} (found : Option α) (refusal : α → ScopeRefusal) : ScopeJudged :=
  match found with
  | some bad => .error (refusal bad)
  | none => .ok ()

variable (scope : AcceptedScope)

/-! ## The order -/

/-- Where a number stands in an order. -/
def place (order : List Nat) (number : Nat) : Option Nat :=
  order.findIdx? fun held => held = number

/-- Whether a number stands in an order after a place. -/
def placedPast (order : List Nat) (bound number : Nat) : Bool :=
  match place order number with
  | some found => bound < found
  | none => false

/-- Refuse the first dependency the order places after the phase. -/
def placedAfter (order : List Nat) (phase : Nat) (dependsOn : List Nat) : ScopeJudged :=
  match place order phase with
  | none => .ok ()
  | some found => refuseFound (dependsOn.find? (placedPast order found)) (.dependencyOrder phase)

/-- A full phase order: every number a declared phase, every declared phase once, and no phase before
one it depends on. -/
def judgeReorder (order : List Nat) : ScopeJudged := do
  refuseFound (order.find? fun phase => (scope.declared phase).isNone) .noSuchPhase
  let declared := (scope.declaredPhases.map HeldPhase.number).toFinset
  .require (order.toFinset.card = order.length ∧ order.length = declared.card)
    (.orderIncomplete (declared.sort (· ≤ ·)))
  order.forM fun phase =>
    match scope.declared phase with
    | some held => placedAfter order phase held.dependsOn
    | none => .ok ()

/-- A full backlog order: every id a story, and every active and deferred story exactly once with no
other. -/
def judgeBacklogOrder (order : List Nat) : ScopeJudged := do
  refuseFound (order.find? fun story => (scope.story story).isNone) .noSuchStory
  let ordered := ((scope.stories.filter fun story =>
    story.status = .active || story.status = .deferred).map HeldStory.id).toFinset
  .require (order.toFinset = ordered ∧ order.length = ordered.card)
    (.orderIncomplete (ordered.sort (· ≤ ·)))

/-! ## Cycles -/

/-- What each declared phase depends on once `edited` depends on `dependsOn`. -/
def dependencies (edited : Nat) (dependsOn : List Nat) : Table Nat (List Nat) :=
  (scope.declaredPhases.foldl (fun edges phase => edges.insert phase.number phase.dependsOn)
    (∅ : Table Nat (List Nat))).insert edited dependsOn

def nextOf (edges : Table Nat (List Nat)) (phase : Nat) : List Nat :=
  (edges.lookup phase).getD []

/-- The edges the other way round. -/
def previousOf (edges : Table Nat (List Nat)) (phase : Nat) : List Nat :=
  edges.rows.flatMap fun (dependent, dependsOn) =>
    (dependsOn.filter fun dependency => dependency = phase).map fun _ => dependent

/-- Every declared phase on a dependency cycle once `edited` depends on `dependsOn`, ascending: those
the edited phase reaches that also reach it. -/
def onCycleWith (edited : Nat) (dependsOn : List Nat) : List Nat :=
  let edges := dependencies scope edited dependsOn
  let reached := Graph.reach edges.keys.toFinset (nextOf edges) edited
  let reaching := Graph.reach (edges.rows.flatMap Prod.snd).toFinset (previousOf edges) edited
  (reached ∩ reaching).sort (· ≤ ·)

/-! ## Members -/

/-- The declared phase other than the edited one that lists a story. -/
def servedElsewhere (edited : Option Nat) (story : Nat) : Option HeldPhase :=
  scope.declaredPhases.find? fun phase => some phase.number ≠ edited ∧ story ∈ phase.stories

/-- The dependencies and stories a declaration or an edit gives: each dependency a declared phase,
each story one that exists, is active and no other declared phase serves. -/
def judgeMembers (dependsOn stories : List Nat) (edited : Option Nat) : ScopeJudged := do
  refuseFound (dependsOn.find? fun phase => (scope.declared phase).isNone) .noSuchPhase
  refuseFound (stories.find? fun story => (scope.story story).isNone) .noSuchStory
  -- Only an active story is promised, so only one may be served, as at the start.
  refuseFound (stories.findIdx? fun story =>
      (scope.story story).any fun held => held.status ≠ .active)
    fun index => .malformed "stories" (entryPath "stories" index)
  stories.forM fun story =>
    refuseFound (servedElsewhere scope edited story) fun other =>
      .storyDoubleAssigned story other.number

/-- The 0-based place a declaration's position names, last when absent. -/
def declarationPlace (declaration : PhaseDeclaration) : Except ScopeRefusal Nat :=
  match declaration.position with
  | none => .ok scope.order.length
  | some position => do
      .require (position ≤ scope.order.length + 1) (.malformed "position" "position")
      .ok (position - 1)

/-- A new phase's dependencies and stories, then its position, then whether that position comes after
every phase it depends on. -/
def judgeDeclaration (declaration : PhaseDeclaration) : ScopeJudged := do
  judgeMembers scope declaration.dependsOn declaration.stories none
  let index ← declarationPlace scope declaration
  -- With no number left the approval fails for want of one, so there is no phase to name.
  if maxU32 < scope.highestPhase + 1 then .ok ()
  else
    let number := scope.highestPhase + 1
    placedAfter (scope.order.insertIdx index number) number declaration.dependsOn

/-- The phase a decision names that it may not: the withdrawn one, or one that is not declared. -/
def badDestination (withdrawn : Nat) (decision : Decision) : Option Nat :=
  match decision.destination with
  | .phase number => if number = withdrawn ∨ scope.declared number = none then some number else none
  | .drop => none

/-- A withdrawal: no declared phase depends on it, every story it serves has a decision, each decision
is for one of those stories, and a story moved goes to another declared phase. -/
def judgeWithdrawal (withdrawn : HeldPhase) (decisions : List Decision) : ScopeJudged := do
  let dependents := ((scope.declaredPhases.filter fun held =>
    held.number ≠ withdrawn.number ∧ withdrawn.number ∈ held.dependsOn).map
      HeldPhase.number).toFinset
  .require (dependents = ∅) (.phaseHasDependents (dependents.sort (· ≤ ·)))
  refuseFound (withdrawn.stories.find? fun story => story ∉ decisions.map Decision.story)
    .storyUndecided
  refuseFound (decisions.find? fun decision => decision.story ∉ withdrawn.stories)
    fun decision => .noSuchStory decision.story
  refuseFound (decisions.findSome? (badDestination scope withdrawn.number)) .noSuchPhase

/-- A story exists and is still served: one dropped or excluded is final. -/
def served (id : Nat) : ScopeJudged := do
  let story ← .ofOption (.noSuchStory id) (scope.story id)
  match story.status with
  | .dropped | .excluded => .error (.storyNotServed id story.status.asStr)
  | .active | .deferred => .ok ()

/-! ## Progress -/

variable (progress : Table Nat PhaseProgress)

def progressOf (phase : Nat) : PhaseProgress :=
  (progress.lookup phase).getD .none

/-- Whether an edit would change the stories of its phase. -/
def changesStories (phase : Nat) (fields : PhaseFields) : Bool :=
  fields.stories.any fun stories =>
    match scope.phase phase with
    | some held => held.stories ≠ stories
    | none => true

/-- A story a complete phase served is never moved or dropped. -/
def judgeShipped (story : Nat) : ScopeJudged :=
  match (scope.story story).bind HeldStory.phase with
  | some phase =>
      .require ((progressOf progress phase).complete = false) (.storyShipped story phase)
  | none => .ok ()

/-- The phases a change gives stories to. -/
def givenTo : ScopeChange → List Nat
  | .phaseWithdraw _ decisions =>
      decisions.filterMap fun decision =>
        match decision.destination with
        | .phase number => some number
        | .drop => none
  | .storyReassign _ phase | .storyDeclare _ _ phase => phase.toList
  | _ => []

/-- Judge a change against what has happened in its phases: completion before execution, and the
phase a story would go to last. -/
def judgeProgress (change : ScopeChange) : ScopeJudged := do
  match change with
  | .phaseWithdraw phase _ => do
      .require ((progressOf progress phase).complete = false) (.phaseComplete phase)
      refuseFound (progressOf progress phase).undo (.executionPresent phase)
  | .phaseEdit phase fields =>
      .require (¬ (changesStories scope phase fields ∧ (progressOf progress phase).complete))
        (.phaseComplete phase)
  | .storyReassign story _ | .storyDrop story => judgeShipped scope progress story
  | _ => .ok ()
  refuseFound ((givenTo change).find? fun phase => (progressOf progress phase).complete)
    .phaseComplete

/-! ## The judgement -/

/-- A phase a change names is a declared one. -/
def requireDeclared (phase : Nat) : Except ScopeRefusal HeldPhase :=
  .ofOption (.noSuchPhase phase) (scope.declared phase)

/-- A phase edit's dependencies against the other phases, then against the order. -/
def judgeDependencies (phase : Nat) (dependsOn : List Nat) : ScopeJudged := do
  .require (onCycleWith scope phase dependsOn = [])
    (.dependencyCycle (onCycleWith scope phase dependsOn))
  placedAfter scope.order phase dependsOn

def judgeEdit (phase : Nat) (fields : PhaseFields) : ScopeJudged := do
  let _ ← requireDeclared scope phase
  judgeProgress scope progress (.phaseEdit phase fields)
  judgeMembers scope (fields.dependsOn.getD []) (fields.stories.getD []) (some phase)
  match fields.dependsOn with
  | some dependsOn => judgeDependencies scope phase dependsOn
  | none => .ok ()

def judgeScopeChange (change : ScopeChange) (started : Bool) : ScopeJudged := do
  .require (started = true) .projectNotStarted
  match change with
  | .phaseDeclare declaration => judgeDeclaration scope declaration
  | .phaseEdit phase fields => judgeEdit scope progress phase fields
  | .phaseReorder order => judgeReorder scope order
  | .phaseWithdraw phase decisions => do
      let held ← requireDeclared scope phase
      judgeProgress scope progress (.phaseWithdraw phase decisions)
      judgeWithdrawal scope held decisions
  | .storyDeclare sentence status phase => do
      phase.forM fun phase => (requireDeclared scope phase).map fun _ => ()
      judgeProgress scope progress (.storyDeclare sentence status phase)
  | .storyEdit story _ => served scope story
  | .storyReassign story phase => do
      served scope story
      judgeProgress scope progress (.storyReassign story phase)
      phase.forM fun phase => (requireDeclared scope phase).map fun _ => ()
  | .storyDrop story => do
      served scope story
      judgeProgress scope progress (.storyDrop story)
  | .backlogReorder order => judgeBacklogOrder scope order
  -- A description has no rule of its own past the start's.
  | .projectDescribe _ => .ok ()

end Baley.Scope
