import Baley.Scope.Submission

/-!
# Change submissions

Each kind of change has its own shape, judged whole as a start is.  Only the shape is judged here;
whether the change fits accepted scope is judged against the roadmap.
-/

namespace Baley.Scope

open Json

/-- A kind of scope change. -/
inductive ChangeKind where
  | projectDescribe
  | phaseDeclare
  | phaseEdit
  | phaseReorder
  | phaseWithdraw
  | storyDeclare
  | storyEdit
  | storyReassign
  | storyDrop
  | backlogReorder
  deriving DecidableEq

namespace ChangeKind

/-- The kind as change bodies and approvals spell it. -/
def asStr : ChangeKind → String
  | projectDescribe => "project-describe"
  | phaseDeclare => "phase-declare"
  | phaseEdit => "phase-edit"
  | phaseReorder => "phase-reorder"
  | phaseWithdraw => "phase-withdraw"
  | storyDeclare => "story-declare"
  | storyEdit => "story-edit"
  | storyReassign => "story-reassign"
  | storyDrop => "story-drop"
  | backlogReorder => "backlog-reorder"

/-- The members a change of this kind may hold. -/
def members : ChangeKind → List String
  | projectDescribe => descriptionMembers
  | phaseDeclare => ["name", "goal", "detail", "depends_on", "stories", "position"]
  | phaseEdit => ["phase", "name", "goal", "detail", "depends_on", "stories"]
  | phaseReorder | backlogReorder => ["order"]
  | phaseWithdraw => ["phase", "decisions"]
  | storyDeclare => ["sentence", "status", "phase"]
  | storyEdit => ["story", "sentence"]
  | storyReassign => ["story", "phase"]
  | storyDrop => ["story"]

end ChangeKind

/-- A new phase. -/
structure PhaseDeclaration where
  name : String
  goal : String
  detail : String
  dependsOn : List Nat
  stories : List Nat
  /-- Its 1-based place in the order, or last when absent. -/
  position : Option Nat
  deriving DecidableEq

/-- The fields an edit changes; an absent one keeps the declaration in force. -/
structure PhaseFields where
  name : Option String
  goal : Option String
  detail : Option String
  dependsOn : Option (List Nat)
  stories : Option (List Nat)
  deriving DecidableEq

def PhaseFields.absent : PhaseFields := ⟨none, none, none, none, none⟩

/-- Where a withdrawal sends one story of the withdrawn phase. -/
inductive Destination where
  | phase (number : Nat)
  | drop
  deriving DecidableEq

structure Decision where
  story : Nat
  destination : Destination
  deriving DecidableEq

/-- A change's members as typed values, text kept as written. -/
inductive ScopeChange where
  | projectDescribe (description : Description)
  | phaseDeclare (declaration : PhaseDeclaration)
  | phaseEdit (phase : Nat) (fields : PhaseFields)
  | phaseReorder (order : List Nat)
  | phaseWithdraw (phase : Nat) (decisions : List Decision)
  | storyDeclare (sentence : String) (status : StoryStatus) (phase : Option Nat)
  | storyEdit (story : Nat) (sentence : String)
  | storyReassign (story : Nat) (phase : Option Nat)
  | storyDrop (story : Nat)
  | backlogReorder (order : List Nat)
  deriving DecidableEq

namespace ScopeChange

def kind : ScopeChange → ChangeKind
  | projectDescribe _ => .projectDescribe
  | phaseDeclare _ => .phaseDeclare
  | phaseEdit _ _ => .phaseEdit
  | phaseReorder _ => .phaseReorder
  | phaseWithdraw _ _ => .phaseWithdraw
  | storyDeclare _ _ _ => .storyDeclare
  | storyEdit _ _ => .storyEdit
  | storyReassign _ _ => .storyReassign
  | storyDrop _ => .storyDrop
  | backlogReorder _ => .backlogReorder

/-- What the shape promises of the members. -/
def WellShaped : ScopeChange → Prop
  | phaseDeclare declaration =>
      declaration.dependsOn.Nodup ∧ declaration.stories.Nodup ∧
        ∀ position ∈ declaration.position, 1 ≤ position
  | phaseEdit _ fields =>
      (∀ dependsOn ∈ fields.dependsOn, dependsOn.Nodup) ∧ ∀ stories ∈ fields.stories, stories.Nodup
  | phaseWithdraw _ decisions => (decisions.map Decision.story).Nodup
  | storyDeclare _ status phase => phase ≠ none → status = .active
  | _ => True

end ScopeChange

/-- A change submission judged whole and accepted. -/
structure ChangeSubmission where
  change : ScopeChange
  value : Value
  digest : Hash
  target : String
  wellShaped : change.WellShaped

/-! ## Reading members -/

/-- The top-level text member, named by itself. -/
def textMember (members : Members) (name : String) : Judged String :=
  judgeText (Members.lookup name members) name name

/-- The judgement of a member, or none when the member is absent. -/
def optionalMember {α : Type} (members : Members) (name : String)
    (judge : Option Value → Judged α) : Judged (Option α) :=
  match Members.lookup name members with
  | none => .ok none
  | some value => (judge (some value)).map some

/-- A phase number or story id: a whole number from 1 to the largest of 32 bits. -/
def readNumber (entry : Value) : Option Nat :=
  (asU32 entry).filter fun number => 1 ≤ number

def judgeNumber (value : Option Value) («section» field : String) : Judged Nat :=
  .ofOption (.malformed «section» field) (value.bind readNumber)

/-- A phase number, or null for none. -/
def judgeNumberOrNull (value : Option Value) (name : String) : Judged (Option Nat) :=
  match value with
  | some .null => .ok none
  | value => (judgeNumber value name name).map some

/-- The top-level list of numbers, none repeated. -/
def judgeNumbers (value : Option Value) (name : String) : Judged (List Nat) := do
  let entries ← judgeList value name name
  judgeDistinct readNumber name name entries.zipIdx []

/-- A full order of at least one number; a repeat is left to the judgement against accepted scope. -/
def judgeOrder (value : Option Value) : Judged (List Nat) := do
  let entries ← judgeList value "order" "order"
  .require (entries ≠ []) (.malformed "order" "order")
  entries.zipIdx.mapM fun (entry, index) =>
    judgeNumber (some entry) "order" (entryPath "order" index)

def judgeDestination (value : Option Value) (path : String) : Judged Destination :=
  if value.bind Value.asStr = some "drop" then .ok .drop
  else (judgeNumber value "decisions" (path ++ ".to")).map .phase

def judgeEachDecision : List (Value × Nat) → List Decision → Judged (List Decision)
  | [], decisions => .ok decisions
  | (entry, index) :: rest, decisions => do
      let path := entryPath "decisions" index
      let object ← judgeObject (some entry) "decisions" path ["story", "to"]
      let story ← judgeNumber (Members.lookup "story" object) "decisions" (path ++ ".story")
      .require (story ∉ decisions.map Decision.story) (.malformed "decisions" (path ++ ".story"))
      let destination ← judgeDestination (Members.lookup "to" object) path
      judgeEachDecision rest (decisions ++ [{ story, destination }])

/-- A withdrawal's decisions, no story decided twice. -/
def judgeDecisions (value : Option Value) : Judged (List Decision) := do
  let entries ← judgeList value "decisions" "decisions"
  judgeEachDecision entries.zipIdx []

/-! ## Each kind's shape -/

def judgePhaseDeclare (members : Members) : Judged ScopeChange := do
  let name ← textMember members "name"
  let goal ← textMember members "goal"
  let detail ← textMember members "detail"
  let dependsOn ← judgeNumbers (Members.lookup "depends_on" members) "depends_on"
  let stories ← judgeNumbers (Members.lookup "stories" members) "stories"
  let position ← optionalMember members "position" fun value =>
    judgeNumber value "position" "position"
  .ok (.phaseDeclare { name, goal, detail, dependsOn, stories, position })

def judgePhaseEdit (members : Members) : Judged ScopeChange := do
  let phase ← judgeNumber (Members.lookup "phase" members) "phase" "phase"
  let name ← optionalMember members "name" fun _ => textMember members "name"
  let goal ← optionalMember members "goal" fun _ => textMember members "goal"
  let detail ← optionalMember members "detail" fun _ => textMember members "detail"
  let dependsOn ← optionalMember members "depends_on" fun value => judgeNumbers value "depends_on"
  let stories ← optionalMember members "stories" fun value => judgeNumbers value "stories"
  -- With nothing to change it would record the declaration in force again.
  .require (PhaseFields.mk name goal detail dependsOn stories ≠ .absent)
    (.malformed "submission" "submission")
  .ok (.phaseEdit phase { name, goal, detail, dependsOn, stories })

def judgeStoryDeclare (members : Members) : Judged ScopeChange := do
  let sentence ← textMember members "sentence"
  let status ← .ofOption (.malformed "status" "status")
    (((Members.lookup "status" members).bind Value.asStr).bind StoryStatus.parse)
  let phase ← judgeNumberOrNull (Members.lookup "phase" members) "phase"
  -- Only an active story is promised, so only one may be served.
  .require (phase ≠ none → status = .active) (.malformed "phase" "phase")
  .ok (.storyDeclare sentence status phase)

def judgeChangeMembers (members : Members) : ChangeKind → Judged ScopeChange
  | .projectDescribe => (judgeDescriptionMembers members none).map .projectDescribe
  | .phaseDeclare => judgePhaseDeclare members
  | .phaseEdit => judgePhaseEdit members
  | .phaseReorder => (judgeOrder (Members.lookup "order" members)).map .phaseReorder
  | .backlogReorder => (judgeOrder (Members.lookup "order" members)).map .backlogReorder
  | .phaseWithdraw => do
      let phase ← judgeNumber (Members.lookup "phase" members) "phase" "phase"
      let decisions ← judgeDecisions (Members.lookup "decisions" members)
      .ok (.phaseWithdraw phase decisions)
  | .storyDeclare => judgeStoryDeclare members
  | .storyEdit => do
      let story ← judgeNumber (Members.lookup "story" members) "story" "story"
      let sentence ← textMember members "sentence"
      .ok (.storyEdit story sentence)
  | .storyReassign => do
      let story ← judgeNumber (Members.lookup "story" members) "story" "story"
      let phase ← judgeNumberOrNull (Members.lookup "phase" members) "phase"
      .ok (.storyReassign story phase)
  | .storyDrop => (judgeNumber (Members.lookup "story" members) "story" "story").map .storyDrop

/-! ### What the shape promises -/

theorem nodup_of_judgeNumbers {value : Option Value} {name : String} {numbers : List Nat}
    (judged : judgeNumbers value name = .ok numbers) : numbers.Nodup := by
  simp only [judgeNumbers, Except.bind_eq_ok] at judged
  obtain ⟨_, -, judged⟩ := judged
  exact (of_judgeDistinct List.nodup_nil judged).1

theorem positive_of_judgeNumber {value : Option Value} {«section» field : String} {number : Nat}
    (judged : judgeNumber value «section» field = .ok number) : 1 ≤ number := by
  simp only [judgeNumber, Except.ofOption_eq_ok, Option.bind_eq_some_iff, readNumber,
    Option.filter_eq_some_iff, decide_eq_true_eq] at judged
  obtain ⟨_, -, -, positive⟩ := judged
  exact positive

/-- What a present member was judged to be. -/
theorem of_optionalMember {α : Type} {members : Members} {name : String}
    {judge : Option Value → Judged α} {result : Option α}
    (judged : optionalMember members name judge = .ok result) :
    ∀ value ∈ result, ∃ given, judge given = .ok value := by
  unfold optionalMember at judged
  split at judged
  · obtain rfl := Except.ok.inj judged
    simp
  · obtain ⟨value, value_judged, rfl⟩ := Except.map_eq_ok.mp judged
    rintro _ ⟨⟩
    exact ⟨_, value_judged⟩

theorem nodup_of_judgeEachDecision {entries : List (Value × Nat)} {taken decisions : List Decision}
    (distinct : (taken.map Decision.story).Nodup)
    (judged : judgeEachDecision entries taken = .ok decisions) :
    (decisions.map Decision.story).Nodup := by
  induction entries generalizing taken with
  | nil =>
      obtain rfl := Except.ok.inj judged
      exact distinct
  | cons entry rest ih =>
      obtain ⟨entry, index⟩ := entry
      simp only [judgeEachDecision, Except.bind_eq_ok, Except.require_eq_ok] at judged
      obtain ⟨_, -, story, -, _, fresh, _, -, judged⟩ := judged
      refine ih ?_ judged
      rw [List.map_append, List.map_singleton, List.nodup_append]
      refine ⟨distinct, List.nodup_singleton story, ?_⟩
      rintro other other_mem _ (_ | ⟨_, ⟨⟩⟩) rfl
      exact fresh other_mem

theorem wellShaped_of_judgeChangeMembers {members : Members} {kind : ChangeKind}
    {change : ScopeChange} (judged : judgeChangeMembers members kind = .ok change) :
    change.WellShaped := by
  cases kind with
  | projectDescribe | phaseReorder | backlogReorder | storyDrop =>
      obtain ⟨_, -, rfl⟩ := Except.map_eq_ok.mp judged
      trivial
  | storyEdit | storyReassign =>
      simp only [judgeChangeMembers, Except.bind_eq_ok, Except.ok.injEq] at judged
      obtain ⟨_, -, _, -, rfl⟩ := judged
      trivial
  | phaseDeclare =>
      simp only [judgeChangeMembers, judgePhaseDeclare, Except.bind_eq_ok, Except.ok.injEq]
        at judged
      obtain ⟨_, -, _, -, _, -, _, depends_judged, _, stories_judged, _, position_judged, rfl⟩ :=
        judged
      refine ⟨nodup_of_judgeNumbers depends_judged, nodup_of_judgeNumbers stories_judged, ?_⟩
      intro position position_mem
      obtain ⟨_, judged⟩ := of_optionalMember position_judged position position_mem
      exact positive_of_judgeNumber judged
  | phaseEdit =>
      simp only [judgeChangeMembers, judgePhaseEdit, Except.bind_eq_ok, Except.ok.injEq] at judged
      obtain ⟨_, -, _, -, _, -, _, -, _, depends_judged, _, stories_judged, _, -, rfl⟩ := judged
      constructor
      · intro dependsOn dependsOn_mem
        obtain ⟨_, judged⟩ := of_optionalMember depends_judged dependsOn dependsOn_mem
        exact nodup_of_judgeNumbers judged
      · intro stories stories_mem
        obtain ⟨_, judged⟩ := of_optionalMember stories_judged stories stories_mem
        exact nodup_of_judgeNumbers judged
  | phaseWithdraw =>
      simp only [judgeChangeMembers, judgeDecisions, Except.bind_eq_ok, Except.ok.injEq] at judged
      obtain ⟨_, -, decisions, ⟨_, -, judged⟩, rfl⟩ := judged
      exact nodup_of_judgeEachDecision (by simp) judged
  | storyDeclare =>
      simp only [judgeChangeMembers, judgeStoryDeclare, Except.bind_eq_ok, Except.require_eq_ok,
        Except.ok.injEq] at judged
      obtain ⟨_, -, _, -, _, -, _, active, rfl⟩ := judged
      exact active

/-! ## The judgement -/

/-- What the change is filed under among drafts of its kind. -/
def ScopeChange.target (digest : Hash) : ScopeChange → String
  | phaseEdit phase _ | phaseWithdraw phase _ => phase.repr
  | storyEdit story _ | storyReassign story _ | storyDrop story => story.repr
  | phaseReorder _ | backlogReorder _ => "order"
  | projectDescribe _ => "description"
  | phaseDeclare _ | storyDeclare _ _ _ => digest.toHex

/-- Judge a change submission of a kind given as plain JSON, its digest that of its members with the
kind added. -/
def judgeChange (requestDigest : Value → Hash) (kind : ChangeKind) (value : Value) :
    Judged ChangeSubmission := do
  let members ← .ofOption (.malformed "submission" "submission") value.asObject
  match unknownMember members kind.members with
  | some unknown => .error (.malformed unknown unknown)
  | none =>
      match judged : judgeChangeMembers members kind with
      | .error refusal => .error refusal
      | .ok change =>
          let body := value.set "kind" (.string kind.asStr)
          .ok
            { change, value := body, digest := requestDigest body
              target := change.target (requestDigest body)
              wellShaped := wellShaped_of_judgeChangeMembers judged }

end Baley.Scope
