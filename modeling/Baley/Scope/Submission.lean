import Baley.Blank
import Baley.Graph.Components
import Baley.Hash
import Baley.Members

/-!
# Start submissions

A start is judged whole: its shape first, then story assignment, then dependency cycles.  An accepted
one keeps what the judgement found of it.
-/

namespace Baley.Scope

open Json Graph

/-- Why a start submission is refused; a change's shape is refused the same way. -/
inductive SubmissionRefusal where
  | malformed («section» field : String)
  /-- The 1-based positions of the first two phases that list the story. -/
  | storyDoubleAssigned (story : String) (first second : Nat)
  | dependencyCycle (phases : List Nat)
  deriving DecidableEq

/-- A story's status as a submission states it. -/
inductive StoryStatus where
  | active
  | deferred
  | excluded
  deriving DecidableEq

def StoryStatus.asStr : StoryStatus → String
  | .active => "active"
  | .deferred => "deferred"
  | .excluded => "excluded"

def StoryStatus.parse : String → Option StoryStatus
  | "active" => some .active
  | "deferred" => some .deferred
  | "excluded" => some .excluded
  | _ => none

structure Description where
  what : String
  coreValue : String
  constraints : List String
  deriving DecidableEq

structure Story where
  /-- What phases name the story by inside the submission. -/
  label : String
  sentence : String
  status : StoryStatus
  deriving DecidableEq

structure Phase where
  name : String
  goal : String
  detail : String
  /-- The 1-based roadmap positions of the phases it depends on. -/
  dependsOn : List Nat
  /-- Indexes into the submission's stories. -/
  stories : List Nat
  deriving DecidableEq

abbrev Judged (α : Type) := Except SubmissionRefusal α

/-! ## Reading members -/

def rootMembers : List String := ["description", "stories", "roadmap"]
def descriptionMembers : List String := ["what", "core_value", "constraints"]
def storyMembers : List String := ["label", "sentence", "status"]
def phaseMembers : List String := ["name", "goal", "detail", "depends_on", "stories"]

/-- The first member, by name, that is not allowed. -/
def unknownMember (object : Members) (allowed : List String) : Option String :=
  ((object.map Prod.fst).filter fun name => name ∉ allowed).min?

/-- The object at a field, refusing an unknown member before any other fault. -/
def judgeObject (value : Option Value) («section» field : String) (allowed : List String) :
    Judged Members := do
  let object ← .ofOption (.malformed «section» field) (value.bind Value.asObject)
  match unknownMember object allowed with
  | some unknown => .error (.malformed «section» (field ++ "." ++ unknown))
  | none => .ok object

/-- Text that is not empty or only whitespace, kept as written. -/
def judgeText (value : Option Value) («section» field : String) : Judged String :=
  .ofOption (.malformed «section» field)
    ((value.bind Value.asStr).filter fun text => isBlank text = false)

def judgeList (value : Option Value) («section» field : String) : Judged (List Value) :=
  .ofOption (.malformed «section» field) (value.bind Value.asArray)

/-- The path of one entry of a list. -/
def entryPath (path : String) (index : Nat) : String :=
  path ++ "[" ++ index.repr ++ "]"

/-- Read entries that may not repeat, each named by its own path when it cannot be read or was read
before. -/
def judgeDistinct (read : Value → Option Nat) («section» path : String) :
    List (Value × Nat) → List Nat → Judged (List Nat)
  | [], taken => .ok taken
  | (entry, index) :: rest, taken => do
      let number ← .ofOption (.malformed «section» (entryPath path index))
        ((read entry).filter fun number => number ∉ taken)
      judgeDistinct read «section» path rest (taken ++ [number])

/-! ## Descriptions, stories and phases -/

/-- The description's members; `within` is the member holding them, which then names every fault. -/
def judgeDescriptionMembers (object : Members) («within» : Option String) : Judged Description := do
  let path (member field : String) : String × String :=
    match «within» with
    | some outer => (outer, outer ++ "." ++ field)
    | none => (member, field)
  let text (entry : Option Value) (member field : String) : Judged String :=
    judgeText entry (path member field).1 (path member field).2
  let what ← text (Members.lookup "what" object) "what" "what"
  let coreValue ← text (Members.lookup "core_value" object) "core_value" "core_value"
  let entries ← judgeList (Members.lookup "constraints" object)
    (path "constraints" "constraints").1 (path "constraints" "constraints").2
  let constraints ← entries.zipIdx.mapM fun (entry, index) =>
    text (some entry) "constraints" (entryPath "constraints" index)
  .ok { what, coreValue, constraints }

def judgeDescription (value : Option Value) : Judged Description := do
  let object ← judgeObject value "description" "description" descriptionMembers
  judgeDescriptionMembers object (some "description")

def judgeStory (labels : List String) (entry : Value) (index : Nat) : Judged Story := do
  let path := entryPath "stories" index
  let object ← judgeObject (some entry) "stories" path storyMembers
  let label ← judgeText (Members.lookup "label" object) "stories" (path ++ ".label")
  -- A repeated label would let a phase's entry mean either story.
  .require (label ∉ labels) (.malformed "stories" (path ++ ".label"))
  let sentence ← judgeText (Members.lookup "sentence" object) "stories" (path ++ ".sentence")
  let status ← .ofOption (.malformed "stories" (path ++ ".status"))
    (((Members.lookup "status" object).bind Value.asStr).bind StoryStatus.parse)
  .ok { label, sentence, status }

def judgeEachStory : List (Value × Nat) → List Story → Judged (List Story)
  | [], stories => .ok stories
  | (entry, index) :: rest, stories => do
      let story ← judgeStory (stories.map Story.label) entry index
      judgeEachStory rest (stories ++ [story])

def judgeStories (value : Option Value) : Judged (List Story) := do
  let entries ← judgeList value "stories" "stories"
  .require (entries ≠ []) (.malformed "stories" "stories")
  judgeEachStory entries.zipIdx []

/-- A dependency: a position within the roadmap. -/
def readPosition (count : Nat) (entry : Value) : Option Nat :=
  entry.asU64.filter fun position => 1 ≤ position ∧ position ≤ count

/-- A story a phase may serve, by its label; labels are distinct. -/
def readServed (stories : List Story) (entry : Value) : Option Nat := do
  let label ← entry.asStr
  let index ← stories.findIdx? fun story => story.label = label
  -- Only an active story is promised, so only one may be served.
  if (stories[index]?.map Story.status) = some .active then some index else none

def judgePhase (stories : List Story) (count : Nat) (entry : Value) (index : Nat) :
    Judged Phase := do
  let path := entryPath "roadmap" index
  let object ← judgeObject (some entry) "roadmap" path phaseMembers
  let name ← judgeText (Members.lookup "name" object) "roadmap" (path ++ ".name")
  let goal ← judgeText (Members.lookup "goal" object) "roadmap" (path ++ ".goal")
  let detail ← judgeText (Members.lookup "detail" object) "roadmap" (path ++ ".detail")
  let depends ← judgeList (Members.lookup "depends_on" object) "roadmap" (path ++ ".depends_on")
  let dependsOn ← judgeDistinct (readPosition count) "roadmap" (path ++ ".depends_on")
    depends.zipIdx []
  let listed ← judgeList (Members.lookup "stories" object) "roadmap" (path ++ ".stories")
  let served ← judgeDistinct (readServed stories) "roadmap" (path ++ ".stories") listed.zipIdx []
  .ok { name, goal, detail, dependsOn, stories := served }

def judgeRoadmap (value : Option Value) (stories : List Story) : Judged (List Phase) := do
  let entries ← judgeList value "roadmap" "roadmap"
  .require (entries ≠ []) (.malformed "roadmap" "roadmap")
  entries.zipIdx.mapM fun (entry, index) => judgePhase stories entries.length entry index

/-- The 1-based positions of the phases that list a story, in roadmap order. -/
def listedBy (phases : List Phase) (story : Nat) : List Nat :=
  (phases.zipIdx 1).flatMap fun (phase, position) =>
    (phase.stories.filter fun listed => listed = story).map fun _ => position

/-- Refuse the first story, in story order, that two phases list. -/
def doubleAssigned (stories : List Story) (phases : List Phase) : Judged Unit :=
  match (List.range stories.length).find? fun story => 1 < (listedBy phases story).length with
  | some story =>
      .error (.storyDoubleAssigned ((stories[story]?.map Story.label).getD "")
        ((listedBy phases story).getD 0 0) ((listedBy phases story).getD 1 0))
  | none => .ok ()

def phaseEdges (phases : List Phase) : List (List Nat) :=
  phases.map fun phase => phase.dependsOn.map fun position => position - 1

/-- A component is on a cycle when it holds more than one phase or its root depends on itself. -/
def onPhaseCycle (phases : List Phase) (root : Nat) (component : List Nat) : Bool :=
  decide (1 < component.length) || (leadsTo (phaseEdges phases) root).contains root

/-- The 1-based positions of every phase on a dependency cycle, ascending. -/
def phasesOnCycles (phases : List Phase) : List Nat :=
  (reportedComponents (onPhaseCycle phases) (phaseEdges phases)).map fun index => index + 1

/-- A start submission judged whole and accepted. -/
structure Submission where
  description : Description
  stories : List Story
  phases : List Phase
  value : Value
  digest : Hash
  roadmap_judged : judgeRoadmap (value.get? "roadmap") stories = .ok phases
  stories_assigned : doubleAssigned stories phases = .ok ()
  acyclic : phasesOnCycles phases = []

/-- Judge a start submission given as plain JSON, its digest that of its canonical text. -/
def judgeSubmission (requestDigest : Value → Hash) (value : Value) : Judged Submission := do
  let root ← .ofOption (.malformed "submission" "submission") value.asObject
  match unknownMember root rootMembers with
  | some unknown => .error (.malformed unknown unknown)
  | none => do
      let description ← judgeDescription (value.get? "description")
      let stories ← judgeStories (value.get? "stories")
      match roadmap_judged : judgeRoadmap (value.get? "roadmap") stories with
      | .error refusal => .error refusal
      | .ok phases =>
          match stories_assigned : doubleAssigned stories phases with
          | .error refusal => .error refusal
          | .ok () =>
              if acyclic : phasesOnCycles phases = [] then
                .ok
                  { description, stories, phases, value, digest := requestDigest value
                    roadmap_judged, stories_assigned, acyclic }
              else .error (.dependencyCycle (phasesOnCycles phases))

/-! ## What an accepted submission holds -/

theorem of_judgeDistinct {read : Value → Option Nat} {«section» path : String}
    {entries : List (Value × Nat)} {taken numbers : List Nat} (distinct : taken.Nodup)
    (judged : judgeDistinct read «section» path entries taken = .ok numbers) :
    numbers.Nodup ∧
      ∀ number ∈ numbers, number ∈ taken ∨ ∃ entry, read entry = some number := by
  induction entries generalizing taken with
  | nil =>
      obtain rfl := Except.ok.inj judged
      exact ⟨distinct, fun number number_mem => Or.inl number_mem⟩
  | cons entry rest ih =>
      obtain ⟨entry, index⟩ := entry
      simp only [judgeDistinct, Except.bind_eq_ok, Except.ofOption_eq_ok,
        Option.filter_eq_some_iff, decide_eq_true_eq] at judged
      obtain ⟨number, ⟨read_eq, fresh⟩, judged⟩ := judged
      have distinct_next : (taken ++ [number]).Nodup := by
        rw [List.nodup_append]
        refine ⟨distinct, List.nodup_singleton number, ?_⟩
        rintro other other_mem _ (_ | ⟨_, ⟨⟩⟩) rfl
        exact fresh other_mem
      obtain ⟨nodup, each⟩ := ih distinct_next judged
      refine ⟨nodup, fun other other_mem => ?_⟩
      rcases each other other_mem with taken_mem | read_some
      · rcases List.mem_append.mp taken_mem with taken_mem | last_mem
        · exact Or.inl taken_mem
        · rw [List.mem_singleton.mp last_mem]
          exact Or.inr ⟨entry, read_eq⟩
      · exact Or.inr read_some

/-- What the judgement of one phase finds of it. -/
structure Phase.Within (stories : List Story) (count : Nat) (phase : Phase) : Prop where
  dependsOn_nodup : phase.dependsOn.Nodup
  dependsOn_inside : ∀ position ∈ phase.dependsOn, 1 ≤ position ∧ position ≤ count
  stories_nodup : phase.stories.Nodup
  stories_active : ∀ index ∈ phase.stories, stories[index]?.map Story.status = some .active

theorem within_of_judgePhase {stories : List Story} {count index : Nat} {entry : Value}
    {phase : Phase} (judged : judgePhase stories count entry index = .ok phase) :
    phase.Within stories count := by
  simp only [judgePhase, Except.bind_eq_ok, Except.ok.injEq] at judged
  obtain ⟨_, -, _, -, _, -, _, -, _, -, dependsOn, depends_judged, _, -, served, served_judged,
    rfl⟩ := judged
  obtain ⟨depends_nodup, depends_read⟩ := of_judgeDistinct List.nodup_nil depends_judged
  obtain ⟨served_nodup, served_read⟩ := of_judgeDistinct List.nodup_nil served_judged
  refine ⟨depends_nodup, fun position position_mem => ?_, served_nodup, fun index index_mem => ?_⟩
  · obtain ⟨entry, read_eq⟩ := (depends_read position position_mem).resolve_left (by simp)
    simpa using (Option.filter_eq_some_iff.mp read_eq).2
  · obtain ⟨entry, read_eq⟩ := (served_read index index_mem).resolve_left (by simp)
    simp only [readServed, Option.bind_eq_bind, Option.bind_eq_some_iff] at read_eq
    obtain ⟨_, -, found, -, read_eq⟩ := read_eq
    split_ifs at read_eq with active
    obtain rfl := Option.some.inj read_eq
    exact active

namespace Submission

variable (submission : Submission)

theorem within {phase : Phase} (phase_mem : phase ∈ submission.phases) :
    phase.Within submission.stories submission.phases.length := by
  have judged := submission.roadmap_judged
  simp only [judgeRoadmap, Except.bind_eq_ok] at judged
  obtain ⟨entries, -, _, -, judged⟩ := judged
  have each : ∀ {numbered : List (Value × Nat)} {phases : List Phase},
      (numbered.mapM fun (entry, index) =>
        judgePhase submission.stories entries.length entry index) = .ok phases →
      phases.length = numbered.length ∧
        ∀ phase ∈ phases, phase.Within submission.stories entries.length := by
    intro numbered
    induction numbered with
    | nil =>
        intro phases phases_eq
        obtain rfl := Except.ok.inj phases_eq
        simp
    | cons entry rest ih =>
        intro phases phases_eq
        simp only [List.mapM_cons, Except.bind_eq_ok, pure, Except.pure, Except.ok.injEq]
          at phases_eq
        obtain ⟨first, first_judged, others, others_eq, rfl⟩ := phases_eq
        obtain ⟨length_eq, others_within⟩ := ih others_eq
        refine ⟨by simp [length_eq], fun phase phase_mem => ?_⟩
        rcases List.mem_cons.mp phase_mem with rfl | phase_mem
        · exact within_of_judgePhase first_judged
        · exact others_within phase phase_mem
  obtain ⟨length_eq, each_within⟩ := each judged
  rw [length_eq, List.length_zipIdx]
  exact each_within phase phase_mem

/-- No story is listed by two phases. -/
theorem served_once {story first second : Nat} (first_inside : first < submission.phases.length)
    (second_inside : second < submission.phases.length)
    (first_serves : story ∈ submission.phases[first].stories)
    (second_serves : story ∈ submission.phases[second].stories) : first = second := by
  by_contra differs
  have story_inside : story < submission.stories.length := by
    have active := (submission.within (List.getElem_mem first_inside)).stories_active story
      first_serves
    by_contra outside
    simp [List.getElem?_eq_none (Nat.le_of_not_lt outside)] at active
  have assigned := submission.stories_assigned
  unfold doubleAssigned at assigned
  split at assigned
  · cases assigned
  next none_found =>
    rw [List.find?_eq_none] at none_found
    have listed {index : Nat} (inside : index < submission.phases.length)
        (serves : story ∈ submission.phases[index].stories) :
        index + 1 ∈ listedBy submission.phases story := by
      rw [listedBy, List.mem_flatMap]
      refine ⟨(submission.phases[index], index + 1), ?_, ?_⟩
      · rw [List.mem_zipIdx_iff_le_and_getElem?_sub]
        simp [inside]
      · simp [serves]
    have positions_nodup : [first + 1, second + 1].Nodup := by simp [differs]
    have positions_listed : [first + 1, second + 1] ⊆ listedBy submission.phases story := by
      intro position position_mem
      rcases List.mem_cons.mp position_mem with rfl | position_mem
      · exact listed first_inside first_serves
      · rw [List.mem_singleton.mp position_mem]
        exact listed second_inside second_serves
    have twice := (positions_nodup.subperm positions_listed).length_le
    have once := none_found story (List.mem_range.mpr story_inside)
    simp only [List.length_cons, List.length_nil, decide_eq_true_eq] at twice once
    omega

/-- What holds of a position when it holds of all those its phase depends on holds of every one. -/
theorem induction {motive : Nat → Prop}
    (step : ∀ index, (inside : index < submission.phases.length) →
      (∀ other, other + 1 ∈ submission.phases[index].dependsOn → motive other) → motive index) :
    ∀ index < submission.phases.length, motive index := by
  have closed : ∀ targets ∈ phaseEdges submission.phases, ∀ target ∈ targets,
      target < (phaseEdges submission.phases).length := by
    intro targets targets_mem target target_mem
    obtain ⟨phase, phase_mem, rfl⟩ := List.mem_map.mp targets_mem
    obtain ⟨position, position_mem, rfl⟩ := List.mem_map.mp target_mem
    have inside := (submission.within phase_mem).dependsOn_inside position position_mem
    rw [phaseEdges, List.length_map]
    omega
  have none_reported : reportedComponents (onPhaseCycle submission.phases)
      (phaseEdges submission.phases) = [] := List.map_eq_nil_iff.mp submission.acyclic
  obtain ⟨order, covers, finished⟩ := finished_of_reportedComponents
    (fun root component large => by simp [onPhaseCycle, large]) closed none_reported
  rw [phaseEdges, List.length_map] at covers
  intro index inside
  refine finished.induction (motive := fun index => index < submission.phases.length →
    motive index) ?_ index (covers index inside) inside
  intro index _ unreported others_hold inside
  refine step index inside fun other other_on => ?_
  have edge : other ∈ leadsTo (phaseEdges submission.phases) index := by
    have index_edges : leadsTo (phaseEdges submission.phases) index =
        submission.phases[index].dependsOn.map fun position => position - 1 := by
      simp [leadsTo, phaseEdges, List.getD_eq_getElem?_getD, inside]
    rw [index_edges, List.mem_map]
    exact ⟨other + 1, other_on, rfl⟩
  have other_inside := (submission.within (List.getElem_mem inside)).dependsOn_inside _ other_on
  refine others_hold other edge ?_ (by omega)
  rintro rfl
  simp [onPhaseCycle, edge] at unreported

end Submission

end Baley.Scope
