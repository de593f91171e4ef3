import Baley.Plan.Task

/-!
# The evidence items of a plan

Each item is read whole before the next, its spec by its kind.  Every fault is named by its full path.
-/

namespace Baley

open Json

/-- What an evidence item is. -/
inductive EvidenceKind where
  | artifact
  | link
  | check
  | observation
  deriving DecidableEq

/-- What an artifact names: a path or a record. -/
inductive Artifact where
  | path (path : String)
  | record (name : String)
  deriving DecidableEq

/-- A value that passes from a caller to a callee. -/
structure Link where
  caller : String
  callee : String
  value : String
  deriving DecidableEq

/-- What is to be seen and by whom. -/
structure Observation where
  what : String
  by_ : String
  deriving DecidableEq

/-- What the output of a check is compared with. -/
inductive Expected where
  | literal (value : String)
  | property (value : String)
  deriving DecidableEq

/-- The test that a check runs. -/
structure CheckTest where
  file : String
  function : String
  deriving DecidableEq

inductive Level where
  | unit
  | integration
  deriving DecidableEq

/-- A command whose result proves a truth. -/
structure Check where
  command : String
  expected : Expected
  test : CheckTest
  setup : String
  call : String
  level : Level
  boundary : String
  fakes : List String
  deriving DecidableEq

inductive Spec where
  | artifact (artifact : Artifact)
  | link (link : Link)
  | check (check : Check)
  | observation (observation : Observation)
  deriving DecidableEq

/-- One evidence item of a plan, its texts kept exactly as written. -/
structure EvidenceItem where
  id : String
  /-- The story of the truth it serves. -/
  story : Nat
  truth : String
  truthVersion : Nat
  spec : Spec
  reason : String
  deriving DecidableEq

def Spec.kind : Spec → EvidenceKind
  | .artifact _ => .artifact
  | .link _ => .link
  | .check _ => .check
  | .observation _ => .observation

/-- The item's kind, as its spec has it. -/
def EvidenceItem.kind (item : EvidenceItem) : EvidenceKind :=
  item.spec.kind

namespace Evidence

open Plan

def itemMembers : List String := ["id", "story", "truth", "truth_version", "kind", "spec", "reason"]

def artifactMembers : List String := ["path", "record"]

def linkMembers : List String := ["caller", "callee", "value"]

def observationMembers : List String := ["what", "by"]

def checkMembers : List String :=
  ["command", "expected", "test", "setup", "call", "level", "boundary", "fakes"]

def expectedMembers : List String := ["kind", "value"]

def testMembers : List String := ["file", "function"]

/-! ## Reading -/

/-- An artifact's spec: exactly one of a path and a record. -/
def artifact (path : String) (value : Value) : Except PlanRefusal Artifact := do
  let spec ← objectAt path value artifactMembers
  if spec.length ≠ 1 then .error (.typed path)
  else if (spec.lookup "path").isSome then .ok (.path (← textAt path spec "path"))
  else .ok (.record (← textAt path spec "record"))

def link (path : String) (value : Value) : Except PlanRefusal Link := do
  let spec ← objectAt path value linkMembers
  let caller ← textAt path spec "caller"
  let callee ← textAt path spec "callee"
  let value ← textAt path spec "value"
  .ok { caller, callee, value }

def observation (path : String) (value : Value) : Except PlanRefusal Observation := do
  let spec ← objectAt path value observationMembers
  let what ← textAt path spec "what"
  let by_ ← textAt path spec "by"
  .ok { what, by_ }

/-- A check's expected value, of one of two kinds. -/
def expected (path : String) (value : Value) : Except PlanRefusal Expected := do
  let expected ← objectAt path value expectedMembers
  match textMember expected "kind" with
  | some "literal" => .ok (.literal (← textAt path expected "value"))
  | some "property" => .ok (.property (← textAt path expected "value"))
  | _ => .error (typedAt path "kind")

def test (path : String) (value : Value) : Except PlanRefusal CheckTest := do
  let test ← objectAt path value testMembers
  let file ← textAt path test "file"
  let function ← textAt path test "function"
  .ok { file, function }

def level (path : String) (spec : Members) : Except PlanRefusal Level :=
  match textMember spec "level" with
  | some "unit" => .ok .unit
  | some "integration" => .ok .integration
  | _ => .error (typedAt path "level")

/-- A check's spec, each member in order. -/
def check (path : String) (value : Value) : Except PlanRefusal Check := do
  let spec ← objectAt path value checkMembers
  let command ← textAt path spec "command"
  let expected ← expected s!"{path}.expected" ((spec.lookup "expected").getD .null)
  let test ← test s!"{path}.test" ((spec.lookup "test").getD .null)
  let setup ← textAt path spec "setup"
  let call ← textAt path spec "call"
  let level ← level path spec
  let boundary ← textAt path spec "boundary"
  let fakes ← (PlanTask.textList spec "fakes" fun _ => true).mapError (PlanTask.listFault path "fakes")
  .ok { command, expected, test, setup, call, level, boundary, fakes }

/-- The spec of an item, by the item's kind. -/
def spec (path : String) (kind : Option String) (value : Value) : Except PlanRefusal Spec :=
  match kind with
  | some "artifact" => (artifact s!"{path}.spec" value).map .artifact
  | some "link" => (link s!"{path}.spec" value).map .link
  | some "check" => (check s!"{path}.spec" value).map .check
  | some "observation" => (observation s!"{path}.spec" value).map .observation
  | _ => .error (typedAt path "kind")

/-- One item read, no id twice. -/
def item (position : Nat) (seen : List String) (entry : Value) : Except PlanRefusal EvidenceItem := do
  let path := s!"evidence_map[{position}]"
  let item ← objectAt path entry itemMembers
  let id ← .ofOption (typedAt path "id")
    ((textMember item "id").filter fun id => isBlank id = false ∧ id ∉ seen)
  let story ← .ofOption (typedAt path "story") (counter (item.lookup "story"))
  let truth ← textAt path item "truth"
  let truthVersion ← .ofOption (typedAt path "truth_version") (counter (item.lookup "truth_version"))
  let spec ← spec path (textMember item "kind") ((item.lookup "spec").getD .null)
  let reason ← textAt path item "reason"
  .ok { id, story, truth, truthVersion, spec, reason }

/-- Read the items in submitted order. -/
def read (items : List Value) : Except PlanRefusal (List EvidenceItem) :=
  readEach EvidenceItem.id item 0 [] items

/-- The first field of a check that is blank and has a code. -/
def blankField (position : Nat) (item : EvidenceItem) : Option PlanRefusal :=
  match item.spec with
  | .check check =>
      let expected := match check.expected with
        | .literal value => value
        | .property value => value
      if isBlank check.command then some (.checkCommand position item.id)
      else if isBlank expected then some (.checkExpected position item.id)
      else if isBlank check.test.file then some (.checkTestFile position item.id)
      else if isBlank check.boundary then some (.checkBoundary position item.id)
      else none
  | _ => none

/-- Step (4): no check with a blank field. -/
def blankFields (items : List EvidenceItem) : Except PlanRefusal Unit :=
  passEach blankField 0 items

/-! ## What an item is -/

/-- An object with no member besides the names. -/
def ObjectOf (names : List String) (value : Value) : Prop :=
  ∃ object, value = .object object ∧ Within names object

/-- What an artifact's spec is written as: one member and no other. -/
inductive ArtifactAs : Value → Artifact → Prop
  | path (path : String) : ArtifactAs (.object [("path", .string path)]) (.path path)
  | record (name : String) : ArtifactAs (.object [("record", .string name)]) (.record name)

structure LinkAs (value : Value) (link : Link) : Prop where
  members : ObjectOf linkMembers value
  caller_eq : value.get? "caller" = some (.string link.caller)
  callee_eq : value.get? "callee" = some (.string link.callee)
  value_eq : value.get? "value" = some (.string link.value)

structure ObservationAs (value : Value) (observation : Observation) : Prop where
  members : ObjectOf observationMembers value
  what_eq : value.get? "what" = some (.string observation.what)
  by_eq : value.get? "by" = some (.string observation.by_)

/-- The kind and the value of an expected value, as written. -/
def expectedTexts : Expected → String × String
  | .literal value => ("literal", value)
  | .property value => ("property", value)

structure ExpectedAs (value : Value) (expected : Expected) : Prop where
  members : ObjectOf expectedMembers value
  kind_eq : value.get? "kind" = some (.string (expectedTexts expected).1)
  value_eq : value.get? "value" = some (.string (expectedTexts expected).2)

structure TestAs (value : Value) (test : CheckTest) : Prop where
  members : ObjectOf testMembers value
  file_eq : value.get? "file" = some (.string test.file)
  function_eq : value.get? "function" = some (.string test.function)

def levelText : Level → String
  | .unit => "unit"
  | .integration => "integration"

structure CheckAs (value : Value) (check : Check) : Prop where
  members : ObjectOf checkMembers value
  command_eq : value.get? "command" = some (.string check.command)
  expected_as : ∃ expected, value.get? "expected" = some expected ∧ ExpectedAs expected check.expected
  test_as : ∃ test, value.get? "test" = some test ∧ TestAs test check.test
  setup_eq : value.get? "setup" = some (.string check.setup)
  call_eq : value.get? "call" = some (.string check.call)
  level_eq : value.get? "level" = some (.string (levelText check.level))
  boundary_eq : value.get? "boundary" = some (.string check.boundary)
  fakes_eq : value.get? "fakes" = some (texts check.fakes)

/-- What a spec is written as, by its kind. -/
inductive SpecAs : Value → Spec → Prop
  | artifact {value : Value} {artifact : Artifact} (written : ArtifactAs value artifact) :
      SpecAs value (.artifact artifact)
  | link {value : Value} {link : Link} (written : LinkAs value link) : SpecAs value (.link link)
  | check {value : Value} {check : Check} (written : CheckAs value check) : SpecAs value (.check check)
  | observation {value : Value} {observation : Observation} (written : ObservationAs value observation) :
      SpecAs value (.observation observation)

def kindText : EvidenceKind → String
  | .artifact => "artifact"
  | .link => "link"
  | .check => "check"
  | .observation => "observation"

/-- What an item is written as. -/
structure ItemAs (entry : Value) (item : EvidenceItem) : Prop where
  members : ObjectOf itemMembers entry
  id_eq : entry.get? "id" = some (.string item.id)
  named : isBlank item.id = false
  story_as : ∃ story, entry.get? "story" = some story ∧ IsCounter story item.story
  truth_eq : entry.get? "truth" = some (.string item.truth)
  version_as : ∃ version, entry.get? "truth_version" = some version ∧ IsCounter version item.truthVersion
  kind_eq : entry.get? "kind" = some (.string (kindText item.kind))
  spec_as : ∃ spec, entry.get? "spec" = some spec ∧ SpecAs spec item.spec
  reason_eq : entry.get? "reason" = some (.string item.reason)

/-- A check with no blank field, as far as fields have a code; other items have none. -/
def Filled (item : EvidenceItem) : Prop :=
  ∀ check, item.spec = .check check → isBlank check.command = false ∧
    isBlank (expectedTexts check.expected).2 = false ∧ isBlank check.test.file = false ∧
    isBlank check.boundary = false

/-! ## Reading exactly that -/

theorem artifact_eq_ok {path : String} {value : Value} {found : Artifact} :
    artifact path value = .ok found ↔ ArtifactAs value found := by
  simp only [artifact, Except.bind_eq_ok, objectAt_eq_ok]
  constructor
  · rintro ⟨object, ⟨rfl, within⟩, read⟩
    split_ifs at read with one named
    · obtain ⟨⟨name, held⟩, rfl⟩ := List.length_eq_one_iff.mp (not_not.mp one)
      simp only [Except.bind_eq_ok, textAt_eq_ok, Except.ok.injEq] at read
      obtain ⟨text, text_eq, rfl⟩ := read
      rw [Members.lookup_cons] at text_eq
      split_ifs at text_eq with same
      · cases same
        cases text_eq
        exact .path text
      · cases text_eq
    · obtain ⟨⟨name, held⟩, rfl⟩ := List.length_eq_one_iff.mp (not_not.mp one)
      simp only [Except.bind_eq_ok, textAt_eq_ok, Except.ok.injEq] at read
      obtain ⟨text, text_eq, rfl⟩ := read
      rw [Members.lookup_cons] at text_eq
      split_ifs at text_eq with same
      · cases same
        cases text_eq
        exact .record text
      · cases text_eq
  · intro written
    cases written with
    | path text =>
        refine ⟨_, ⟨rfl, by simp [Within, artifactMembers]⟩, ?_⟩
        exact Except.bind_eq_ok.mpr ⟨text, textAt_eq_ok.mpr (by simp), rfl⟩
    | record text =>
        refine ⟨_, ⟨rfl, by simp [Within, artifactMembers]⟩, ?_⟩
        exact Except.bind_eq_ok.mpr ⟨text, textAt_eq_ok.mpr (by simp), rfl⟩

theorem link_eq_ok {path : String} {value : Value} {found : Link} :
    link path value = .ok found ↔ LinkAs value found := by
  simp only [link, Except.bind_eq_ok, objectAt_eq_ok, textAt_eq_ok, Except.ok.injEq]
  constructor
  · rintro ⟨object, ⟨rfl, within⟩, caller, caller_eq, callee, callee_eq, passed, passed_eq, rfl⟩
    exact ⟨⟨object, rfl, within⟩, caller_eq, callee_eq, passed_eq⟩
  · rintro ⟨⟨object, rfl, within⟩, caller_eq, callee_eq, passed_eq⟩
    exact ⟨object, ⟨rfl, within⟩, _, caller_eq, _, callee_eq, _, passed_eq, rfl⟩

theorem observation_eq_ok {path : String} {value : Value} {found : Observation} :
    observation path value = .ok found ↔ ObservationAs value found := by
  simp only [observation, Except.bind_eq_ok, objectAt_eq_ok, textAt_eq_ok, Except.ok.injEq]
  constructor
  · rintro ⟨object, ⟨rfl, within⟩, what, what_eq, by_, by_eq, rfl⟩
    exact ⟨⟨object, rfl, within⟩, what_eq, by_eq⟩
  · rintro ⟨⟨object, rfl, within⟩, what_eq, by_eq⟩
    exact ⟨object, ⟨rfl, within⟩, _, what_eq, _, by_eq, rfl⟩

theorem expected_eq_ok {path : String} {value : Value} {found : Expected} :
    expected path value = .ok found ↔ ExpectedAs value found := by
  simp only [expected, Except.bind_eq_ok, objectAt_eq_ok]
  constructor
  · rintro ⟨object, ⟨rfl, within⟩, read⟩
    split at read
    · rename_i kind_eq
      simp only [Except.bind_eq_ok, textAt_eq_ok, Except.ok.injEq] at read
      obtain ⟨text, text_eq, rfl⟩ := read
      exact ⟨⟨object, rfl, within⟩, textMember_eq_some.mp kind_eq, text_eq⟩
    · rename_i kind_eq
      simp only [Except.bind_eq_ok, textAt_eq_ok, Except.ok.injEq] at read
      obtain ⟨text, text_eq, rfl⟩ := read
      exact ⟨⟨object, rfl, within⟩, textMember_eq_some.mp kind_eq, text_eq⟩
    · cases read
  · rintro ⟨⟨object, rfl, within⟩, kind_eq, value_eq⟩
    refine ⟨object, ⟨rfl, within⟩, ?_⟩
    have kind_eq := textMember_eq_some.mpr kind_eq
    cases found with
    | literal text =>
        simp only [kind_eq, expectedTexts]
        exact Except.bind_eq_ok.mpr ⟨text, textAt_eq_ok.mpr value_eq, rfl⟩
    | property text =>
        simp only [kind_eq, expectedTexts]
        exact Except.bind_eq_ok.mpr ⟨text, textAt_eq_ok.mpr value_eq, rfl⟩

theorem test_eq_ok {path : String} {value : Value} {found : CheckTest} :
    test path value = .ok found ↔ TestAs value found := by
  simp only [test, Except.bind_eq_ok, objectAt_eq_ok, textAt_eq_ok, Except.ok.injEq]
  constructor
  · rintro ⟨object, ⟨rfl, within⟩, file, file_eq, function, function_eq, rfl⟩
    exact ⟨⟨object, rfl, within⟩, file_eq, function_eq⟩
  · rintro ⟨⟨object, rfl, within⟩, file_eq, function_eq⟩
    exact ⟨object, ⟨rfl, within⟩, _, file_eq, _, function_eq, rfl⟩

theorem level_eq_ok {path : String} {spec : Members} {found : Level} :
    level path spec = .ok found ↔ spec.lookup "level" = some (.string (levelText found)) := by
  rw [← textMember_eq_some, level]
  constructor
  · intro read
    split at read
    · rename_i level_eq
      cases read
      exact level_eq
    · rename_i level_eq
      cases read
      exact level_eq
    · cases read
  · intro level_eq
    rw [level_eq]
    cases found <;> rfl

/-- A member that is missing is read as null, which is no object. -/
theorem getD_null_iff {holds : Value → Prop} (not_null : ¬holds .null) {member : Option Value} :
    holds (member.getD .null) ↔ ∃ value, member = some value ∧ holds value := by
  cases member with
  | none => simp [not_null]
  | some value => simp

theorem ObjectOf.not_null {names : List String} : ¬ObjectOf names .null := by
  rintro ⟨object, same, -⟩
  cases same

theorem check_eq_ok {path : String} {value : Value} {found : Check} :
    check path value = .ok found ↔ CheckAs value found := by
  have expected_iff (member : Option Value) (found : Expected) :
      ExpectedAs (member.getD .null) found ↔ ∃ value, member = some value ∧ ExpectedAs value found :=
    @getD_null_iff (fun value => ExpectedAs value found) (fun written => written.members.not_null) member
  have test_iff (member : Option Value) (found : CheckTest) :
      TestAs (member.getD .null) found ↔ ∃ value, member = some value ∧ TestAs value found :=
    @getD_null_iff (fun value => TestAs value found) (fun written => written.members.not_null) member
  simp only [check, Except.bind_eq_ok, objectAt_eq_ok, textAt_eq_ok, expected_eq_ok, test_eq_ok,
    expected_iff, test_iff, level_eq_ok, Except.mapError_eq_ok, PlanTask.textList_eq_ok, Except.ok.injEq]
  constructor
  · rintro ⟨object, ⟨rfl, within⟩, command, command_eq, expected, expected_as, test, test_as, setup, setup_eq,
      call, call_eq, level, level_eq, boundary, boundary_eq, fakes, ⟨fakes_eq, -⟩, rfl⟩
    exact ⟨⟨object, rfl, within⟩, command_eq, expected_as, test_as, setup_eq, call_eq, level_eq, boundary_eq,
      fakes_eq⟩
  · rintro ⟨⟨object, rfl, within⟩, command_eq, expected_as, test_as, setup_eq, call_eq, level_eq, boundary_eq,
      fakes_eq⟩
    exact ⟨object, ⟨rfl, within⟩, _, command_eq, _, expected_as, _, test_as, _, setup_eq, _, call_eq, _,
      level_eq, _, boundary_eq, _, ⟨fakes_eq, fun _ _ => trivial⟩, rfl⟩

theorem specAs_iff {value : Value} {found : Spec} :
    SpecAs value found ↔ match found with
      | .artifact artifact => ArtifactAs value artifact
      | .link link => LinkAs value link
      | .check check => CheckAs value check
      | .observation observation => ObservationAs value observation := by
  constructor
  · rintro (written | written | written | written) <;> exact written
  · cases found with
    | artifact => exact .artifact
    | link => exact .link
    | check => exact .check
    | observation => exact .observation

theorem not_specAs_null {found : Spec} : ¬SpecAs .null found := by
  rintro (written | written | written | written)
  · cases written
  · exact written.members.not_null
  · exact written.members.not_null
  · exact written.members.not_null

theorem spec_eq_ok {path : String} {kind : Option String} {value : Value} {found : Spec} :
    spec path kind value = .ok found ↔ kind = some (kindText found.kind) ∧ SpecAs value found := by
  unfold spec
  split
  · simp only [Except.map_eq_ok, artifact_eq_ok]
    constructor
    · rintro ⟨artifact, written, rfl⟩
      exact ⟨rfl, .artifact written⟩
    · rintro ⟨kind_eq, written⟩
      cases written with
      | artifact written => exact ⟨_, written, rfl⟩
      | _ => simp [Spec.kind, kindText] at kind_eq
  · simp only [Except.map_eq_ok, link_eq_ok]
    constructor
    · rintro ⟨link, written, rfl⟩
      exact ⟨rfl, .link written⟩
    · rintro ⟨kind_eq, written⟩
      cases written with
      | link written => exact ⟨_, written, rfl⟩
      | _ => simp [Spec.kind, kindText] at kind_eq
  · simp only [Except.map_eq_ok, check_eq_ok]
    constructor
    · rintro ⟨check, written, rfl⟩
      exact ⟨rfl, .check written⟩
    · rintro ⟨kind_eq, written⟩
      cases written with
      | check written => exact ⟨_, written, rfl⟩
      | _ => simp [Spec.kind, kindText] at kind_eq
  · simp only [Except.map_eq_ok, observation_eq_ok]
    constructor
    · rintro ⟨observation, written, rfl⟩
      exact ⟨rfl, .observation written⟩
    · rintro ⟨kind_eq, written⟩
      cases written with
      | observation written => exact ⟨_, written, rfl⟩
      | _ => simp [Spec.kind, kindText] at kind_eq
  · rename_i not_artifact not_link not_check not_observation
    refine iff_of_false (by simp) ?_
    rintro ⟨rfl, -⟩
    cases found with
    | artifact => exact not_artifact rfl
    | link => exact not_link rfl
    | check => exact not_check rfl
    | observation => exact not_observation rfl

theorem item_eq_ok {position : Nat} {seen : List String} {entry : Value} {found : EvidenceItem} :
    item position seen entry = .ok found ↔ ItemAs entry found ∧ found.id ∉ seen := by
  have spec_iff (member : Option Value) (found : Spec) :
      SpecAs (member.getD .null) found ↔ ∃ value, member = some value ∧ SpecAs value found :=
    @getD_null_iff (fun value => SpecAs value found) not_specAs_null member
  simp only [item, Except.bind_eq_ok, objectAt_eq_ok, Except.ofOption_eq_ok, textAt_eq_ok, spec_eq_ok,
    spec_iff, Option.filter_eq_some_iff, textMember_eq_some, counter_eq_some, decide_eq_true_eq,
    Except.ok.injEq]
  constructor
  · rintro ⟨object, ⟨rfl, within⟩, id, ⟨id_eq, named, fresh⟩, story, story_as, truth, truth_eq, version,
      version_as, spec, ⟨kind_eq, spec_as⟩, reason, reason_eq, rfl⟩
    exact ⟨⟨⟨object, rfl, within⟩, id_eq, named, story_as, truth_eq, version_as, kind_eq, spec_as, reason_eq⟩,
      fresh⟩
  · rintro ⟨⟨⟨object, rfl, within⟩, id_eq, named, story_as, truth_eq, version_as, kind_eq, spec_as, reason_eq⟩,
      fresh⟩
    exact ⟨object, ⟨rfl, within⟩, _, ⟨id_eq, named, fresh⟩, _, story_as, _, truth_eq, _, version_as, _,
      ⟨kind_eq, spec_as⟩, _, reason_eq, rfl⟩

/-- The items read are those written, no two with one id. -/
theorem read_eq_ok {entries : List Value} {items : List EvidenceItem} :
    read entries = .ok items ↔
      List.Forall₂ ItemAs entries items ∧ (items.map EvidenceItem.id).Nodup := by
  have each := @readEach_eq_ok EvidenceItem String EvidenceItem.id item ItemAs (fun _ _ _ _ => item_eq_ok)
    entries 0 [] items
  refine each.trans ?_
  simp

theorem blankFields_eq_ok {items : List EvidenceItem} :
    blankFields items = .ok () ↔ ∀ item ∈ items, Filled item := by
  refine passEach_eq_ok fun position item => ?_
  unfold blankField Filled
  cases spec_eq : item.spec with
  | check check =>
      have expected_eq : (match check.expected with
          | .literal value => value
          | .property value => value) = (expectedTexts check.expected).2 := by
        cases check.expected <;> rfl
      simp only [expected_eq, Spec.check.injEq, forall_eq']
      split_ifs <;> simp_all
  | _ => simp

/-! ## Refused by the grammar -/

theorem refusedAt_member {α : Type} (path name : String) (option : Option α) :
    RefusedAt 1 (.ofOption (typedAt path name) option) :=
  refusedAt_ofOption rfl option

theorem refusedAt_artifact (path : String) (value : Value) : RefusedAt 1 (artifact path value) := by
  refine (refusedAt_objectAt _ _ _).bind fun spec => ?_
  split_ifs
  · exact refusedAt_error rfl
  · exact (refusedAt_textAt _ _ _).bind fun text => refusedAt_ok _
  · exact (refusedAt_textAt _ _ _).bind fun text => refusedAt_ok _

theorem refusedAt_link (path : String) (value : Value) : RefusedAt 1 (link path value) := by
  refine (refusedAt_objectAt _ _ _).bind fun spec => (refusedAt_textAt _ _ _).bind fun caller => ?_
  exact (refusedAt_textAt _ _ _).bind fun callee => (refusedAt_textAt _ _ _).bind fun value => refusedAt_ok _

theorem refusedAt_observation (path : String) (value : Value) : RefusedAt 1 (observation path value) := by
  refine (refusedAt_objectAt _ _ _).bind fun spec => (refusedAt_textAt _ _ _).bind fun what => ?_
  exact (refusedAt_textAt _ _ _).bind fun by_ => refusedAt_ok _

theorem refusedAt_expected (path : String) (value : Value) : RefusedAt 1 (expected path value) := by
  refine (refusedAt_objectAt _ _ _).bind fun object => ?_
  split
  · exact (refusedAt_textAt _ _ _).bind fun text => refusedAt_ok _
  · exact (refusedAt_textAt _ _ _).bind fun text => refusedAt_ok _
  · exact refusedAt_error rfl

theorem refusedAt_test (path : String) (value : Value) : RefusedAt 1 (test path value) := by
  refine (refusedAt_objectAt _ _ _).bind fun object => (refusedAt_textAt _ _ _).bind fun file => ?_
  exact (refusedAt_textAt _ _ _).bind fun function => refusedAt_ok _

theorem refusedAt_level (path : String) (spec : Members) : RefusedAt 1 (level path spec) := by
  unfold level
  split
  · exact refusedAt_ok _
  · exact refusedAt_ok _
  · exact refusedAt_error rfl

theorem refusedAt_check (path : String) (value : Value) : RefusedAt 1 (check path value) := by
  have at_fakes (error : Option Nat) : (PlanTask.listFault path "fakes" error).step = 1 := by
    cases error <;> rfl
  refine (refusedAt_objectAt _ _ _).bind fun spec => (refusedAt_textAt _ _ _).bind fun command => ?_
  refine (refusedAt_expected _ _).bind fun expected => (refusedAt_test _ _).bind fun test => ?_
  refine (refusedAt_textAt _ _ _).bind fun setup => (refusedAt_textAt _ _ _).bind fun call => ?_
  refine (refusedAt_level _ _).bind fun level => (refusedAt_textAt _ _ _).bind fun boundary => ?_
  exact (refusedAt_mapError at_fakes _).bind fun fakes => refusedAt_ok _

theorem refusedAt_spec (path : String) (kind : Option String) (value : Value) :
    RefusedAt 1 (spec path kind value) := by
  unfold spec
  split
  · exact (refusedAt_artifact _ _).map _
  · exact (refusedAt_link _ _).map _
  · exact (refusedAt_check _ _).map _
  · exact (refusedAt_observation _ _).map _
  · exact refusedAt_error rfl

theorem refusedAt_read (entries : List Value) : RefusedAt 1 (read entries) := by
  refine refusedAt_readEach (fun position seen entry => ?_) entries 0 []
  refine (refusedAt_objectAt _ _ _).bind fun object => (refusedAt_member _ _ _).bind fun id => ?_
  refine (refusedAt_member _ _ _).bind fun story => (refusedAt_textAt _ _ _).bind fun truth => ?_
  refine (refusedAt_member _ _ _).bind fun version => (refusedAt_spec _ _ _).bind fun spec => ?_
  exact (refusedAt_textAt _ _ _).bind fun reason => refusedAt_ok _

theorem refusedAt_blankFields (items : List EvidenceItem) : RefusedAt 4 (blankFields items) := by
  refine refusedAt_passEach (fun position item refusal found => ?_) items 0
  unfold blankField at found
  split at found
  · simp only at found
    split_ifs at found <;> cases found <;> rfl
  · cases found

end Evidence

end Baley
