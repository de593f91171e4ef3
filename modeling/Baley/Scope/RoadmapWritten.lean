import Baley.Projection
import Baley.Scope.Roadmap

/-!
# The roadmap written as a document

Each operation on the entries of the roadmap is what the projector does to the document they are
written as.
-/

namespace Baley.Scope

open Json

/-! ## Written numbers -/

theorem lt_of_le_maxU32 {n : Nat} (fits : n ≤ maxU32) : n < 2 ^ 64 :=
  fits.trans_lt (by decide)

theorem asU64_ofNat_iff {n : Nat} (fits : n ≤ maxU32) (m : Nat) :
    (Value.ofNat m).asU64 = some n ↔ m = n := by
  constructor
  · intro read
    simp only [Value.ofNat, Value.asU64, Value.readU64, Value.readNatural_repr,
      Option.filter_eq_some_iff, Option.some.injEq] at read
    exact read.1
  · rintro rfl
    exact Value.asU64_ofNat (lt_of_le_maxU32 fits)

theorem mapM_asU64 {list : List Nat} (fits : ∀ n ∈ list, n ≤ maxU32) :
    (list.map Value.ofNat).mapM Value.asU64 = some list := by
  induction list with
  | nil => rfl
  | cons n list ih =>
      have head_fits := lt_of_le_maxU32 (fits n List.mem_cons_self)
      rw [List.map_cons, List.mapM_cons, Value.asU64_ofNat head_fits,
        ih fun m m_mem => fits m (List.mem_cons_of_mem _ m_mem)]
      rfl

/-- The numbers an event names fit 32 bits. -/
def ScopeEvent.Fits : ScopeEvent → Prop
  | projectDescribed .. | scopeApproved .. => True
  | storyDeclared id _ _ phase _ | storyReassigned id _ phase _ =>
      id ≤ maxU32 ∧ ∀ number ∈ phase, number ≤ maxU32
  | phaseDeclared number _ _ _ dependsOn stories _ =>
      number ≤ maxU32 ∧ (∀ number ∈ dependsOn, number ≤ maxU32) ∧ ∀ id ∈ stories, id ≤ maxU32
  | phaseReordered order _ | storyReprioritized order _ => ∀ number ∈ order, number ≤ maxU32
  | phaseWithdrawn number _ => number ≤ maxU32
  | storyCorrected id _ _ _ | storyDropped id _ => id ≤ maxU32

/-! ## Written entries -/

namespace HeldPhase

variable (phase : HeldPhase)

theorem holds_number {number : Nat} (fits : number ≤ maxU32) :
    holds phase.toValue "number" number = decide (phase.number = number) := by
  simp [holds, toValue, Members.lookup_ofEntries, Members.lookup_cons, asU64_ofNat_iff fits]

theorem isBelow_number {number : Nat} (fits : number ≤ maxU32) :
    RoadmapProjector.isBelow number phase.toValue = decide (phase.number < number) := by
  have number_eq : phase.toValue.get? "number" = some (.ofNat phase.number) := by
    simp [toValue, Members.lookup_ofEntries, Members.lookup_cons]
  rw [RoadmapProjector.isBelow, number_eq, Option.bind_some]
  by_cases below : phase.number < 2 ^ 64
  · rw [Value.asU64_ofNat below]
    rfl
  · have above : ¬ phase.number < number := fun less =>
      below (less.trans (lt_of_le_maxU32 fits))
    have unread : (Value.ofNat phase.number).asU64 = none := by
      simp only [Value.ofNat, Value.asU64, Value.readU64, Value.readNatural_repr,
        Option.filter_some]
      rw [if_neg (by simpa using below)]
    rw [unread, decide_eq_false above]
    rfl

theorem get?_stories : (phase.toValue.get? "stories").bind Value.asArray =
    some (phase.stories.map Value.ofNat) := by
  simp [toValue, ScopeEvent.numbers, Members.lookup_ofEntries, Members.lookup_cons]

theorem set_stories (stories : List Nat) :
    phase.toValue.set "stories" (ScopeEvent.numbers stories) = { phase with stories }.toValue :=
  Value.set_ofEntries 4 _ rfl (by simp)

theorem serve_toValue {id : Nat} (fits : id ≤ maxU32) :
    RoadmapProjector.serve id phase.toValue = (phase.serve id).toValue := by
  have listed_iff : (phase.stories.map Value.ofNat).any (fun story => story.asU64 = some id) =
      decide (id ∈ phase.stories) := by
    rw [Bool.eq_iff_iff]
    simp [List.any_map, asU64_ofNat_iff fits]
  unfold RoadmapProjector.serve HeldPhase.serve
  rw [get?_stories]
  simp only [listed_iff, decide_eq_true_eq]
  split_ifs
  · rfl
  · simpa [ScopeEvent.numbers] using set_stories phase (phase.stories ++ [id])

theorem unserve_toValue {id : Nat} (fits : id ≤ maxU32) :
    RoadmapProjector.unserveEntry id phase.toValue = (phase.unserve id).toValue := by
  have kept_eq : (phase.stories.map Value.ofNat).filter (fun story => story.asU64 ≠ some id) =
      (phase.stories.filter fun story => story ≠ id).map Value.ofNat := by
    rw [List.filter_map]
    congr 2
    funext story
    simp [asU64_ofNat_iff fits]
  unfold RoadmapProjector.unserveEntry HeldPhase.unserve
  rw [get?_stories]
  simp only [kept_eq]
  exact set_stories phase _

theorem withdraw_toValue :
    phase.toValue.set "status" (.string "withdrawn") = phase.withdraw.toValue :=
  Value.set_ofEntries 5 _ rfl (by simp)

end HeldPhase

namespace StoryEntry

variable (story : StoryEntry)

/-- What a phase declaration does to a value that has a story's id and phase. -/
theorem relist_value {value : Value} (id_eq : value.get? "id" = some (.ofNat story.id))
    (phase_eq : value.get? "phase" = some (ScopeEvent.numberOrNull story.phase)) {number : Nat}
    (fits : number ≤ maxU32) {listed : List Nat} (listed_fits : ∀ id ∈ listed, id ≤ maxU32) :
    RoadmapProjector.relist number listed value =
      if story.id ∈ listed then value.set "phase" (.ofNat number)
      else if story.phase = some number then value.set "phase" .null
      else value := by
  have listed_iff : ((value.get? "id").bind Value.asU64).any listed.contains = true ↔
      story.id ∈ listed := by
    rw [id_eq, Option.bind_some, Option.any_eq_true]
    constructor
    · rintro ⟨id, read, listed_id⟩
      have id_mem := List.contains_iff_mem.mp listed_id
      rwa [(asU64_ofNat_iff (listed_fits id id_mem) story.id).mp read]
    · intro id_mem
      exact ⟨story.id, (asU64_ofNat_iff (listed_fits _ id_mem) _).mpr rfl,
        List.contains_iff_mem.mpr id_mem⟩
  have phase_iff : holds value "phase" number = true ↔ story.phase = some number := by
    rw [holds, phase_eq, Option.bind_some, decide_eq_true_eq]
    cases story.phase with
    | none => simp [ScopeEvent.numberOrNull, Value.asU64]
    | some held => simp [ScopeEvent.numberOrNull, asU64_ofNat_iff fits]
  unfold RoadmapProjector.relist
  simp only [listed_iff, phase_iff]

theorem holds_id {id : Nat} (fits : id ≤ maxU32) :
    holds story.toValue "id" id = decide (story.id = id) := by
  simp [holds, toValue, Members.lookup_ofEntries, Members.lookup_cons, asU64_ofNat_iff fits]

theorem set_phase (phase : Option Nat) :
    story.toValue.set "phase" (ScopeEvent.numberOrNull phase) = { story with phase }.toValue :=
  Value.set_ofEntries 3 _ rfl (by simp)

theorem set_status (status : HeldStatus) :
    story.toValue.set "status" (.string status.asStr) = { story with status }.toValue :=
  Value.set_ofEntries 2 _ rfl (by simp)

theorem set_sentence (sentence : String) :
    story.toValue.set "sentence" (.string sentence) = { story with sentence }.toValue :=
  Value.set_ofEntries 1 _ rfl (by simp)

theorem relist_toValue {number : Nat} (fits : number ≤ maxU32) {listed : List Nat}
    (listed_fits : ∀ id ∈ listed, id ≤ maxU32) :
    RoadmapProjector.relist number listed story.toValue = (story.relist number listed).toValue := by
  rw [relist_value story (by simp [toValue]) (by simp [toValue]) fits listed_fits,
    StoryEntry.relist]
  split_ifs
  · exact story.set_phase (some number)
  · exact story.set_phase none
  · rfl

end StoryEntry

/-! ## The written document -/

namespace Roadmap

variable (roadmap : Roadmap)

theorem entries_phases :
    entries roadmap.toMembers "phases" = some (roadmap.phases.map HeldPhase.toValue) := by
  simp [entries, toMembers, Members.lookup_ofEntries, Members.lookup_cons]

theorem entries_stories :
    entries roadmap.toMembers "stories" = some (roadmap.stories.map StoryEntry.toValue) := by
  simp [entries, toMembers, Members.lookup_ofEntries, Members.lookup_cons]

theorem insert_description (description : Value) :
    roadmap.toMembers.insert "description" description = { roadmap with description }.toMembers :=
  Members.insert_ofEntries 1 _ rfl (by simp)

theorem insert_phases (phases : List HeldPhase) :
    roadmap.toMembers.insert "phases" (.array (phases.map HeldPhase.toValue)) =
      { roadmap with phases }.toMembers :=
  Members.insert_ofEntries 2 _ rfl (by simp)

theorem insert_order (order : List Nat) :
    roadmap.toMembers.insert "order" (ScopeEvent.numbers order) =
      { roadmap with order }.toMembers :=
  Members.insert_ofEntries 3 _ rfl (by simp)

theorem insert_stories (stories : List StoryEntry) :
    roadmap.toMembers.insert "stories" (.array (stories.map StoryEntry.toValue)) =
      { roadmap with stories }.toMembers :=
  Members.insert_ofEntries 4 _ rfl (by simp)

theorem raise_phase (fits : roadmap.highestPhase ≤ maxU32) (number : Nat) :
    RoadmapProjector.raise roadmap.toMembers "highest_phase" number =
      { roadmap with highestPhase := max roadmap.highestPhase number }.toMembers := by
  have held : whole roadmap.toMembers "highest_phase" = some roadmap.highestPhase := by
    simp [whole, toMembers, Members.lookup_ofEntries, Members.lookup_cons,
      Value.asU64_ofNat (lt_of_le_maxU32 fits)]
  rw [RoadmapProjector.raise, held]
  exact Members.insert_ofEntries 5 _ rfl (by simp)

theorem raise_story (fits : roadmap.highestStory ≤ maxU32) (id : Nat) :
    RoadmapProjector.raise roadmap.toMembers "highest_story" id =
      { roadmap with highestStory := max roadmap.highestStory id }.toMembers := by
  have held : whole roadmap.toMembers "highest_story" = some roadmap.highestStory := by
    simp [whole, toMembers, Members.lookup_ofEntries, Members.lookup_cons,
      Value.asU64_ofNat (lt_of_le_maxU32 fits)]
  rw [RoadmapProjector.raise, held]
  exact Members.insert_ofEntries 6 _ rfl (by simp)

theorem modifyPhase_toMembers {number : Nat} (fits : number ≤ maxU32) (change : Value → Value)
    (change' : HeldPhase → HeldPhase)
    (commutes : ∀ phase : HeldPhase, change phase.toValue = (change' phase).toValue) :
    RoadmapProjector.modifyPhase roadmap.toMembers number change =
      (roadmap.modifyPhase number change').map toMembers := by
  have modified := modifyFirst_map HeldPhase.toValue (fun phase => holds phase "number" number)
    change change' roadmap.phases fun phase _ => commutes phase
  simp only [HeldPhase.holds_number _ fits] at modified
  simp only [RoadmapProjector.modifyPhase, entries_phases, Option.bind_eq_bind, Option.bind_some,
    modified, modifyPhase]
  cases modifyFirst (fun phase => decide (phase.number = number)) change' roadmap.phases with
  | none => rfl
  | some phases => exact congrArg some (roadmap.insert_phases phases)

theorem modifyStory_toMembers {id : Nat} (fits : id ≤ maxU32) (change : Value → Value)
    (change' : StoryEntry → StoryEntry)
    (commutes : ∀ story : StoryEntry, change story.toValue = (change' story).toValue) :
    RoadmapProjector.modifyStory roadmap.toMembers id change =
      (roadmap.modifyStory id change').map toMembers := by
  have modified := modifyFirst_map StoryEntry.toValue (fun story => holds story "id" id)
    change change' roadmap.stories fun story _ => commutes story
  simp only [StoryEntry.holds_id _ fits] at modified
  simp only [RoadmapProjector.modifyStory, entries_stories, Option.bind_eq_bind, Option.bind_some,
    modified, modifyStory]
  cases modifyFirst (fun story => decide (story.id = id)) change' roadmap.stories with
  | none => rfl
  | some stories => exact congrArg some (roadmap.insert_stories stories)

theorem unserve_toMembers {id : Nat} (fits : id ≤ maxU32) :
    RoadmapProjector.unserve roadmap.toMembers id = (roadmap.unserve id).toMembers := by
  have written : (roadmap.phases.map HeldPhase.toValue).map (RoadmapProjector.unserveEntry id) =
      (roadmap.phases.map (HeldPhase.unserve id)).map HeldPhase.toValue := by
    rw [List.map_map, List.map_map]
    refine List.map_congr_left fun phase _ => ?_
    rw [Function.comp_apply, Function.comp_apply, phase.unserve_toValue fits]
  rw [RoadmapProjector.unserve, entries_phases]
  simp only [written]
  exact roadmap.insert_phases _

theorem serve_toMembers {number : Nat} (fits : number ≤ maxU32) {id : Nat} (id_fits : id ≤ maxU32) :
    RoadmapProjector.modifyPhase roadmap.toMembers number (RoadmapProjector.serve id) =
      (roadmap.modifyPhase number (HeldPhase.serve id)).map toMembers :=
  roadmap.modifyPhase_toMembers fits _ _ fun phase => phase.serve_toValue id_fits

end Roadmap

/-! ## The projector on the written document -/

theorem phaseOrNull_eq_some {payload : Members} {phase : Option Nat}
    (fits : ∀ number ∈ phase, number ≤ maxU32)
    (found : Members.lookup "phase" payload = some (ScopeEvent.numberOrNull phase)) :
    phaseOrNull payload = some phase := by
  rw [phaseOrNull, whole, found]
  cases phase with
  | none => rfl
  | some number =>
      change ((some (Value.ofNat number)).bind Value.asU64).map some = some (some number)
      rw [Option.bind_some, Value.asU64_ofNat (lt_of_le_maxU32 (fits number rfl))]
      rfl

theorem wholes_eq_some {payload : Members} {name : String} {list : List Nat}
    (fits : ∀ number ∈ list, number ≤ maxU32)
    (found : Members.lookup name payload = some (ScopeEvent.numbers list)) :
    wholes payload name = some list := by
  simp only [wholes, found, ScopeEvent.numbers, Option.bind_eq_bind, Option.bind_some,
    Value.asArray_array]
  exact mapM_asU64 fits

/-! ### What a payload reads back as -/

section Reads

variable {payload : Members} {submission : Hash}

theorem reads_storyDeclared {id : Nat} {sentence : String} {status : StoryStatus}
    {phase : Option Nat}
    (fits : (ScopeEvent.storyDeclared id sentence status phase submission).Fits)
    (payload_eq : (ScopeEvent.storyDeclared id sentence status phase submission).payload =
      .object payload) :
    whole payload "id" = some id ∧ text payload "sentence" = some sentence ∧
      text payload "status" = some status.asStr ∧ phaseOrNull payload = some phase := by
  obtain ⟨id_fits, phase_fits⟩ := fits
  obtain rfl := Value.object.inj payload_eq
  have id_eq := Value.asU64_ofNat (lt_of_le_maxU32 id_fits)
  refine ⟨by simp [whole, id_eq], by simp [text], by simp [text], ?_⟩
  exact phaseOrNull_eq_some phase_fits (by simp)

theorem reads_phaseDeclared {number : Nat} {name goal : String} {detail : PayloadRef}
    {dependsOn stories : List Nat}
    (fits : (ScopeEvent.phaseDeclared number name goal detail dependsOn stories submission).Fits)
    (payload_eq : (ScopeEvent.phaseDeclared number name goal detail dependsOn stories
      submission).payload = .object payload) :
    whole payload "number" = some number ∧ text payload "name" = some name ∧
      text payload "goal" = some goal ∧ wholes payload "depends_on" = some dependsOn ∧
        wholes payload "stories" = some stories := by
  obtain ⟨number_fits, dependsOn_fits, stories_fits⟩ := fits
  obtain rfl := Value.object.inj payload_eq
  have number_eq := Value.asU64_ofNat (lt_of_le_maxU32 number_fits)
  refine ⟨by simp [whole, number_eq], by simp [text], by simp [text], ?_, ?_⟩
  · exact wholes_eq_some dependsOn_fits (by simp)
  · exact wholes_eq_some stories_fits (by simp)

theorem reads_storyReassigned {id : Nat} {status : StoryStatus} {phase : Option Nat}
    (fits : (ScopeEvent.storyReassigned id status phase submission).Fits)
    (payload_eq : (ScopeEvent.storyReassigned id status phase submission).payload =
      .object payload) :
    whole payload "id" = some id ∧ text payload "status" = some status.asStr ∧
      phaseOrNull payload = some phase := by
  obtain ⟨id_fits, phase_fits⟩ := fits
  obtain rfl := Value.object.inj payload_eq
  have id_eq := Value.asU64_ofNat (lt_of_le_maxU32 id_fits)
  refine ⟨by simp [whole, id_eq], by simp [text], ?_⟩
  exact phaseOrNull_eq_some phase_fits (by simp)

theorem reads_storyCorrected {id : Nat} {sentence : String} {status : StoryStatus}
    (fits : id ≤ maxU32)
    (payload_eq : (ScopeEvent.storyCorrected id sentence status submission).payload =
      .object payload) :
    whole payload "id" = some id ∧ text payload "sentence" = some sentence ∧
      text payload "status" = some status.asStr := by
  obtain rfl := Value.object.inj payload_eq
  have id_eq := Value.asU64_ofNat (lt_of_le_maxU32 fits)
  exact ⟨by simp [whole, id_eq], by simp [text], by simp [text]⟩

theorem reads_storyDropped {id : Nat} (fits : id ≤ maxU32)
    (payload_eq : (ScopeEvent.storyDropped id submission).payload = .object payload) :
    whole payload "id" = some id ∧ text payload "status" = some "dropped" := by
  obtain rfl := Value.object.inj payload_eq
  have id_eq := Value.asU64_ofNat (lt_of_le_maxU32 fits)
  exact ⟨by simp [whole, id_eq], by simp [text]⟩

theorem reads_storyReprioritized {order : List Nat} (fits : ∀ id ∈ order, id ≤ maxU32)
    (payload_eq : (ScopeEvent.storyReprioritized order submission).payload = .object payload) :
    wholes payload "order" = some order := by
  obtain rfl := Value.object.inj payload_eq
  exact wholes_eq_some fits (by simp)

theorem reads_phaseReordered {order : List Nat} (fits : ∀ number ∈ order, number ≤ maxU32)
    (payload_eq : (ScopeEvent.phaseReordered order submission).payload = .object payload) :
    wholes payload "order" = some order := by
  obtain rfl := Value.object.inj payload_eq
  exact wholes_eq_some fits (by simp)

theorem reads_phaseWithdrawn {number : Nat} (fits : number ≤ maxU32)
    (payload_eq : (ScopeEvent.phaseWithdrawn number submission).payload = .object payload) :
    whole payload "number" = some number := by
  obtain rfl := Value.object.inj payload_eq
  have number_eq := Value.asU64_ofNat (lt_of_le_maxU32 fits)
  simp [whole, number_eq]

theorem reads_projectDescribed {description : Description}
    (payload_eq : (ScopeEvent.projectDescribed description submission).payload =
      .object payload) :
    text payload "what" = some description.what ∧
      text payload "core_value" = some description.coreValue ∧
      (Members.lookup "constraints" payload).bind asTexts = some description.constraints ∧
      text payload "submission" = some submission.toHex := by
  obtain rfl := Value.object.inj payload_eq
  exact ⟨by simp [text], by simp [text], by simp, by simp [text]⟩

end Reads

namespace RoadmapProjector

variable {roadmap : Roadmap} {event : Event} {payload : Members} {submission : Hash}

theorem storyDeclared_toMembers {id : Nat} {sentence : String} {status : StoryStatus}
    {phase : Option Nat}
    (fits : (ScopeEvent.storyDeclared id sentence status phase submission).Fits)
    (payload_eq : (ScopeEvent.storyDeclared id sentence status phase submission).payload =
      .object payload) (highest_fits : roadmap.highestStory ≤ maxU32) :
    storyDeclared event payload roadmap.toMembers = .ok (roadmap.declareStory
      { id, sentence, status := status.held, phase, truths := 0 }).toMembers := by
  obtain ⟨id_eq, sentence_eq, status_eq, phase_eq⟩ := reads_storyDeclared fits payload_eq
  obtain ⟨id_fits, phase_fits⟩ := fits
  let entry : StoryEntry := { id, sentence, status := status.held, phase, truths := 0 }
  let put : Roadmap :=
    { roadmap with
      stories := putFirst (fun story => story.id = id) (fun _ => entry) roadmap.stories }
  let declared : Roadmap := { put with highestStory := max roadmap.highestStory id }
  have put_eq : putFirst (fun story => holds story "id" id) (fun _ => entry.toValue)
      (roadmap.stories.map StoryEntry.toValue) =
        (putFirst (fun story => story.id = id) (fun _ => entry) roadmap.stories).map
          StoryEntry.toValue := by
    have written := putFirst_map StoryEntry.toValue (fun story => holds story "id" id)
      (fun _ => entry.toValue) (fun _ => entry) (fun _ => rfl) roadmap.stories
    simpa only [StoryEntry.holds_id _ id_fits] using written
  have raised_eq : raise (roadmap.toMembers.insert "stories"
      (.array (putFirst (fun story => holds story "id" id) (fun _ => entry.toValue)
        (roadmap.stories.map StoryEntry.toValue)))) "highest_story" id = declared.toMembers := by
    rw [put_eq, Roadmap.insert_stories]
    exact put.raise_story highest_fits id
  have entry_eq : Value.ofEntries
      [("id", .ofNat id), ("sentence", .string sentence), ("status", .string status.asStr),
        ("phase", ScopeEvent.numberOrNull phase), ("truths", .ofNat 0)] = entry.toValue := by
    rw [← StoryStatus.asStr_held]
    rfl
  simp only [storyDeclared, id_eq, phase_eq, sentence_eq, status_eq, require_some, bind,
    Except.bind, Roadmap.entries_stories, entry_eq, raised_eq]
  change _ = Except.ok ((phase.bind fun number =>
    declared.modifyPhase number (HeldPhase.serve id)).getD declared).toMembers
  cases phase with
  | none => rfl
  | some number =>
      rw [Option.bind_some, Option.bind_some, declared.serve_toMembers (phase_fits number rfl) id_fits]
      cases declared.modifyPhase number (HeldPhase.serve id) <;> rfl

theorem phaseDeclared_toMembers {number : Nat} {name goal : String} {detail : PayloadRef}
    {dependsOn stories : List Nat}
    (fits : (ScopeEvent.phaseDeclared number name goal detail dependsOn stories submission).Fits)
    (payload_eq : (ScopeEvent.phaseDeclared number name goal detail dependsOn stories
      submission).payload = .object payload) (highest_fits : roadmap.highestPhase ≤ maxU32) :
    phaseDeclared event payload roadmap.toMembers = .ok (roadmap.declarePhase
      { number, name, goal, dependsOn, stories, withdrawn := false }).toMembers := by
  obtain ⟨number_eq, name_eq, goal_eq, dependsOn_eq, stories_eq⟩ :=
    reads_phaseDeclared fits payload_eq
  obtain ⟨number_fits, -, stories_fits⟩ := fits
  let entry : HeldPhase := { number, name, goal, dependsOn, stories, withdrawn := false }
  let put : Roadmap :=
    { roadmap with
      phases := putAscending (fun phase => phase.number < number)
        (fun phase => phase.number = number) entry roadmap.phases }
  let declared : Roadmap := { put with highestPhase := max roadmap.highestPhase number }
  have raised_eq : raise (roadmap.toMembers.insert "phases"
      (.array (putAscending (isBelow number) (fun phase => holds phase "number" number)
        entry.toValue (roadmap.phases.map HeldPhase.toValue)))) "highest_phase" number =
        declared.toMembers := by
    rw [putAscending_map]
    simp only [HeldPhase.isBelow_number _ number_fits, HeldPhase.holds_number _ number_fits]
    rw [Roadmap.insert_phases]
    exact put.raise_phase highest_fits number
  have relisted_eq : (declared.stories.map StoryEntry.toValue).map (relist number stories) =
      (declared.stories.map (StoryEntry.relist number stories)).map StoryEntry.toValue := by
    rw [List.map_map, List.map_map]
    refine List.map_congr_left fun story _ => ?_
    rw [Function.comp_apply, Function.comp_apply, story.relist_toValue number_fits stories_fits]
  have entry_eq : Value.ofEntries
      [("number", .ofNat number), ("name", .string name), ("goal", .string goal),
        ("depends_on", ScopeEvent.numbers dependsOn), ("stories", ScopeEvent.numbers stories),
        ("status", .string "declared")] = entry.toValue := rfl
  simp only [phaseDeclared, number_eq, name_eq, goal_eq, dependsOn_eq, stories_eq, require_some,
    bind, Except.bind, Roadmap.entries_phases, entry_eq, raised_eq, Roadmap.entries_stories,
    relisted_eq, Roadmap.insert_stories]
  rfl

theorem storyReassigned_toMembers {id : Nat} {status : StoryStatus} {phase : Option Nat}
    (fits : (ScopeEvent.storyReassigned id status phase submission).Fits)
    (payload_eq : (ScopeEvent.storyReassigned id status phase submission).payload =
      .object payload) {after : Roadmap}
    (moved : roadmap.reassignStory id status.held phase = some after) :
    storyReassigned event payload roadmap.toMembers = .ok after.toMembers := by
  obtain ⟨id_eq, status_eq, phase_eq⟩ := reads_storyReassigned fits payload_eq
  obtain ⟨id_fits, phase_fits⟩ := fits
  obtain ⟨middle, middle_eq, served⟩ := Option.bind_eq_some_iff.mp moved
  have moved_value (story : StoryEntry) :
      (story.toValue.set "status" (.string status.asStr)).set "phase"
        (ScopeEvent.numberOrNull phase) = (story.move status.held phase).toValue := by
    rw [← StoryStatus.asStr_held, StoryEntry.set_status, StoryEntry.set_phase]
    rfl
  have modified := (roadmap.unserve id).modifyStory_toMembers id_fits
    (fun story => (story.set "status" (.string status.asStr)).set "phase"
      (ScopeEvent.numberOrNull phase)) (StoryEntry.move status.held phase) moved_value
  rw [middle_eq, Option.map_some] at modified
  simp only [storyReassigned, id_eq, status_eq, phase_eq, require_some, bind, Except.bind,
    Roadmap.unserve_toMembers _ id_fits, modified, requireStory_some]
  cases phase with
  | none =>
      obtain rfl := Option.some.inj served
      rfl
  | some number =>
      change middle.modifyPhase number (HeldPhase.serve id) = some after at served
      simp only [middle.serve_toMembers (phase_fits number rfl) id_fits, served]
      rfl

theorem storyDropped_toMembers {id : Nat} (fits : id ≤ maxU32)
    (payload_eq : (ScopeEvent.storyDropped id submission).payload = .object payload)
    {after : Roadmap} (moved : roadmap.reassignStory id .dropped none = some after) :
    storyDropped event payload roadmap.toMembers = .ok after.toMembers := by
  obtain ⟨id_eq, status_eq⟩ := reads_storyDropped fits payload_eq
  obtain ⟨middle, middle_eq, served⟩ := Option.bind_eq_some_iff.mp moved
  obtain rfl := Option.some.inj served
  have dropped_value (story : StoryEntry) :
      (story.toValue.set "status" (.string "dropped")).set "phase" .null =
        (story.move .dropped none).toValue := by
    have status_set := story.set_status .dropped
    change story.toValue.set "status" (.string "dropped") = _ at status_set
    rw [status_set]
    exact StoryEntry.set_phase _ none
  have modified := (roadmap.unserve id).modifyStory_toMembers fits
    (fun story => (story.set "status" (.string "dropped")).set "phase" .null)
    (StoryEntry.move .dropped none) dropped_value
  rw [middle_eq, Option.map_some] at modified
  simp only [storyDropped, id_eq, status_eq, require_some, bind, Except.bind,
    Roadmap.unserve_toMembers _ fits, modified, requireStory_some]

theorem storyCorrected_toMembers {id : Nat} {sentence : String} {status : StoryStatus}
    (fits : id ≤ maxU32)
    (payload_eq : (ScopeEvent.storyCorrected id sentence status submission).payload =
      .object payload) {after : Roadmap}
    (corrected : roadmap.modifyStory id (StoryEntry.correct sentence status.held) = some after) :
    storyCorrected event payload roadmap.toMembers = .ok after.toMembers := by
  obtain ⟨id_eq, sentence_eq, status_eq⟩ := reads_storyCorrected fits payload_eq
  have corrected_value (story : StoryEntry) :
      (story.toValue.set "sentence" (.string sentence)).set "status" (.string status.asStr) =
        (story.correct sentence status.held).toValue := by
    rw [← StoryStatus.asStr_held, StoryEntry.set_sentence, StoryEntry.set_status]
    rfl
  have modified := roadmap.modifyStory_toMembers fits
    (fun story => (story.set "sentence" (.string sentence)).set "status" (.string status.asStr))
    (StoryEntry.correct sentence status.held) corrected_value
  rw [corrected, Option.map_some] at modified
  simp only [storyCorrected, id_eq, sentence_eq, status_eq, require_some, bind, Except.bind,
    modified, requireStory_some]

theorem storyReprioritized_toMembers {order : List Nat} (fits : ∀ id ∈ order, id ≤ maxU32)
    (payload_eq : (ScopeEvent.storyReprioritized order submission).payload = .object payload)
    {after : Roadmap} (moved : roadmap.reprioritize order = some after) :
    storyReprioritized event payload roadmap.toMembers = .ok after.toMembers := by
  have order_eq := reads_storyReprioritized fits payload_eq
  obtain ⟨stories, stories_eq, rfl⟩ := Option.map_eq_some_iff.mp moved
  have written : reprioritized (fun story id => holds story "id" id)
      (roadmap.stories.map StoryEntry.toValue) order = some (stories.map StoryEntry.toValue) := by
    have same_named : ∀ id ∈ order, ∀ story : StoryEntry,
        holds story.toValue "id" id = decide (story.id = id) :=
      fun id id_mem story => StoryEntry.holds_id story (fits id id_mem)
    rw [reprioritized_map, reprioritized_congr same_named, stories_eq]
    rfl
  simp only [storyReprioritized, order_eq, require_some, bind, Except.bind,
    Roadmap.entries_stories, written, requireStory_some, Roadmap.insert_stories]

theorem phaseWithdrawn_toMembers {number : Nat} (fits : number ≤ maxU32)
    (payload_eq : (ScopeEvent.phaseWithdrawn number submission).payload = .object payload)
    {after : Roadmap} (withdrawn : roadmap.modifyPhase number HeldPhase.withdraw = some after) :
    phaseWithdrawn event payload roadmap.toMembers = .ok after.toMembers := by
  have number_eq := reads_phaseWithdrawn fits payload_eq
  have modified := roadmap.modifyPhase_toMembers fits
    (fun phase => phase.set "status" (.string "withdrawn")) HeldPhase.withdraw
    HeldPhase.withdraw_toValue
  rw [withdrawn, Option.map_some] at modified
  simp only [phaseWithdrawn, number_eq, require_some, bind, Except.bind, modified]
  rfl

/-- The view takes every scope event but the approval. -/
theorem handles_scopeEvent (scopeEvent : ScopeEvent) :
    roadmapProjector.handles.contains scopeEvent.typeName = true ∨
      scopeEvent.typeName = Scope.scopeApproved := by
  cases scopeEvent with
  | scopeApproved => exact Or.inr rfl
  | _ =>
      simp only [ScopeEvent.typeName]
      exact Or.inl (by decide)

/-- The projector does to the written roadmap what the event does to the roadmap. -/
theorem change_toMembers {scopeEvent : ScopeEvent} (recorded : scopeEvent.RecordedAs event)
    (payload_eq : event.payload = .object payload) (fits : scopeEvent.Fits)
    (phase_fits : roadmap.highestPhase ≤ maxU32) (story_fits : roadmap.highestStory ≤ maxU32)
    (handled : scopeEvent.typeName ≠ Scope.scopeApproved) {after : Roadmap}
    (applied : roadmap.apply scopeEvent = some after) :
    change event payload roadmap.toMembers = .ok after.toMembers := by
  obtain ⟨typeName_eq, recorded_payload⟩ := recorded
  rw [recorded_payload] at payload_eq
  cases scopeEvent <;> simp only [ScopeEvent.typeName] at typeName_eq
  case scopeApproved => exact absurd rfl handled
  case projectDescribed description submission =>
      obtain ⟨what_eq, coreValue_eq, constraints_eq, submission_eq⟩ :=
        reads_projectDescribed payload_eq
      obtain rfl := Option.some.inj applied
      rw [change, typeName_eq, if_pos rfl]
      simp only [projectDescribed, what_eq, coreValue_eq, constraints_eq, submission_eq,
        require_some, bind, Except.bind, Roadmap.insert_description]
      rfl
  case storyDeclared id sentence status phase submission =>
      obtain rfl := Option.some.inj applied
      rw [change, typeName_eq, if_neg (by decide), if_pos rfl]
      exact storyDeclared_toMembers fits payload_eq story_fits
  case phaseDeclared number name goal detail dependsOn stories submission =>
      obtain rfl := Option.some.inj applied
      rw [change, typeName_eq, if_neg (by decide), if_neg (by decide), if_pos rfl]
      exact phaseDeclared_toMembers fits payload_eq phase_fits
  case phaseReordered order submission =>
      obtain rfl := Option.some.inj applied
      rw [change, typeName_eq, if_neg (by decide), if_neg (by decide), if_neg (by decide),
        if_pos rfl]
      simp only [phaseReordered, reads_phaseReordered fits payload_eq, require_some, bind,
        Except.bind, Roadmap.insert_order]
  case phaseWithdrawn number submission =>
      rw [change, typeName_eq, if_neg (by decide), if_neg (by decide), if_neg (by decide),
        if_neg (by decide), if_pos rfl]
      exact phaseWithdrawn_toMembers fits payload_eq applied
  case storyCorrected id sentence status submission =>
      rw [change, typeName_eq, if_neg (by decide), if_neg (by decide), if_neg (by decide),
        if_neg (by decide), if_neg (by decide), if_pos rfl]
      exact storyCorrected_toMembers fits payload_eq applied
  case storyReassigned id status phase submission =>
      rw [change, typeName_eq, if_neg (by decide), if_neg (by decide), if_neg (by decide),
        if_neg (by decide), if_neg (by decide), if_neg (by decide), if_pos rfl]
      exact storyReassigned_toMembers fits payload_eq applied
  case storyDropped id submission =>
      rw [change, typeName_eq, if_neg (by decide), if_neg (by decide), if_neg (by decide),
        if_neg (by decide), if_neg (by decide), if_neg (by decide), if_neg (by decide), if_pos rfl]
      exact storyDropped_toMembers fits payload_eq applied
  case storyReprioritized order submission =>
      rw [change, typeName_eq, if_neg (by decide), if_neg (by decide), if_neg (by decide),
        if_neg (by decide), if_neg (by decide), if_neg (by decide), if_neg (by decide),
        if_neg (by decide), if_pos rfl]
      exact storyReprioritized_toMembers fits payload_eq applied

/-- The documents hold the roadmap: none while it is empty. -/
def Holds (documents : Table DocKey Value) (roadmap : Roadmap) : Prop :=
  (documents.lookup roadmapKey = none ∧ roadmap = .empty) ∨
    documents.lookup roadmapKey = some (.object roadmap.toMembers)

/-- Folding a scope event keeps the documents holding the roadmap. -/
theorem project_recorded {documents : Table DocKey Value} {after : Roadmap}
    (held : Holds documents roadmap) {scopeEvent : ScopeEvent}
    (recorded : scopeEvent.RecordedAs event) (fits : scopeEvent.Fits)
    (phase_fits : roadmap.highestPhase ≤ maxU32) (story_fits : roadmap.highestStory ≤ maxU32)
    (applied : roadmap.apply scopeEvent = some after) :
    ∃ documents', roadmapProjector.project documents event = .ok documents' ∧
      Holds documents' after := by
  rcases handles_scopeEvent scopeEvent with handled | approval
  · have not_approved : scopeEvent.typeName ≠ Scope.scopeApproved := by
      intro typeName_eq
      rw [typeName_eq] at handled
      cases handled
    obtain ⟨payload, payload_eq⟩ : ∃ payload, event.payload = .object payload := by
      rw [recorded.2]
      cases scopeEvent <;> exact ⟨_, rfl⟩
    have changed := change_toMembers recorded payload_eq fits phase_fits story_fits not_approved
      applied
    refine ⟨documents.insert roadmapKey (.object after.toMembers), ?_,
      Or.inr (AList.lookup_insert documents)⟩
    refine Projector.project_put (recorded.1 ▸ handled) rfl ?_
    rcases held with ⟨none_held, rfl⟩ | held
    · rw [none_held]
      simp only [roadmapProjector, apply, payload_eq, Option.toList_none, List.map_nil, given,
        ← Roadmap.toMembers_empty, Value.asObject_object, Except.ofOption, bind, Except.bind,
        changed]
    · rw [held]
      simp only [roadmapProjector, apply, payload_eq, Option.toList_some, List.map_cons,
        List.map_nil, given, Value.asObject_object, Except.ofOption, bind, Except.bind, changed]
  · have unhandled : roadmapProjector.handles.contains event.typeName = false := by
      rw [recorded.1, approval]
      decide
    have same : after = roadmap := by
      cases scopeEvent with
      | scopeApproved => exact (Option.some.inj applied).symm
      | _ =>
          simp only [ScopeEvent.typeName] at approval
          exact absurd approval (by decide)
    exact ⟨documents, by rw [Projector.project, unhandled]; rfl, same ▸ held⟩

end RoadmapProjector

end Baley.Scope
