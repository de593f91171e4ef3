import Baley.Scope.Backlog

/-!
# The backlog written as a document

Each operation on the entries of the backlog is what the projector does to the document they are
written as.
-/

namespace Baley.Scope

open Json

namespace BacklogStory

variable (story : BacklogStory)

theorem holds_id {id : Nat} (fits : id ≤ maxU32) :
    holds story.toValue "id" id = decide (story.entry.id = id) := by
  simp [holds, toValue, asU64_ofNat_iff fits]

theorem set_phase (phase : Option Nat) :
    story.toValue.set "phase" (ScopeEvent.numberOrNull phase) =
      (story.modify fun entry => { entry with phase }).toValue :=
  Value.set_ofEntries 3 _ rfl (by simp)

theorem set_status (status : HeldStatus) :
    story.toValue.set "status" (.string status.asStr) =
      (story.modify fun entry => { entry with status }).toValue :=
  Value.set_ofEntries 2 _ rfl (by simp)

theorem set_sentence (sentence : String) :
    story.toValue.set "sentence" (.string sentence) =
      (story.modify fun entry => { entry with sentence }).toValue :=
  Value.set_ofEntries 1 _ rfl (by simp)

theorem move_toValue (status : HeldStatus) (phase : Option Nat) :
    (story.toValue.set "status" (.string status.asStr)).set "phase"
      (ScopeEvent.numberOrNull phase) = (story.modify (StoryEntry.move status phase)).toValue := by
  rw [set_status, set_phase]
  rfl

theorem drop_toValue : (story.toValue.set "status" (.string "dropped")).set "phase" .null =
    (story.modify (StoryEntry.move .dropped none)).toValue := by
  have moved := story.move_toValue .dropped none
  simp only [HeldStatus.asStr, ScopeEvent.numberOrNull] at moved
  exact moved

theorem correct_toValue (sentence : String) (status : HeldStatus) :
    (story.toValue.set "sentence" (.string sentence)).set "status" (.string status.asStr) =
      (story.modify (StoryEntry.correct sentence status)).toValue := by
  rw [set_sentence, set_status]
  rfl

theorem relist_toValue {number : Nat} (fits : number ≤ maxU32) {listed : List Nat}
    (listed_fits : ∀ id ∈ listed, id ≤ maxU32) :
    RoadmapProjector.relist number listed story.toValue =
      (story.modify (StoryEntry.relist number listed)).toValue := by
  rw [story.entry.relist_value (by simp [toValue]) (by simp [toValue]) fits listed_fits, modify,
    StoryEntry.relist]
  split_ifs
  · exact story.set_phase (some number)
  · exact story.set_phase none
  · rfl

theorem keepPlans_toValue (entry : StoryEntry) (held : Option BacklogStory) :
    BacklogProjector.keepPlans (declared entry).toValue (held.map toValue) =
      (keepPlans entry held).toValue := by
  cases held with
  | none => rfl
  | some held =>
      have plans_eq : held.toValue.get? "plans" = some (.array held.plans) := by simp [toValue]
      have size_eq : held.toValue.get? "size" = some held.size := by simp [toValue]
      have put_plans : (declared entry).toValue.set "plans" (.array held.plans) =
          { declared entry with plans := held.plans }.toValue :=
        Value.set_ofEntries 7 _ rfl (by simp)
      rw [Option.map_some, BacklogProjector.keepPlans, plans_eq, size_eq, Option.getD_some,
        Option.getD_some, put_plans]
      exact Value.set_ofEntries 8 _ rfl (by simp)

end BacklogStory

/-! ## The projector on the written document -/

namespace BacklogProjector

variable {stories : List BacklogStory} {event : Event} {payload : Members}

theorem whole_eq (payload_eq : event.payload = .object payload) {name : String} {number : Nat}
    (read : Scope.whole payload name = some number) : whole event name = .ok number := by
  rw [whole, payload_eq, Value.get?_object, ← Scope.whole, read]
  rfl

theorem text_eq (payload_eq : event.payload = .object payload) {name text' : String}
    (read : Scope.text payload name = some text') : text event name = .ok text' := by
  rw [text, textOf, payload_eq, Value.get?_object, ← Scope.text, read]
  rfl

theorem wholes_eq (payload_eq : event.payload = .object payload) {name : String} {list : List Nat}
    (read : Scope.wholes payload name = some list) : wholes event name = .ok list := by
  rw [wholes, payload_eq, Value.get?_object]
  change Scope.require event (Scope.wholes payload name) = _
  rw [read]
  rfl

theorem phase_eq (payload_eq : event.payload = .object payload) {number : Option Nat}
    (read : phaseOrNull payload = some number) : phase event = .ok number := by
  rw [phase, payload_eq, Value.get?_object]
  unfold phaseOrNull Scope.whole at read
  cases found : Members.lookup "phase" payload with
  | none => simp [found] at read
  | some value =>
      rw [found] at read
      cases value with
      | null =>
          obtain rfl := Option.some.inj read
          rfl
      | _ =>
          rw [Option.bind_some]
          simp only [Option.bind_some] at read ⊢
          rw [read]
          rfl

theorem modifyStory_toValue {id : Nat} (fits : id ≤ maxU32) (change : Value → Value)
    (change' : StoryEntry → StoryEntry)
    (commutes : ∀ story : BacklogStory, change story.toValue = (story.modify change').toValue)
    {stories' : List BacklogStory} (modified : Backlog.modifyStory stories id change' = some stories') :
    modifyStory event (stories.map BacklogStory.toValue) id change =
      .ok (stories'.map BacklogStory.toValue) := by
  have written := modifyFirst_map BacklogStory.toValue (fun story => holds story "id" id) change
    (BacklogStory.modify change') stories fun story _ => commutes story
  simp only [BacklogStory.holds_id _ fits] at written
  rw [modifyStory, written, ← Backlog.modifyStory, modified]
  rfl

theorem apply_of_unhandled {scopeEvent : ScopeEvent}
    (unhandled : backlogProjector.handles.contains scopeEvent.typeName = false) :
    Backlog.apply stories scopeEvent = some stories := by
  cases scopeEvent <;> simp only [ScopeEvent.typeName] at unhandled
  case projectDescribed | phaseReordered | phaseWithdrawn | scopeApproved => rfl
  all_goals exact absurd unhandled (by decide)

/-- The projector does to the written stories what the event does to the stories. -/
theorem change_toValue {scopeEvent : ScopeEvent} (recorded : scopeEvent.RecordedAs event)
    (payload_eq : event.payload = .object payload) (fits : scopeEvent.Fits)
    (handled : backlogProjector.handles.contains scopeEvent.typeName = true)
    {stories' : List BacklogStory} (applied : Backlog.apply stories scopeEvent = some stories') :
    change event (stories.map BacklogStory.toValue) = .ok (stories'.map BacklogStory.toValue) := by
  obtain ⟨typeName_eq, recorded_payload⟩ := recorded
  have read_eq := payload_eq
  rw [recorded_payload] at read_eq
  cases scopeEvent <;> simp only [ScopeEvent.typeName] at typeName_eq handled
  case projectDescribed | phaseReordered | phaseWithdrawn | scopeApproved =>
    exact absurd handled (by decide)
  case storyDeclared id sentence status phase submission =>
      obtain ⟨id_read, sentence_read, status_read, phase_read⟩ := reads_storyDeclared fits read_eq
      obtain rfl := Option.some.inj applied
      let entry : StoryEntry := { id, sentence, status := status.held, phase, truths := 0 }
      have entry_eq : Value.ofEntries
          [("id", .ofNat id), ("sentence", .string sentence), ("status", .string status.asStr),
            ("phase", ScopeEvent.numberOrNull phase), ("set", .null), ("refined", .null),
            ("truths", .ofNat 0), ("plans", .array []), ("size", .null)] =
          (BacklogStory.declared entry).toValue := by
        rw [← StoryStatus.asStr_held]
        rfl
      have written := putFirst_map BacklogStory.toValue (fun story => holds story "id" id)
        (keepPlans (BacklogStory.declared entry).toValue) (BacklogStory.keepPlans entry)
        (BacklogStory.keepPlans_toValue entry) stories
      simp only [BacklogStory.holds_id _ fits.1] at written
      rw [change, typeName_eq, if_pos rfl]
      simp only [storyDeclared, whole_eq payload_eq id_read, text_eq payload_eq sentence_read,
        text_eq payload_eq status_read, phase_eq payload_eq phase_read, bind, Except.bind, entry_eq,
        written]
      rfl
  case phaseDeclared number name goal detail dependsOn listed submission =>
      obtain ⟨number_read, -, -, -, listed_read⟩ := reads_phaseDeclared fits read_eq
      obtain ⟨number_fits, -, listed_fits⟩ := fits
      obtain rfl := Option.some.inj applied
      have written : (stories.map BacklogStory.toValue).map (RoadmapProjector.relist number listed) =
          (stories.map (BacklogStory.modify (StoryEntry.relist number listed))).map
            BacklogStory.toValue := by
        rw [List.map_map, List.map_map]
        refine List.map_congr_left fun story _ => ?_
        rw [Function.comp_apply, Function.comp_apply, story.relist_toValue number_fits listed_fits]
      rw [change, typeName_eq, if_neg (by decide), if_pos rfl]
      simp only [phaseDeclared, whole_eq payload_eq number_read, wholes_eq payload_eq listed_read,
        bind, Except.bind, written]
  case storyCorrected id sentence status submission =>
      obtain ⟨id_read, sentence_read, status_read⟩ := reads_storyCorrected fits read_eq
      rw [change, typeName_eq, if_neg (by decide), if_neg (by decide), if_pos rfl]
      simp only [storyCorrected, whole_eq payload_eq id_read, text_eq payload_eq sentence_read,
        text_eq payload_eq status_read, bind, Except.bind]
      refine modifyStory_toValue fits _ _ (fun story => ?_) applied
      rw [← StoryStatus.asStr_held]
      exact story.correct_toValue sentence status.held
  case storyReassigned id status phase submission =>
      obtain ⟨id_read, status_read, phase_read⟩ := reads_storyReassigned fits read_eq
      rw [change, typeName_eq, if_neg (by decide), if_neg (by decide), if_neg (by decide),
        if_pos rfl]
      simp only [storyReassigned, whole_eq payload_eq id_read, text_eq payload_eq status_read,
        phase_eq payload_eq phase_read, bind, Except.bind]
      refine modifyStory_toValue fits.1 _ _ (fun story => ?_) applied
      rw [← StoryStatus.asStr_held]
      exact story.move_toValue status.held phase
  case storyDropped id submission =>
      obtain ⟨id_read, status_read⟩ := reads_storyDropped fits read_eq
      rw [change, typeName_eq, if_neg (by decide), if_neg (by decide), if_neg (by decide),
        if_neg (by decide), if_pos rfl]
      simp only [storyDropped, whole_eq payload_eq id_read, text_eq payload_eq status_read, bind,
        Except.bind]
      refine modifyStory_toValue fits _ _ (fun story => ?_) applied
      exact story.drop_toValue
  case storyReprioritized order submission =>
      have order_read := reads_storyReprioritized fits read_eq
      have written : reprioritized (fun story id => holds story "id" id)
          (stories.map BacklogStory.toValue) order = some (stories'.map BacklogStory.toValue) := by
        rw [reprioritized_map, reprioritized_congr
          fun id id_mem story => BacklogStory.holds_id story (fits id id_mem)]
        exact congrArg (Option.map (List.map BacklogStory.toValue)) applied
      rw [change, typeName_eq, if_neg (by decide), if_neg (by decide), if_neg (by decide),
        if_neg (by decide), if_neg (by decide), if_pos rfl]
      simp only [storyReprioritized, wholes_eq payload_eq order_read, bind, Except.bind, written,
        requireStory_some]

/-- The documents hold the backlog: none while it is empty. -/
def Holds (documents : Table DocKey Value) (stories : List BacklogStory) : Prop :=
  (documents.lookup backlogKey = none ∧ stories = []) ∨
    documents.lookup backlogKey = some (document (stories.map BacklogStory.toValue))

/-- Folding a scope event keeps the documents holding the backlog. -/
theorem project_recorded {documents : Table DocKey Value} (held : Holds documents stories)
    {scopeEvent : ScopeEvent} (recorded : scopeEvent.RecordedAs event) (fits : scopeEvent.Fits)
    {stories' : List BacklogStory} (applied : Backlog.apply stories scopeEvent = some stories') :
    ∃ documents', backlogProjector.project documents event = .ok documents' ∧
      Holds documents' stories' := by
  cases handled : backlogProjector.handles.contains scopeEvent.typeName with
  | false =>
      have same := (apply_of_unhandled handled).symm.trans applied
      refine ⟨documents, ?_, Option.some.inj same ▸ held⟩
      rw [Projector.project, recorded.1, handled]
      rfl
  | true =>
      obtain ⟨payload, payload_eq⟩ : ∃ payload, event.payload = .object payload := by
        rw [recorded.2]
        cases scopeEvent <;> exact ⟨_, rfl⟩
      have changed := change_toValue recorded payload_eq fits handled applied
      have not_questions : event.typeName ≠ Baley.questionsOpened := by
        rw [recorded.1]
        cases scopeEvent <;> simp only [ScopeEvent.typeName] <;> decide
      have passes : passesBy event = .ok false := if_neg not_questions
      refine ⟨documents.insert backlogKey (document (stories'.map BacklogStory.toValue)), ?_,
        Or.inr (AList.lookup_insert documents)⟩
      refine Projector.project_put (recorded.1 ▸ handled) rfl ?_
      rcases held with ⟨none_held, rfl⟩ | held
      · have changed_empty : change event [] = .ok (stories'.map BacklogStory.toValue) := changed
        rw [none_held]
        simp only [backlogProjector, apply, passes, bind, Except.bind, Option.toList_none,
          List.map_nil, given, changed_empty]
        rfl
      · have given_eq : given event
            [(backlogKey, document (stories.map BacklogStory.toValue))] =
              .ok (stories.map BacklogStory.toValue) := by
          simp [given, document, Except.ofOption]
        rw [held]
        simp only [backlogProjector, apply, passes, bind, Except.bind, Option.toList_some,
          List.map_cons, List.map_nil, given_eq, changed]
        rfl

end BacklogProjector

end Baley.Scope
