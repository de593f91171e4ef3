import Baley.Scope.Judged
import Baley.Scope.RoadmapWritten

/-!
# What an accepted change does

The events of each kind of change, taken by the roadmap it was judged against.
-/

namespace Baley.Scope

open Relation

namespace Roadmap

/-- The roadmap takes events whose numbers fit. -/
structure Takes (roadmap : Roadmap) (events : List ScopeEvent) (after : Roadmap) : Prop where
  applied : roadmap.applyAll events = some after
  fits : ∀ event ∈ events, event.Fits

variable {roadmap after : Roadmap}

theorem takes_nil : roadmap.Takes [] roadmap :=
  ⟨rfl, by simp⟩

theorem Takes.cons {event : ScopeEvent} {events : List ScopeEvent} {middle : Roadmap}
    (applied : roadmap.apply event = some middle) (fits : event.Fits)
    (rest : middle.Takes events after) : roadmap.Takes (event :: events) after := by
  constructor
  · rw [applyAll, List.foldlM_cons, applied]
    exact rest.applied
  · intro other other_mem
    rcases List.mem_cons.mp other_mem with rfl | other_mem
    · exact fits
    · exact rest.fits other other_mem

theorem takes_one {event : ScopeEvent} (applied : roadmap.apply event = some after)
    (fits : event.Fits) : roadmap.Takes [event] after :=
  takes_nil.cons applied fits

theorem Takes.append {first second : List ScopeEvent} {middle : Roadmap}
    (takes : roadmap.Takes first middle) (rest : middle.Takes second after) :
    roadmap.Takes (first ++ second) after := by
  constructor
  · rw [applyAll, List.foldlM_append]
    exact Option.bind_eq_some_iff.mpr ⟨middle, takes.applied, rest.applied⟩
  · intro event event_mem
    exact (List.mem_append.mp event_mem).elim (takes.fits event) (rest.fits event)

/-! ## Numbers -/

theorem nextNumbers_one {highest : Nat} {numbers : List Nat}
    (given : nextNumbers highest 1 = .ok numbers) :
    numbers = [highest + 1] ∧ highest + 1 ≤ maxU32 := by
  simp only [nextNumbers, List.range'_one, List.mapM_cons, List.mapM_nil, Except.bind_eq_ok,
    Except.require_eq_ok, Except.ok.injEq, pure, Except.pure] at given
  obtain ⟨_, ⟨_, fits, rfl⟩, _, rfl, rfl⟩ := given
  exact ⟨rfl, fits⟩

/-! ## Stories of a declared phase -/

/-- A declaration of a phase leaves every story's id and status. -/
theorem final_kept_declarePhase (entry : HeldPhase) :
    ∀ story ∈ roadmap.stories, story.status.Final →
      ∃ other ∈ (roadmap.declarePhase entry).stories,
        other.id = story.id ∧ other.status = story.status := by
  intro story story_mem _
  exact ⟨_, List.mem_map_of_mem story_mem, story.id_relist entry.number entry.stories,
    story.status_relist entry.number entry.stories⟩

theorem ids_declarePhase (entry : HeldPhase) :
    ((roadmap.declarePhase entry).stories.map StoryEntry.id).Perm
      (roadmap.stories.map StoryEntry.id ++ []) := by
  rw [List.append_nil, declarePhase, List.map_map]
  exact List.Perm.of_eq (List.map_congr_left fun story _ =>
    story.id_relist entry.number entry.stories)

variable (consistent : Consistent roadmap)

include consistent

theorem Consistent.fresh_number : ¬ roadmap.Declared (roadmap.highestPhase + 1) := by
  rintro ⟨phase, phase_mem, number_eq, -⟩
  have numbered := consistent.serving.phase_numbered phase phase_mem
  omega

/-! ## Stories -/

theorem step_storyCorrected {story : StoryEntry} (story_mem : story ∈ roadmap.stories)
    (sentence : String) {status : StoryStatus} (status_eq : status.held = story.status)
    (submission : Hash) :
    ∃ after, roadmap.Takes [.storyCorrected story.id sentence status submission] after ∧
      Step roadmap [] [] after := by
  have applied : roadmap.apply (.storyCorrected story.id sentence status submission) =
      some { roadmap with
        stories := roadmap.stories.map
          (StoryEntry.only story.id (StoryEntry.correct sentence story.status)) } := by
    rw [← status_eq]
    exact modifyStory_eq roadmap consistent.serving.stories_distinct ⟨story, story_mem, rfl⟩
      (StoryEntry.correct sentence status.held)
  refine ⟨_, takes_one applied (consistent.id_fits story_mem), ?_⟩
  refine Step.of_stories consistent ?_ ?_ (consistent.serving.correct story_mem sentence) ?_ ?_
    List.Pairwise.nil (by simp)
  · rfl
  · rfl
  · refine Step.final_kept_only rfl fun other other_mem same _ => ⟨rfl, ?_⟩
    rw [consistent.serving.story_eq other_mem story_mem same]
    rfl
  · rw [List.append_nil, List.map_map]
    refine List.Perm.of_eq (List.map_congr_left fun other _ => ?_)
    rw [Function.comp_apply, StoryEntry.only]
    split_ifs <;> rfl

theorem step_reassign {story : StoryEntry} (story_mem : story ∈ roadmap.stories)
    (served : ¬ story.status.Final) {status : HeldStatus} {destination : Option Nat}
    (held : ∀ number ∈ destination, roadmap.Declared number)
    (active : destination ≠ none → status = .active) :
    roadmap.reassignStory story.id status destination =
        some (roadmap.reassigned story.id status destination) ∧
      Step roadmap [] [] (roadmap.reassigned story.id status destination) := by
  have known : ∃ other ∈ roadmap.stories, other.id = story.id := ⟨story, story_mem, rfl⟩
  constructor
  · refine reassignStory_eq roadmap consistent.serving.numbers_nodup
      consistent.serving.stories_distinct known status fun number goes => ?_
    obtain ⟨phase, phase_mem, number_eq, -⟩ := held number goes
    exact ⟨phase, phase_mem, number_eq⟩
  · refine Step.of_stories consistent (outlines_reassigned roadmap story.id status destination) rfl
      (consistent.serving.reassign known held active) ?_ ?_ List.Pairwise.nil (by simp)
    · refine Step.final_kept_only rfl fun other other_mem same final => ?_
      rw [consistent.serving.story_eq other_mem story_mem same] at final
      exact absurd final served
    · rw [List.append_nil, reassigned, List.map_map]
      exact List.Perm.of_eq (List.map_congr_left fun other _ =>
        other.id_only_move story.id status destination)

theorem step_storyDeclared (sentence : String) {status : StoryStatus} {phase : Option Nat}
    (held : ∀ number ∈ phase, roadmap.Declared number)
    (active : phase ≠ none → status = .active) (fits : roadmap.highestStory + 1 ≤ maxU32)
    (submission : Hash) :
    ∃ after,
      roadmap.Takes [.storyDeclared (roadmap.highestStory + 1) sentence status phase submission]
        after ∧
      Step roadmap [] [roadmap.highestStory + 1] after := by
  let entry : StoryEntry :=
    { id := roadmap.highestStory + 1, sentence, status := status.held, phase, truths := 0 }
  have declared_eq : roadmap.declareStory entry = _ :=
    consistent.serving.declareStory_eq rfl held
  have appended : Serving [] (roadmap.appendStory { entry with phase := none }) :=
    consistent.serving.append rfl fits rfl
  have known : ∃ story ∈ roadmap.stories ++ [{ entry with phase := none }], story.id = entry.id :=
    ⟨_, List.mem_append_right _ List.mem_cons_self, rfl⟩
  have entry_active : phase ≠ none → entry.status = .active := by
    intro goes
    change status.held = .active
    rw [active goes]
    rfl
  have serving := appended.reassign known held entry_active
  refine ⟨roadmap.declareStory entry, takes_one rfl ?_, ?_⟩
  · exact ⟨fits, fun number goes => consistent.declared_fits (held number goes)⟩
  · rw [declared_eq]
    refine Step.of_stories consistent ?_ ?_ serving ?_ ?_ (List.pairwise_singleton _ _) (by simp)
    · exact outlines_reassigned _ entry.id entry.status entry.phase
    · rfl
    · intro story story_mem _
      have numbered := consistent.serving.story_numbered story story_mem
      refine ⟨story.only entry.id (StoryEntry.move entry.status entry.phase),
        List.mem_map_of_mem (List.mem_append_left _ story_mem), ?_⟩
      have other_story : story.id ≠ entry.id := by
        change story.id ≠ roadmap.highestStory + 1
        omega
      rw [StoryEntry.only, if_neg other_story]
      exact ⟨rfl, rfl⟩
    · rw [reassigned, appendStory, List.map_map, List.map_append, List.map_singleton]
      refine List.Perm.of_eq (congrArg₂ _ (List.map_congr_left fun story _ => ?_) ?_)
      · exact story.id_only_move entry.id entry.status entry.phase
      · exact congrArg (fun id => [id]) (StoryEntry.id_only_move entry.id entry.status entry.phase _)

theorem step_storyReprioritized {order : List Nat} (distinct : order.Nodup)
    (known : ∀ id ∈ order, id ∈ roadmap.stories.map StoryEntry.id) (submission : Hash) :
    ∃ after, roadmap.Takes [.storyReprioritized order submission] after ∧
      Step roadmap [] [] after := by
  obtain ⟨stories, stories_eq⟩ := Option.isSome_iff_exists.mp (reprioritized_isSome distinct known)
  have moved : roadmap.reprioritize order = some { roadmap with stories } := by
    rw [reprioritize, stories_eq]
    rfl
  have perm := perm_of_reprioritized stories_eq
  refine ⟨{ roadmap with stories }, takes_one moved ?_, ?_⟩
  · intro id id_mem
    obtain ⟨story, story_mem, rfl⟩ := List.mem_map.mp (known id id_mem)
    exact consistent.id_fits story_mem
  · refine Step.of_stories consistent ?_ ?_ (consistent.serving.reprioritize moved) ?_ ?_
      List.Pairwise.nil (by simp)
    · rfl
    · rfl
    · exact fun story story_mem _ => ⟨story, perm.mem_iff.mpr story_mem, rfl, rfl⟩
    · rw [List.append_nil]
      exact perm.map _

/-! ## Phases -/

theorem step_phaseDeclared (name goal : String) (detail : PayloadRef) {dependsOn stories : List Nat}
    (distinct : stories.Nodup) (fits : roadmap.highestPhase + 1 ≤ maxU32)
    (members_judged : judgeMembers roadmap.accepted dependsOn stories none = .ok ())
    {index : Nat} (inside : index ≤ roadmap.order.length)
    (placed : placedAfter (roadmap.order.insertIdx index (roadmap.highestPhase + 1))
      (roadmap.highestPhase + 1) dependsOn = .ok ()) (submission : Hash) :
    ∃ after, roadmap.Takes
        [.phaseDeclared (roadmap.highestPhase + 1) name goal detail dependsOn stories submission,
          .phaseReordered (roadmap.order.insertIdx index (roadmap.highestPhase + 1)) submission]
        after ∧
      Step roadmap [roadmap.highestPhase + 1] [] after := by
  obtain ⟨depends_declared, stories_active⟩ := of_judgeMembers consistent members_judged
  have fresh := consistent.fresh_number
  have ascending := consistent.serving.phases_ascending
  let entry : HeldPhase :=
    { number := roadmap.highestPhase + 1, name, goal, dependsOn, stories, withdrawn := false }
  have serving : Serving [] (roadmap.declarePhase entry) := by
    refine consistent.serving.declarePhase (Or.inl ⟨rfl, fits⟩) rfl distinct fun id id_mem => ?_
    obtain ⟨story, story_mem, id_eq, active, free⟩ := stories_active id id_mem
    exact ⟨story, story_mem, id_eq, active, Or.inl (free.elim (fun free => free) fun free => free)⟩
  have depending : Depending (roadmap.declarePhase entry) :=
    consistent.depending.declareNew ascending rfl fresh depends_declared
  have ordered : Ordered { roadmap.declarePhase entry with
      order := roadmap.order.insertIdx index entry.number } :=
    consistent.ordered.declareNew ascending rfl fresh inside
  refine ⟨{ roadmap.declarePhase entry with
    order := roadmap.order.insertIdx index entry.number },
    Takes.cons (show roadmap.apply _ = some (roadmap.declarePhase entry) from rfl) ?_
      (takes_one rfl ?_), ?_⟩
  · refine ⟨fits, fun number depends => consistent.declared_fits (depends_declared number depends),
      fun id id_mem => ?_⟩
    obtain ⟨story, story_mem, rfl, -⟩ := stories_active id id_mem
    exact consistent.id_fits story_mem
  · intro number number_mem
    rcases (List.mem_insertIdx inside).mp number_mem with rfl | number_mem
    · exact fits
    · exact consistent.declared_fits ((consistent.ordered.mem_order number).mp number_mem)
  · exact
      { consistent := ⟨{ serving with }, { depending with }, ordered⟩
        final_kept := final_kept_declarePhase entry
        numbers_handed := by
          have greatest : ∀ phase ∈ roadmap.phases, phase.number < entry.number :=
            fun phase phase_mem => consistent.serving.lt_of_highestPhase phase_mem (Nat.lt_succ_self _)
          change (putAscending _ _ entry roadmap.phases).map HeldPhase.number = _
          rw [putAscending_of_greatest HeldPhase.number entry greatest, List.map_append]
          rfl
        ids_handed := ids_declarePhase entry
        ids_ascending := List.Pairwise.nil
        ids_past := by simp
        misplaced := by
          intro number dependency depends before
          rcases (dependsOn_declarePhase ascending rfl number dependency).mp depends with
            ⟨rfl, listed⟩ | ⟨differs, depended⟩
          · exact absurd before
              (not_before_of_placedAfter ordered.order_nodup placed dependency listed)
          · refine ⟨depended, before_of_insertIdx differs ?_ before⟩
            rintro rfl
            exact fresh (consistent.depending.dependencies_declared number _ depended) }

/-- What an edit gives or keeps of a phase's stories is active and served by no other phase. -/
theorem active_of_edit {held : HeldPhase} (held_mem : held ∈ roadmap.phases)
    {dependsOn : List Nat} {stories : Option (List Nat)}
    (members_judged : judgeMembers roadmap.accepted dependsOn (stories.getD []) (some held.number) =
      .ok ()) :
    ∀ id ∈ stories.getD held.stories, ∃ story ∈ roadmap.stories, story.id = id ∧
      story.status = .active ∧ (story.phase = none ∨ story.phase = some held.number) := by
  cases stories with
  | some stories => exact (of_judgeMembers consistent members_judged).2
  | none =>
      intro id listed
      obtain ⟨story, story_mem, id_eq, names, active⟩ := consistent.listed_story held_mem listed
      exact ⟨story, story_mem, id_eq, active, Or.inr names⟩

/-- What an edit gives or keeps of a phase's dependencies puts it on no cycle and before none of them
where it was not. -/
theorem depends_of_edit {held : HeldPhase} (held_mem : held ∈ roadmap.phases)
    (stands : held.withdrawn = false) {stories : List Nat} {dependsOn : Option (List Nat)}
    (members_judged : judgeMembers roadmap.accepted (dependsOn.getD []) stories (some held.number) =
      .ok ())
    (dependencies_judged : ∀ given ∈ dependsOn,
      judgeDependencies roadmap.accepted held.number given = .ok ())
    {edges : Nat → Nat → Prop}
    (edges_iff : ∀ number dependency, edges number dependency ↔
      number = held.number ∧ dependency ∈ dependsOn.getD held.dependsOn ∨
        number ≠ held.number ∧ roadmap.DependsOn number dependency) :
    (∀ number ∈ dependsOn.getD held.dependsOn, roadmap.Declared number) ∧
      ¬ TransGen edges held.number held.number ∧
      ∀ dependency ∈ dependsOn.getD held.dependsOn, Before roadmap.order held.number dependency →
        roadmap.DependsOn held.number dependency := by
  cases dependsOn with
  | some given =>
      obtain ⟨none_found, placed⟩ := of_judgeDependencies (dependencies_judged given rfl)
      refine ⟨(of_judgeMembers consistent members_judged).1,
        of_onCycleWith consistent.serving none_found edges_iff, fun dependency depends before => ?_⟩
      exact absurd before
        (not_before_of_placedAfter consistent.ordered.order_nodup placed dependency depends)
  | none =>
      have depended : ∀ dependency ∈ held.dependsOn,
          roadmap.DependsOn held.number dependency := fun dependency depends =>
        ⟨held, held_mem, rfl, stands, depends⟩
      refine ⟨fun dependency depends => consistent.depending.dependencies_declared held.number
        dependency (depended dependency depends), fun cycle => ?_,
        fun dependency depends _ => depended dependency depends⟩
      have fewer : edges ≤ roadmap.DependsOn := by
        intro number dependency edge
        rcases (edges_iff number dependency).mp edge with ⟨rfl, depends⟩ | ⟨-, depends⟩
        · exact depended dependency depends
        · exact depends
      exact consistent.depending.acyclic held.number (TransGen.mono fewer _ _ cycle)

theorem step_phaseEdited {held : HeldPhase} (held_mem : held ∈ roadmap.phases)
    (stands : held.withdrawn = false) (name goal : String) (detail : PayloadRef)
    {dependsOn stories : Option (List Nat)} (distinct : ∀ given ∈ stories, given.Nodup)
    (members_judged : judgeMembers roadmap.accepted (dependsOn.getD []) (stories.getD [])
      (some held.number) = .ok ())
    (dependencies_judged : ∀ given ∈ dependsOn,
      judgeDependencies roadmap.accepted held.number given = .ok ()) (submission : Hash) :
    ∃ after, roadmap.Takes
        [.phaseDeclared held.number name goal detail (dependsOn.getD held.dependsOn)
          (stories.getD held.stories) submission] after ∧
      Step roadmap [] [] after := by
  have ascending := consistent.serving.phases_ascending
  have declared : roadmap.Declared held.number := ⟨held, held_mem, rfl, stands⟩
  let entry : HeldPhase :=
    { number := held.number, name, goal, dependsOn := dependsOn.getD held.dependsOn
      stories := stories.getD held.stories, withdrawn := false }
  have stories_active := active_of_edit consistent held_mem members_judged
  have edges_iff : ∀ number dependency, (roadmap.declarePhase entry).DependsOn number dependency ↔ _ :=
    dependsOn_declarePhase ascending rfl
  obtain ⟨depends_declared, through, placed⟩ := depends_of_edit consistent held_mem stands
    members_judged dependencies_judged edges_iff
  have entry_distinct : entry.stories.Nodup := by
    change (stories.getD held.stories).Nodup
    cases stories with
    | some given => exact distinct given rfl
    | none => exact consistent.serving.listed_nodup held held_mem
  refine ⟨roadmap.declarePhase entry, takes_one rfl ?_, ?_⟩
  · refine ⟨consistent.number_fits held_mem, fun number depends =>
      consistent.declared_fits (depends_declared number depends), fun id id_mem => ?_⟩
    obtain ⟨story, story_mem, rfl, -⟩ := stories_active id id_mem
    exact consistent.id_fits story_mem
  · exact
      { consistent :=
          ⟨consistent.serving.declarePhase (Or.inr declared) rfl entry_distinct stories_active,
            consistent.depending.declarePhase ascending rfl depends_declared through,
            consistent.ordered.declareAgain ascending rfl declared⟩
        final_kept := final_kept_declarePhase entry
        numbers_handed := by
          change (putAscending _ _ entry roadmap.phases).map HeldPhase.number = _
          rw [putAscending_of_held HeldPhase.number entry ascending (List.mem_map_of_mem held_mem),
            List.map_map, List.append_nil]
          refine List.map_congr_left fun phase _ => ?_
          rw [Function.comp_apply]
          split_ifs with same
          · exact same.symm
          · rfl
        ids_handed := ids_declarePhase entry
        ids_ascending := List.Pairwise.nil
        ids_past := by simp
        misplaced := by
          intro number dependency depends before
          rcases (edges_iff number dependency).mp depends with ⟨rfl, listed⟩ | ⟨-, depended⟩
          · exact ⟨placed dependency listed before, before⟩
          · exact ⟨depended, before⟩ }

theorem step_phaseReordered {order : List Nat}
    (judged : judgeReorder roadmap.accepted order = .ok ()) (submission : Hash) :
    ∃ after, roadmap.Takes [.phaseReordered order submission] after ∧ Step roadmap [] [] after := by
  obtain ⟨distinct, mem_order, placed⟩ := of_judgeReorder consistent.serving judged
  refine ⟨{ roadmap with order }, takes_one rfl ?_, ?_⟩
  · exact fun number number_mem => consistent.declared_fits ((mem_order number).mp number_mem)
  · exact
      { consistent := ⟨{ consistent.serving with }, { consistent.depending with },
          ⟨distinct, mem_order⟩⟩
        final_kept := fun story story_mem _ => ⟨story, story_mem, rfl, rfl⟩
        numbers_handed := (List.append_nil _).symm
        ids_handed := by rw [List.append_nil]
        ids_ascending := List.Pairwise.nil
        ids_past := by simp
        misplaced := fun number dependency depends before =>
          absurd before (placed number dependency depends) }

theorem step_projectDescribed (description : Description) (submission : Hash) :
    ∃ after, roadmap.Takes [.projectDescribed description submission] after ∧
      Step roadmap [] [] after := by
  refine ⟨{ roadmap with description := describedValue description submission },
    takes_one rfl trivial, ?_⟩
  have serving : Serving [] { roadmap with description := describedValue description submission } :=
    { consistent.serving with }
  refine Step.of_stories consistent ?_ ?_ serving ?_ ?_ List.Pairwise.nil (by simp)
  · rfl
  · rfl
  · exact fun story story_mem _ => ⟨story, story_mem, rfl, rfl⟩
  · rw [List.append_nil]

/-! ## Withdrawals -/

omit consistent in
/-- The event of a decision moves the story where the decision says, or drops it. -/
theorem event_of_decision {decisions : List Decision} {id : Nat}
    (decided : id ∈ decisions.map Decision.story) (submission : Hash) :
    ∃ event status destination, decisionEvent decisions submission id = some event ∧
      (∀ roadmap : Roadmap, roadmap.apply event = roadmap.reassignStory id status destination) ∧
      (destination ≠ none → status = .active) ∧
      (∀ number ∈ destination, ∃ decision ∈ decisions, decision.destination = .phase number) ∧
      (id ≤ maxU32 → (∀ number ∈ destination, number ≤ maxU32) → event.Fits) := by
  obtain ⟨decision, found⟩ : ∃ decision,
      decisions.find? (fun decision => decide (decision.story = id)) = some decision := by
    obtain ⟨decision, decision_mem, rfl⟩ := List.mem_map.mp decided
    rw [← Option.isSome_iff_exists, List.find?_isSome]
    exact ⟨decision, decision_mem, by simp⟩
  have decision_mem := List.mem_of_find?_eq_some found
  cases destination : decision.destination with
  | phase number =>
      refine ⟨.storyReassigned id .active (some number) submission, .active, some number, ?_,
        fun _ => rfl, fun _ => rfl, ?_, fun id_fits fits => ⟨id_fits, fits⟩⟩
      · simp only [decisionEvent, found, Option.bind_eq_bind, Option.bind_some, destination]
      · rintro _ ⟨⟩
        exact ⟨decision, decision_mem, destination⟩
  | drop =>
      refine ⟨.storyDropped id submission, .dropped, none, ?_, fun _ => rfl,
        fun kept => absurd rfl kept, ?_, fun id_fits _ => id_fits⟩
      · simp only [decisionEvent, found, Option.bind_eq_bind, Option.bind_some, destination]
      · rintro _ ⟨⟩

omit consistent in
/-- The stories of a withdrawn phase leave it one after the other. -/
theorem takes_decisions {leaving : List Nat} (serving : Serving leaving roadmap)
    (distinct : leaving.Nodup)
    (known : ∀ id ∈ leaving, ∃ story ∈ roadmap.stories, story.id = id)
    {decisions : List Decision} (decided : ∀ id ∈ leaving, id ∈ decisions.map Decision.story)
    (destinations : ∀ decision ∈ decisions, ∀ number, decision.destination = .phase number →
      roadmap.Declared number) (submission : Hash) :
    ∃ after, roadmap.Takes (leaving.filterMap (decisionEvent decisions submission)) after ∧
      Serving [] after ∧
      after.phases.map HeldPhase.outline = roadmap.phases.map HeldPhase.outline ∧
      after.order = roadmap.order ∧
      after.stories.map StoryEntry.id = roadmap.stories.map StoryEntry.id ∧
      ∀ story ∈ roadmap.stories, story.id ∉ leaving → story ∈ after.stories := by
  induction leaving generalizing roadmap with
  | nil =>
      exact ⟨roadmap, takes_nil, serving, rfl, rfl, rfl, fun story story_mem _ => story_mem⟩
  | cons id leaving ih =>
      obtain ⟨fresh, rest_distinct⟩ := List.nodup_cons.mp distinct
      obtain ⟨event, status, destination, event_eq, applies, active, goes, fits⟩ :=
        event_of_decision (decided id List.mem_cons_self) submission
      have held : ∀ number ∈ destination, roadmap.Declared number := by
        intro number number_mem
        obtain ⟨decision, decision_mem, destination_eq⟩ := goes number number_mem
        exact destinations decision decision_mem number destination_eq
      have id_known := known id List.mem_cons_self
      have rest_eq : (id :: leaving).filter (fun story => decide (story ≠ id)) = leaving := by
        rw [List.filter_cons, if_neg (by simp), List.filter_eq_self]
        intro story story_mem
        rw [decide_eq_true_eq]
        rintro rfl
        exact fresh story_mem
      have moved_serving := rest_eq ▸ serving.reassign id_known held active
      have moved_applied : roadmap.apply event =
          some (roadmap.reassigned id status destination) := by
        rw [applies]
        refine reassignStory_eq roadmap serving.numbers_nodup serving.stories_distinct id_known
          status fun number number_mem => ?_
        obtain ⟨phase, phase_mem, number_eq, -⟩ := held number number_mem
        exact ⟨phase, phase_mem, number_eq⟩
      have event_fits : event.Fits := by
        refine fits ?_ fun number number_mem => ?_
        · obtain ⟨story, story_mem, rfl⟩ := id_known
          exact (serving.story_numbered story story_mem).2.trans serving.highestStory_fits
        · obtain ⟨phase, phase_mem, rfl, -⟩ := held number number_mem
          exact (serving.phase_numbered phase phase_mem).2.trans serving.highestPhase_fits
      have outlines_eq := outlines_reassigned roadmap id status destination
      have ids_eq : (roadmap.reassigned id status destination).stories.map StoryEntry.id =
          roadmap.stories.map StoryEntry.id := by
        rw [reassigned, List.map_map]
        exact List.map_congr_left fun story _ => story.id_only_move id status destination
      have rest_known : ∀ story ∈ leaving,
          ∃ other ∈ (roadmap.reassigned id status destination).stories, other.id = story := by
        intro story story_mem
        have listed : story ∈ (roadmap.reassigned id status destination).stories.map
            StoryEntry.id := by
          rw [ids_eq]
          exact List.mem_map.mpr (known story (List.mem_cons_of_mem _ story_mem))
        exact List.mem_map.mp listed
      obtain ⟨after, takes, after_serving, after_outlines, after_order, after_ids, kept⟩ :=
        ih moved_serving rest_distinct rest_known
          (fun story story_mem => decided story (List.mem_cons_of_mem _ story_mem))
          (fun decision decision_mem number destination_eq =>
            (declared_congr outlines_eq number).mpr
              (destinations decision decision_mem number destination_eq))
      refine ⟨after, ?_, after_serving, after_outlines.trans outlines_eq, after_order,
        after_ids.trans ids_eq, fun story story_mem unlisted => ?_⟩
      · rw [List.filterMap_cons, event_eq]
        exact takes.cons moved_applied event_fits
      · rw [List.mem_cons, not_or] at unlisted
        refine kept story (List.mem_map.mpr ⟨story, story_mem, ?_⟩) unlisted.2
        rw [StoryEntry.only, if_neg unlisted.1]

theorem step_phaseWithdrawn {held : HeldPhase} (held_mem : held ∈ roadmap.phases)
    {decisions : List Decision}
    (judged : judgeWithdrawal roadmap.accepted held decisions = .ok ()) (submission : Hash) :
    ∃ after, roadmap.Takes
        ([.phaseWithdrawn held.number submission] ++
          held.stories.filterMap (decisionEvent decisions submission) ++
          [.phaseReordered (roadmap.order.filter fun number => number ≠ held.number) submission])
        after ∧
      Step roadmap [] [] after := by
  obtain ⟨independent, decided, destinations⟩ := of_judgeWithdrawal judged
  have withdrawn_applied : roadmap.apply (.phaseWithdrawn held.number submission) =
      some (roadmap.withdrawn held.number) :=
    modifyPhase_eq roadmap consistent.serving.numbers_nodup ⟨held, held_mem, rfl⟩ HeldPhase.withdraw
  have withdrawn_depending := consistent.depending.withdraw independent
  have withdrawn_ordered : Ordered { roadmap.withdrawn held.number with
      order := roadmap.order.filter fun number => number ≠ held.number } :=
    consistent.ordered.withdraw
  have known : ∀ id ∈ held.stories, ∃ story ∈ roadmap.stories, story.id = id := by
    intro id listed
    obtain ⟨story, story_mem, id_eq, -⟩ := consistent.listed_story held_mem listed
    exact ⟨story, story_mem, id_eq⟩
  obtain ⟨after, takes, serving, outlines_eq, order_eq, ids_eq, kept⟩ :=
    takes_decisions (consistent.serving.withdraw held_mem)
      (consistent.serving.listed_nodup held held_mem) known decided
      (fun decision decision_mem number destination_eq =>
        (declared_withdrawn roadmap held.number number).mpr
          (destinations decision decision_mem number destination_eq)) submission
  have ordered : Ordered { after with
      order := roadmap.order.filter fun number => number ≠ held.number } := by
    refine ⟨withdrawn_ordered.order_nodup, fun number => ?_⟩
    exact (withdrawn_ordered.mem_order number).trans (declared_congr outlines_eq number).symm
  refine ⟨{ after with order := roadmap.order.filter fun number => number ≠ held.number },
    ((takes_one withdrawn_applied (consistent.number_fits held_mem)).append takes).append
      (takes_one rfl ?_), ?_⟩
  · intro number number_mem
    exact consistent.declared_fits
      ((consistent.ordered.mem_order number).mp (List.mem_filter.mp number_mem).1)
  · exact
      { consistent := ⟨{ serving with }, { withdrawn_depending.congr outlines_eq with }, ordered⟩
        final_kept := by
          intro story story_mem final
          refine ⟨story, kept story story_mem fun listed => ?_, rfl, rfl⟩
          obtain ⟨other, other_mem, same, -, active⟩ := consistent.listed_story held_mem listed
          rw [consistent.serving.story_eq other_mem story_mem same] at active
          rw [HeldStatus.Final, active] at final
          rcases final with final | final <;> cases final
        numbers_handed := by
          have numbers_eq := congrArg (List.map Prod.fst) outlines_eq
          rw [List.map_map, List.map_map, withdrawn, List.map_map] at numbers_eq
          rw [List.append_nil]
          refine numbers_eq.trans (List.map_congr_left fun phase _ => ?_)
          rw [Function.comp_apply, Function.comp_apply, HeldPhase.only]
          split_ifs <;> rfl
        ids_handed := by
          rw [List.append_nil]
          exact List.Perm.of_eq ids_eq
        ids_ascending := List.Pairwise.nil
        ids_past := by simp
        misplaced := by
          intro number dependency depends before
          have depended := (dependsOn_congr outlines_eq number dependency).mp depends
          exact ⟨((dependsOn_withdrawn roadmap held.number number dependency).mp depended).2,
            before.trans List.filter_sublist⟩ }

end Roadmap

end Baley.Scope
