import Baley.Scope.Approved

/-!
# An approved start

The events of a start, taken by the empty roadmap: the stories name their phases before the phases are
declared, and with the last phase accepted scope is consistent.
-/

namespace Baley.Scope

open Relation

/-- A story as the start declares it, numbered by its index. -/
def startStory (phases : List Phase) (entry : Story × Nat) : StoryEntry where
  id := entry.2 + 1
  sentence := entry.1.sentence
  status := entry.1.status.held
  phase := (servingPhase phases entry.2).map fun index => index + 1
  truths := 0

/-- A phase as the start declares it, numbered by its index. -/
def startPhase (entry : Phase × Nat) : HeldPhase where
  number := entry.2 + 1
  name := entry.1.name
  goal := entry.1.goal
  dependsOn := entry.1.dependsOn
  stories := entry.1.stories.map fun story => story + 1
  withdrawn := false

namespace Roadmap

/-- The roadmap a start leaves. -/
def started (submission : Submission) : Roadmap where
  description := describedValue submission.description submission.digest
  phases := submission.phases.zipIdx.map startPhase
  order := List.range' 1 submission.phases.length
  stories := submission.stories.zipIdx.map (startStory submission.phases)
  highestPhase := submission.phases.length
  highestStory := submission.stories.length

/-! ## Numbers -/

theorem nextNumbers_eq {highest count : Nat} {numbers : List Nat}
    (given : nextNumbers highest count = .ok numbers) :
    numbers = (List.range' 1 count).map (fun step => highest + step) ∧
      ∀ step, 1 ≤ step → step ≤ count → highest + step ≤ maxU32 := by
  have each : ∀ {steps numbers : List Nat}, (steps.mapM fun step => do
      Except.require (highest + step ≤ maxU32) RecordFailure.numbersExhausted
      (.ok (highest + step) : Except RecordFailure Nat)) = .ok numbers →
        numbers = steps.map (fun step => highest + step) ∧
          ∀ step ∈ steps, highest + step ≤ maxU32 := by
    intro steps
    induction steps with
    | nil =>
        intro numbers numbers_eq
        obtain rfl := Except.ok.inj numbers_eq
        simp
    | cons step steps ih =>
        intro numbers numbers_eq
        simp only [List.mapM_cons, Except.bind_eq_ok, Except.require_eq_ok, Except.ok.injEq, pure,
          Except.pure] at numbers_eq
        obtain ⟨_, ⟨_, fits, rfl⟩, rest, rest_eq, rfl⟩ := numbers_eq
        obtain ⟨rfl, rest_fits⟩ := ih rest_eq
        exact ⟨rfl, List.forall_mem_cons.mpr ⟨fits, rest_fits⟩⟩
  obtain ⟨numbers_eq, fits⟩ := each given
  refine ⟨numbers_eq, fun step positive inside => fits step ?_⟩
  rw [List.mem_range'_1]
  omega

/-- The numbers of a start are one past the indexes. -/
theorem getD_firstNumbers {count index : Nat} (inside : index < count) :
    ((List.range' 1 count).map fun step => 0 + step).getD index 0 = index + 1 := by
  rw [List.getD_eq_getElem?_getD, List.getElem?_map, List.getElem?_range' inside]
  simp
  omega

/-! ## Stories -/

/-- A story declared before any phase is. -/
def storyEvent (phases : List Phase) (submission : Hash) (entry : Story × Nat) : ScopeEvent :=
  .storyDeclared (entry.2 + 1) entry.1.sentence entry.1.status (startStory phases entry).phase
    submission

/-- Without phases a story is declared last. -/
theorem declareStory_of_no_phases {roadmap : Roadmap} (no_phases : roadmap.phases = [])
    {entry : StoryEntry} (number_eq : entry.id = roadmap.highestStory + 1)
    (numbered : ∀ story ∈ roadmap.stories, story.id ≤ roadmap.highestStory) :
    roadmap.declareStory entry =
      { roadmap with stories := roadmap.stories ++ [entry], highestStory := entry.id } := by
  have absent : ∀ story ∈ roadmap.stories, decide (story.id = entry.id) = false := by
    intro story story_mem
    have below := numbered story story_mem
    exact decide_eq_false (by omega)
  have highest_eq : max roadmap.highestStory entry.id = entry.id := by omega
  rw [declareStory, putFirst_of_absent _ absent, highest_eq]
  cases entry.phase with
  | none => rfl
  | some number =>
      rw [Option.bind_some, modifyPhase, no_phases]
      rfl

theorem takes_startStories {roadmap : Roadmap} (no_phases : roadmap.phases = [])
    (numbered : ∀ story ∈ roadmap.stories, story.id ≤ roadmap.highestStory)
    {phases : List Phase} (phases_fit : phases.length ≤ maxU32) {stories : List Story}
    (fits : roadmap.highestStory + stories.length ≤ maxU32) (submission : Hash) :
    roadmap.Takes
      ((stories.zipIdx roadmap.highestStory).map (storyEvent phases submission))
      { roadmap with
        stories := roadmap.stories ++
          (stories.zipIdx roadmap.highestStory).map (startStory phases)
        highestStory := roadmap.highestStory + stories.length } := by
  induction stories generalizing roadmap with
  | nil =>
      simp only [List.zipIdx_nil, List.map_nil, List.append_nil, List.length_nil, Nat.add_zero]
      exact takes_nil
  | cons story stories ih =>
      rw [List.length_cons] at fits
      have declared_eq : roadmap.declareStory (startStory phases (story, roadmap.highestStory)) = _ :=
        declareStory_of_no_phases no_phases rfl numbered
      let declared : Roadmap :=
        { roadmap with
          stories := roadmap.stories ++ [startStory phases (story, roadmap.highestStory)]
          highestStory := roadmap.highestStory + 1 }
      have declared_numbered : ∀ other ∈ declared.stories, other.id ≤ declared.highestStory := by
        intro other other_mem
        rcases List.mem_append.mp other_mem with other_mem | other_mem
        · exact (numbered other other_mem).trans (Nat.le_succ _)
        · rw [List.mem_singleton.mp other_mem]
          exact le_refl _
      have rest : declared.Takes _ _ := ih no_phases declared_numbered
        (show roadmap.highestStory + 1 + stories.length ≤ maxU32 by omega)
      have phase_fits : ∀ number ∈ (startStory phases (story, roadmap.highestStory)).phase,
          number ≤ maxU32 := by
        intro number number_mem
        obtain ⟨index, index_eq, rfl⟩ := Option.map_eq_some_iff.mp number_mem
        have inside := (List.findIdx?_eq_some_iff_getElem.mp index_eq).1
        omega
      have count_eq : roadmap.highestStory + (stories.length + 1) =
          roadmap.highestStory + 1 + stories.length := by omega
      rw [List.zipIdx_cons, List.map_cons, List.map_cons, List.length_cons, count_eq]
      refine Takes.cons (show roadmap.apply _ = some declared from congrArg some declared_eq)
        ⟨by omega, phase_fits⟩ ?_
      simpa only [declared, List.append_assoc, List.singleton_append] using rest

/-! ## Phases -/

/-- A phase declared with its detail. -/
def phaseEvent (submission : Hash) (entry : (Phase × Nat) × PayloadRef) : ScopeEvent :=
  .phaseDeclared (entry.1.2 + 1) entry.1.1.name entry.1.1.goal entry.2 entry.1.1.dependsOn
    (entry.1.1.stories.map fun story => story + 1) submission

theorem takes_startPhases {roadmap : Roadmap}
    (numbered : ∀ phase ∈ roadmap.phases, phase.number ≤ roadmap.highestPhase)
    {phases : List Phase} {details : List PayloadRef} (length_eq : details.length = phases.length)
    (fits : roadmap.highestPhase + phases.length ≤ maxU32)
    (depends_fit : ∀ phase ∈ phases, ∀ number ∈ phase.dependsOn, number ≤ maxU32)
    (stories_fit : ∀ phase ∈ phases, ∀ story ∈ phase.stories, story + 1 ≤ maxU32)
    (served : ∀ entry ∈ phases.zipIdx roadmap.highestPhase, ∀ story ∈ roadmap.stories,
      story.id ∈ (startPhase entry).stories ↔ story.phase = some (startPhase entry).number)
    (submission : Hash) :
    roadmap.Takes
      (((phases.zipIdx roadmap.highestPhase).zip details).map (phaseEvent submission))
      { roadmap with
        phases := roadmap.phases ++ (phases.zipIdx roadmap.highestPhase).map startPhase
        highestPhase := roadmap.highestPhase + phases.length } := by
  induction phases generalizing roadmap details with
  | nil =>
      simp only [List.zipIdx_nil, List.zip_nil_left, List.map_nil, List.append_nil, List.length_nil,
        Nat.add_zero]
      exact takes_nil
  | cons phase phases ih =>
      obtain ⟨detail, details, rfl⟩ := List.exists_cons_of_length_eq_add_one length_eq
      rw [List.length_cons] at fits length_eq
      let entry := startPhase (phase, roadmap.highestPhase)
      let declared : Roadmap :=
        { roadmap with phases := roadmap.phases ++ [entry], highestPhase := roadmap.highestPhase + 1 }
      have declared_eq : roadmap.declarePhase entry = declared := by
        have greatest : ∀ other ∈ roadmap.phases, other.number < entry.number :=
          fun other other_mem => Nat.lt_succ_of_le (numbered other other_mem)
        have relisted : roadmap.stories.map (StoryEntry.relist entry.number entry.stories) =
            roadmap.stories := by
          refine map_eq_self fun story story_mem => ?_
          have story_served := served (phase, roadmap.highestPhase) (by simp) story story_mem
          unfold StoryEntry.relist
          split_ifs with listed names
          · rw [← story_served.mp listed]
          · exact absurd (story_served.mpr names) listed
          · rfl
        have highest_eq : max roadmap.highestPhase entry.number = roadmap.highestPhase + 1 :=
          max_eq_right (Nat.le_succ _)
        rw [declarePhase, putAscending_of_greatest HeldPhase.number entry greatest, relisted,
          highest_eq]
      have declared_numbered : ∀ other ∈ declared.phases, other.number ≤ declared.highestPhase := by
        intro other other_mem
        rcases List.mem_append.mp other_mem with other_mem | other_mem
        · exact (numbered other other_mem).trans (Nat.le_succ _)
        · rw [List.mem_singleton.mp other_mem]
          exact le_refl _
      have rest : declared.Takes _ _ := ih declared_numbered (Nat.succ.inj length_eq)
        (show roadmap.highestPhase + 1 + phases.length ≤ maxU32 by omega)
        (fun other other_mem => depends_fit other (List.mem_cons_of_mem _ other_mem))
        (fun other other_mem => stories_fit other (List.mem_cons_of_mem _ other_mem))
        (fun other other_mem story story_mem => served other (by
          rw [List.zipIdx_cons]
          exact List.mem_cons_of_mem _ other_mem) story story_mem)
      have event_fits : ScopeEvent.Fits (phaseEvent submission
          ((phase, roadmap.highestPhase), detail)) := by
        have number_fits : roadmap.highestPhase + 1 ≤ maxU32 := by omega
        refine ⟨number_fits, depends_fit phase List.mem_cons_self, fun id id_mem => ?_⟩
        obtain ⟨story, story_mem, rfl⟩ := List.mem_map.mp id_mem
        exact stories_fit phase List.mem_cons_self story story_mem
      have count_eq : roadmap.highestPhase + (phases.length + 1) =
          roadmap.highestPhase + 1 + phases.length := by omega
      rw [List.zipIdx_cons, List.zip_cons_cons, List.map_cons, List.map_cons, List.length_cons,
        count_eq]
      refine Takes.cons (show roadmap.apply _ = some declared from congrArg some declared_eq)
        event_fits ?_
      simpa only [declared, entry, List.append_assoc, List.singleton_append] using rest

/-! ## The events of a start -/

section Events

variable (submission : Submission)

theorem story_inside {phase : Phase} (phase_mem : phase ∈ submission.phases) {story : Nat}
    (listed : story ∈ phase.stories) : story < submission.stories.length := by
  have active := (submission.within phase_mem).stories_active story listed
  by_contra outside
  simp [List.getElem?_eq_none (Nat.le_of_not_lt outside)] at active

theorem startEvents_eq {details : List PayloadRef} {owner recordedAt : String}
    {events : List ScopeEvent}
    (given : startEvents submission 0 0 details owner recordedAt = .ok events) :
    details.length = submission.phases.length ∧ submission.phases.length ≤ maxU32 ∧
      submission.stories.length ≤ maxU32 ∧
      events =
        [.projectDescribed submission.description submission.digest] ++
          submission.stories.zipIdx.map (storyEvent submission.phases submission.digest) ++
          (submission.phases.zipIdx.zip details).map (phaseEvent submission.digest) ++
          [.phaseReordered (List.range' 1 submission.phases.length) submission.digest,
            .scopeApproved submission.digest startKind owner recordedAt] := by
  simp only [startEvents, Except.bind_eq_ok, Except.require_eq_ok, Except.ok.injEq] at given
  obtain ⟨_, length_eq, ids, ids_given, numbers, numbers_given, rfl⟩ := given
  obtain ⟨rfl, ids_fit⟩ := nextNumbers_eq ids_given
  obtain ⟨rfl, numbers_fit⟩ := nextNumbers_eq numbers_given
  have fits {count : Nat} (each : ∀ step, 1 ≤ step → step ≤ count → 0 + step ≤ maxU32) :
      count ≤ maxU32 := by
    by_cases none_given : count = 0
    · omega
    · have last := each count (by omega) (le_refl _)
      omega
  refine ⟨length_eq, fits numbers_fit, fits ids_fit, ?_⟩
  have numbers_eq : (List.range' 1 submission.phases.length).map (fun step => 0 + step) =
      List.range' 1 submission.phases.length :=
    map_eq_self fun step _ => Nat.zero_add step
  congr 1
  · congr 1
    · congr 1
      refine List.map_congr_left fun entry entry_mem => ?_
      have inside := List.snd_lt_of_mem_zipIdx entry_mem
      rw [Nat.add_zero] at inside
      rw [storyEvent, getD_firstNumbers inside]
      congr 1
      refine Option.map_congr fun index index_mem => ?_
      exact getD_firstNumbers (List.findIdx?_eq_some_iff_getElem.mp index_mem).1
    · refine List.map_congr_left fun entry entry_mem => ?_
      have phase_mem : entry.1.1 ∈ submission.phases :=
        List.fst_mem_of_mem_zipIdx (List.of_mem_zip entry_mem).1
      have inside := List.snd_lt_of_mem_zipIdx (List.of_mem_zip entry_mem).1
      rw [Nat.add_zero] at inside
      rw [phaseEvent, getD_firstNumbers inside]
      congr 1
      · refine map_eq_self fun position position_mem => ?_
        have within := (submission.within phase_mem).dependsOn_inside position position_mem
        rw [getD_firstNumbers (by omega)]
        omega
      · exact List.map_congr_left fun story story_mem =>
          getD_firstNumbers (story_inside submission phase_mem story_mem)
  · rw [numbers_eq]

/-- A start's details are as many as its phases, so it never panics. -/
theorem startEvents_not_panicked {details : List PayloadRef}
    (length_eq : details.length = submission.phases.length) (owner recordedAt message : String) :
    startEvents submission 0 0 details owner recordedAt ≠ .error (.panicked message) := by
  intro failed
  rw [startEvents, Except.require, if_pos length_eq] at failed
  change (nextNumbers 0 submission.stories.length >>= _) = _ at failed
  cases ids_given : nextNumbers 0 submission.stories.length with
  | error error =>
      rw [ids_given] at failed
      obtain rfl := Except.error.inj failed
      exact nextNumbers_not_panicked _ _ message ids_given
  | ok ids =>
      rw [ids_given] at failed
      change (nextNumbers 0 submission.phases.length >>= _) = _ at failed
      cases numbers_given : nextNumbers 0 submission.phases.length with
      | error error =>
          rw [numbers_given] at failed
          obtain rfl := Except.error.inj failed
          exact nextNumbers_not_panicked _ _ message numbers_given
      | ok numbers =>
          rw [numbers_given] at failed
          cases failed

/-! ## Who serves whom after a start -/

theorem servingPhase_eq_some {story index : Nat} :
    servingPhase submission.phases story = some index ↔
      ∃ inside : index < submission.phases.length, story ∈ submission.phases[index].stories := by
  rw [servingPhase, List.findIdx?_eq_some_iff_getElem]
  constructor
  · rintro ⟨inside, listed, -⟩
    exact ⟨inside, of_decide_eq_true listed⟩
  · rintro ⟨inside, listed⟩
    refine ⟨inside, decide_eq_true listed, fun other before other_listed => ?_⟩
    have same := submission.served_once (before.trans inside) inside
      (of_decide_eq_true other_listed) listed
    omega

theorem mem_started_phases (phase : HeldPhase) :
    phase ∈ (started submission).phases ↔
      ∃ index, ∃ inside : index < submission.phases.length,
        phase = startPhase (submission.phases[index], index) := by
  rw [started, List.mem_map]
  constructor
  · rintro ⟨⟨held, index⟩, entry_mem, rfl⟩
    obtain ⟨inside, held_eq⟩ := List.mem_zipIdx' entry_mem
    exact ⟨index, inside, by rw [held_eq]⟩
  · rintro ⟨index, inside, rfl⟩
    exact ⟨_, List.mk_mem_zipIdx_iff_getElem?.mpr (List.getElem?_eq_getElem inside), rfl⟩

theorem mem_started_stories (story : StoryEntry) :
    story ∈ (started submission).stories ↔
      ∃ index, ∃ inside : index < submission.stories.length,
        story = startStory submission.phases (submission.stories[index], index) := by
  rw [started, List.mem_map]
  constructor
  · rintro ⟨⟨held, index⟩, entry_mem, rfl⟩
    obtain ⟨inside, held_eq⟩ := List.mem_zipIdx' entry_mem
    exact ⟨index, inside, by rw [held_eq]⟩
  · rintro ⟨index, inside, rfl⟩
    exact ⟨_, List.mk_mem_zipIdx_iff_getElem?.mpr (List.getElem?_eq_getElem inside), rfl⟩

theorem map_succ_zipIdx {α : Type} (items : List α) :
    (items.zipIdx.map Prod.snd).map (fun index => index + 1) = List.range' 1 items.length := by
  have succ_eq : (fun index : Nat => index + 1) = (1 + ·) := funext fun index => Nat.add_comm index 1
  rw [List.zipIdx_map_snd, succ_eq, List.map_add_range']

theorem numbers_started : (started submission).phases.map HeldPhase.number =
    List.range' 1 submission.phases.length := by
  rw [← map_succ_zipIdx, started, List.map_map, List.map_map]
  rfl

theorem ids_started : (started submission).stories.map StoryEntry.id =
    List.range' 1 submission.stories.length := by
  rw [← map_succ_zipIdx, started, List.map_map, List.map_map]
  rfl

theorem declared_started (number : Nat) :
    (started submission).Declared number ↔ 1 ≤ number ∧ number ≤ submission.phases.length := by
  constructor
  · rintro ⟨phase, phase_mem, rfl, -⟩
    obtain ⟨index, inside, rfl⟩ := (mem_started_phases submission phase).mp phase_mem
    exact ⟨Nat.succ_pos index, inside⟩
  · rintro ⟨positive, inside⟩
    obtain ⟨index, rfl⟩ := Nat.exists_eq_succ_of_ne_zero (Nat.pos_iff_ne_zero.mp positive)
    exact ⟨_, (mem_started_phases submission _).mpr ⟨index, inside, rfl⟩, rfl, rfl⟩

theorem dependsOn_started (number dependency : Nat) :
    (started submission).DependsOn number dependency ↔
      ∃ index, ∃ inside : index < submission.phases.length,
        number = index + 1 ∧ dependency ∈ submission.phases[index].dependsOn := by
  constructor
  · rintro ⟨phase, phase_mem, rfl, -, depends⟩
    obtain ⟨index, inside, rfl⟩ := (mem_started_phases submission phase).mp phase_mem
    exact ⟨index, inside, rfl, depends⟩
  · rintro ⟨index, inside, rfl, depends⟩
    exact ⟨_, (mem_started_phases submission _).mpr ⟨index, inside, rfl⟩, rfl, rfl, depends⟩

theorem not_self_of_acc {α : Type} {relation : α → α → Prop} {item : α}
    (accessible : Acc relation item) : ¬ relation item item := by
  induction accessible with
  | intro item _ ih => exact fun itself => ih item itself itself

theorem depending_started : Depending (started submission) := by
  have inside_of {index : Nat} (inside : index < submission.phases.length) {dependency : Nat}
      (depends : dependency ∈ submission.phases[index].dependsOn) :
      1 ≤ dependency ∧ dependency ≤ submission.phases.length :=
    (submission.within (List.getElem_mem inside)).dependsOn_inside dependency depends
  constructor
  · intro phase phase_mem dependency depends
    obtain ⟨index, inside, rfl⟩ := (mem_started_phases submission phase).mp phase_mem
    obtain ⟨other, other_mem, number_eq, -⟩ :=
      (declared_started submission dependency).mpr (inside_of inside depends)
    exact ⟨other, other_mem, number_eq⟩
  · intro number dependency depends
    obtain ⟨index, inside, rfl, listed⟩ := (dependsOn_started submission number dependency).mp depends
    exact (declared_started submission dependency).mpr (inside_of inside listed)
  · -- Dependencies are well founded, since the submission's are.
    have accessible : ∀ index < submission.phases.length,
        Acc (fun dependency number => (started submission).DependsOn number dependency)
          (index + 1) := by
      refine submission.induction fun index inside ih => Acc.intro _ fun dependency depends => ?_
      obtain ⟨other, other_inside, other_eq, listed⟩ :=
        (dependsOn_started submission (index + 1) dependency).mp depends
      obtain rfl := Nat.succ.inj other_eq
      have dependency_inside := inside_of inside listed
      obtain ⟨dependency, rfl⟩ :=
        Nat.exists_eq_succ_of_ne_zero (Nat.pos_iff_ne_zero.mp dependency_inside.1)
      exact ih dependency listed
    intro number cycle
    obtain ⟨dependency, depends, -⟩ := TransGen.head'_iff.mp cycle
    obtain ⟨index, inside, rfl, -⟩ := (dependsOn_started submission number dependency).mp depends
    have around : TransGen (fun dependency number => (started submission).DependsOn number dependency)
        (index + 1) (index + 1) := cycle.swap
    exact not_self_of_acc (accessible index inside).transGen around

theorem ordered_started : Ordered (started submission) := by
  constructor
  · exact List.nodup_range'
  · intro number
    rw [declared_started, started, List.mem_range'_1]
    omega
theorem lists_started (number id : Nat) :
    (started submission).Lists number id ↔
      ∃ index, ∃ inside : index < submission.phases.length,
        number = index + 1 ∧ ∃ story ∈ submission.phases[index].stories, id = story + 1 := by
  constructor
  · rintro ⟨phase, phase_mem, rfl, listed⟩
    obtain ⟨index, inside, rfl⟩ := (mem_started_phases submission phase).mp phase_mem
    obtain ⟨story, story_mem, rfl⟩ := List.mem_map.mp listed
    exact ⟨index, inside, rfl, story, story_mem, rfl⟩
  · rintro ⟨index, inside, rfl, story, story_mem, rfl⟩
    exact ⟨_, (mem_started_phases submission _).mpr ⟨index, inside, rfl⟩, rfl,
      List.mem_map_of_mem story_mem⟩

theorem names_started (id number : Nat) :
    (started submission).Names id number ↔
      ∃ index, ∃ inside : index < submission.phases.length,
        number = index + 1 ∧ ∃ story ∈ submission.phases[index].stories, id = story + 1 := by
  constructor
  · rintro ⟨story, story_mem, rfl, names⟩
    obtain ⟨index, inside, rfl⟩ := (mem_started_stories submission story).mp story_mem
    obtain ⟨serving, serving_eq, rfl⟩ := Option.map_eq_some_iff.mp names
    obtain ⟨serving_inside, listed⟩ := (servingPhase_eq_some submission).mp serving_eq
    exact ⟨serving, serving_inside, rfl, index, listed, rfl⟩
  · rintro ⟨index, inside, rfl, story, listed, rfl⟩
    have story_inside := story_inside submission (List.getElem_mem inside) listed
    refine ⟨_, (mem_started_stories submission _).mpr ⟨story, story_inside, rfl⟩, rfl, ?_⟩
    rw [startStory, (servingPhase_eq_some submission).mpr ⟨inside, listed⟩]
    rfl

theorem serving_started (phases_fit : submission.phases.length ≤ maxU32)
    (stories_fit : submission.stories.length ≤ maxU32) : Serving [] (started submission) where
  phases_ascending := by
    rw [numbers_started]
    exact List.pairwise_lt_range'
  phase_numbered := by
    intro phase phase_mem
    obtain ⟨index, inside, rfl⟩ := (mem_started_phases submission phase).mp phase_mem
    exact ⟨Nat.succ_pos index, inside⟩
  highestPhase_fits := phases_fit
  stories_distinct := by
    rw [ids_started]
    exact List.nodup_range'
  story_numbered := by
    intro story story_mem
    obtain ⟨index, inside, rfl⟩ := (mem_started_stories submission story).mp story_mem
    exact ⟨Nat.succ_pos index, inside⟩
  highestStory_fits := stories_fit
  listed_nodup := by
    intro phase phase_mem
    obtain ⟨index, inside, rfl⟩ := (mem_started_phases submission phase).mp phase_mem
    exact (submission.within (List.getElem_mem inside)).stories_nodup.map (Nat.succ_injective)
  lists_iff_names := fun number id =>
    (lists_started submission number id).trans (names_started submission id number).symm
  named_declared := by
    intro id number names
    obtain ⟨index, inside, rfl, -⟩ := (names_started submission id number).mp names
    exact Or.inl ((declared_started submission (index + 1)).mpr ⟨Nat.succ_pos index, inside⟩)
  served_active := by
    intro story story_mem served
    obtain ⟨index, inside, rfl⟩ := (mem_started_stories submission story).mp story_mem
    obtain ⟨number, names⟩ := Option.ne_none_iff_exists'.mp served
    obtain ⟨serving, serving_eq, -⟩ := Option.map_eq_some_iff.mp names
    obtain ⟨serving_inside, listed⟩ := (servingPhase_eq_some submission).mp serving_eq
    have active := (submission.within (List.getElem_mem serving_inside)).stories_active index listed
    rw [List.getElem?_eq_getElem inside, Option.map_some, Option.some.injEq] at active
    exact congrArg StoryStatus.held active

/-- A phase of the submission lists a story exactly when the story is declared as served by it. -/
theorem served_at_start : ∀ entry ∈ submission.phases.zipIdx, ∀ story ∈ (started submission).stories,
    story.id ∈ (startPhase entry).stories ↔ story.phase = some (startPhase entry).number := by
  rintro ⟨phase, index⟩ entry_mem story story_mem
  obtain ⟨phase_inside, phase_eq⟩ := List.mem_zipIdx' entry_mem
  obtain ⟨story_index, story_inside, rfl⟩ := (mem_started_stories submission story).mp story_mem
  change story_index + 1 ∈ phase.stories.map (fun story => story + 1) ↔
    (servingPhase submission.phases story_index).map (fun index => index + 1) = some (index + 1)
  rw [List.mem_map_of_injective Nat.succ_injective, Option.map_eq_some_iff]
  constructor
  · intro listed
    exact ⟨index, (servingPhase_eq_some submission).mpr ⟨phase_inside, phase_eq ▸ listed⟩, rfl⟩
  · rintro ⟨serving, serving_eq, same⟩
    obtain rfl := Nat.succ.inj same
    obtain ⟨_, listed⟩ := (servingPhase_eq_some submission).mp serving_eq
    exact phase_eq ▸ listed

theorem takes_startEvents {details : List PayloadRef}
    (length_eq : details.length = submission.phases.length)
    (phases_fit : submission.phases.length ≤ maxU32)
    (stories_fit : submission.stories.length ≤ maxU32) (owner recordedAt : String) :
    empty.Takes
      ([.projectDescribed submission.description submission.digest] ++
        submission.stories.zipIdx.map (storyEvent submission.phases submission.digest) ++
        (submission.phases.zipIdx.zip details).map (phaseEvent submission.digest) ++
        [.phaseReordered (List.range' 1 submission.phases.length) submission.digest,
          .scopeApproved submission.digest startKind owner recordedAt])
      (started submission) := by
  let described : Roadmap :=
    { empty with description := describedValue submission.description submission.digest }
  have description_taken : empty.Takes
      [.projectDescribed submission.description submission.digest] described := takes_one rfl trivial
  let storied : Roadmap :=
    { described with
      stories := (started submission).stories, highestStory := submission.stories.length }
  let phased : Roadmap :=
    { storied with
      phases := (started submission).phases, highestPhase := submission.phases.length }
  have stories_taken : described.Takes
      (submission.stories.zipIdx.map (storyEvent submission.phases submission.digest)) storied := by
    have fits : described.highestStory + submission.stories.length ≤ maxU32 := by
      simpa [described, empty] using stories_fit
    have taken := takes_startStories (show described.phases = [] from rfl)
      (by simp [described, empty]) phases_fit fits submission.digest
    simpa [described, storied, empty, started] using taken
  have phases_taken : storied.Takes
      ((submission.phases.zipIdx.zip details).map (phaseEvent submission.digest)) phased := by
    have taken : storied.Takes _ _ := takes_startPhases (by simp [storied, described, empty])
      length_eq (by simpa [storied, described, empty] using phases_fit)
      (fun phase phase_mem number depends =>
        ((submission.within phase_mem).dependsOn_inside number depends).2.trans phases_fit)
      (fun phase phase_mem story listed =>
        (Nat.succ_le_of_lt (story_inside submission phase_mem listed)).trans stories_fit)
      (served_at_start submission) submission.digest
    simpa [described, storied, phased, empty, started] using taken
  have order_fits : ∀ number ∈ List.range' 1 submission.phases.length, number ≤ maxU32 := by
    intro number number_mem
    rw [List.mem_range'_1] at number_mem
    omega
  have last : phased.Takes
      [.phaseReordered (List.range' 1 submission.phases.length) submission.digest,
        .scopeApproved submission.digest startKind owner recordedAt] (started submission) :=
    Takes.cons (show phased.apply _ = some (started submission) from rfl) order_fits
      (takes_one rfl trivial)
  exact ((description_taken.append stories_taken).append phases_taken).append last

/-- The empty roadmap takes a start, and accepted scope is consistent then. -/
theorem takes_start {details : List PayloadRef} {owner recordedAt : String}
    {events : List ScopeEvent}
    (given : startEvents submission 0 0 details owner recordedAt = .ok events) :
    empty.Takes events (started submission) ∧ Consistent (started submission) ∧
      events.filterMap ScopeEvent.declaredNumber =
        (started submission).phases.map HeldPhase.number ∧
      handedIds events = (started submission).stories.map StoryEntry.id := by
  obtain ⟨length_eq, phases_fit, stories_fit, rfl⟩ := startEvents_eq submission given
  refine ⟨takes_startEvents submission length_eq phases_fit stories_fit owner recordedAt,
    ⟨serving_started submission phases_fit stories_fit, depending_started submission,
      ordered_started submission⟩, ?_, ?_⟩
  · have stories_none : (submission.stories.zipIdx.map
        (storyEvent submission.phases submission.digest)).filterMap ScopeEvent.declaredNumber =
          [] := by
      rw [List.filterMap_map, List.filterMap_eq_nil_iff]
      exact fun entry _ => rfl
    have phases_numbers : ((submission.phases.zipIdx.zip details).map
        (phaseEvent submission.digest)).filterMap ScopeEvent.declaredNumber =
          (started submission).phases.map HeldPhase.number := by
      rw [List.filterMap_map, numbers_started, ← map_succ_zipIdx]
      have numbers_eq : ScopeEvent.declaredNumber ∘ phaseEvent submission.digest =
          some ∘ (fun index => index + 1) ∘ Prod.snd ∘ Prod.fst := rfl
      have fst_eq : (submission.phases.zipIdx.zip details).map Prod.fst = submission.phases.zipIdx :=
        List.map_fst_zip (by rw [List.length_zipIdx, length_eq])
      rw [numbers_eq, List.filterMap_eq_map, ← List.map_map, ← List.map_map, fst_eq]
    rw [List.filterMap_append, List.filterMap_append, List.filterMap_append, stories_none,
      phases_numbers]
    exact List.append_nil _
  · have stories_ids : (submission.stories.zipIdx.map
        (storyEvent submission.phases submission.digest)).filterMap ScopeEvent.declaredId =
          (started submission).stories.map StoryEntry.id := by
      rw [List.filterMap_map, started, List.map_map, ← List.filterMap_eq_map]
      rfl
    have phases_none : ((submission.phases.zipIdx.zip details).map
        (phaseEvent submission.digest)).filterMap ScopeEvent.declaredId = [] := by
      rw [List.filterMap_map, List.filterMap_eq_nil_iff]
      exact fun entry _ => rfl
    rw [handedIds, List.filterMap_append, List.filterMap_append, List.filterMap_append, stories_ids,
      phases_none, List.append_nil]
    exact List.append_nil _

end Events

end Roadmap

end Baley.Scope
