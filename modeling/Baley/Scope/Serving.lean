import Baley.Scope.Roadmap

/-!
# Phases and the stories they serve

A phase lists a story exactly when the story names the phase, and only declared phases serve, active
stories alone.  Every operation on the roadmap keeps this; while a phase is being withdrawn, the
stories still to leave it are exempt.
-/

namespace Baley.Scope

/-- Change the phase of a number. -/
def HeldPhase.only (number : Nat) (change : HeldPhase → HeldPhase) (phase : HeldPhase) : HeldPhase :=
  if phase.number = number then change phase else phase

/-- Change the story of an id. -/
def StoryEntry.only (id : Nat) (change : StoryEntry → StoryEntry) (story : StoryEntry) : StoryEntry :=
  if story.id = id then change story else story

/-- List a story on the phase it goes to, and on no other. -/
def HeldPhase.relocate (id : Nat) (destination : Option Nat) (phase : HeldPhase) : HeldPhase :=
  if destination = some phase.number then (phase.unserve id).serve id else phase.unserve id

namespace HeldPhase

variable (phase : HeldPhase)

@[simp]
theorem number_serve (id : Nat) : (phase.serve id).number = phase.number := by
  unfold serve
  split_ifs <;> rfl

@[simp]
theorem withdrawn_serve (id : Nat) : (phase.serve id).withdrawn = phase.withdrawn := by
  unfold serve
  split_ifs <;> rfl

@[simp]
theorem dependsOn_serve (id : Nat) : (phase.serve id).dependsOn = phase.dependsOn := by
  unfold serve
  split_ifs <;> rfl

theorem mem_serve (id story : Nat) :
    story ∈ (phase.serve id).stories ↔ story ∈ phase.stories ∨ story = id := by
  unfold serve
  split_ifs with listed
  · exact ⟨Or.inl, fun found => found.elim (fun was => was) fun same => same ▸ listed⟩
  · simp

theorem nodup_serve {phase : HeldPhase} (distinct : phase.stories.Nodup) (id : Nat) :
    (phase.serve id).stories.Nodup := by
  unfold serve
  split_ifs with listed
  · exact distinct
  · exact List.nodup_append_comm.mp (List.nodup_cons.mpr ⟨listed, distinct⟩)

theorem mem_unserve (id story : Nat) :
    story ∈ (phase.unserve id).stories ↔ story ∈ phase.stories ∧ story ≠ id := by
  simp [unserve]

theorem unserve_of_unlisted {phase : HeldPhase} {id : Nat} (unlisted : id ∉ phase.stories) :
    phase.unserve id = phase := by
  have stories_eq : phase.stories.filter (fun story => story ≠ id) = phase.stories := by
    refine List.filter_eq_self.mpr fun story story_mem => ?_
    rw [decide_eq_true_eq]
    rintro rfl
    exact unlisted story_mem
  rw [unserve, stories_eq]

@[simp]
theorem number_relocate (id : Nat) (destination : Option Nat) :
    (phase.relocate id destination).number = phase.number := by
  unfold relocate
  split_ifs
  · exact number_serve _ id
  · rfl

@[simp]
theorem withdrawn_relocate (id : Nat) (destination : Option Nat) :
    (phase.relocate id destination).withdrawn = phase.withdrawn := by
  unfold relocate
  split_ifs
  · exact withdrawn_serve _ id
  · rfl

@[simp]
theorem dependsOn_relocate (id : Nat) (destination : Option Nat) :
    (phase.relocate id destination).dependsOn = phase.dependsOn := by
  unfold relocate
  split_ifs
  · exact dependsOn_serve _ id
  · rfl

theorem mem_relocate (id story : Nat) (destination : Option Nat) :
    story ∈ (phase.relocate id destination).stories ↔
      story ∈ phase.stories ∧ story ≠ id ∨ story = id ∧ destination = some phase.number := by
  unfold relocate
  split_ifs with goes
  · rw [mem_serve, mem_unserve]
    simp [goes]
  · rw [mem_unserve]
    simp [goes]

theorem nodup_relocate {phase : HeldPhase} (distinct : phase.stories.Nodup) (id : Nat)
    (destination : Option Nat) : (phase.relocate id destination).stories.Nodup := by
  unfold relocate
  split_ifs
  · exact nodup_serve (distinct.filter _) id
  · exact distinct.filter _

end HeldPhase

@[simp]
theorem StoryEntry.id_only_move (id : Nat) (status : HeldStatus) (destination : Option Nat)
    (story : StoryEntry) : (story.only id (StoryEntry.move status destination)).id = story.id := by
  unfold StoryEntry.only
  split_ifs <;> rfl

@[simp]
theorem StoryEntry.id_relist (number : Nat) (listed : List Nat) (story : StoryEntry) :
    (story.relist number listed).id = story.id := by
  unfold StoryEntry.relist
  split_ifs <;> rfl

@[simp]
theorem StoryEntry.status_relist (number : Nat) (listed : List Nat) (story : StoryEntry) :
    (story.relist number listed).status = story.status := by
  unfold StoryEntry.relist
  split_ifs <;> rfl

/-- What a change is judged against of a story. -/
def StoryEntry.heldStory (story : StoryEntry) : HeldStory :=
  ⟨story.id, story.status, story.phase⟩

namespace Roadmap

section Relations

variable (roadmap : Roadmap)

/-- A phase of the number is declared and not withdrawn. -/
def Declared (number : Nat) : Prop :=
  ∃ phase ∈ roadmap.phases, phase.number = number ∧ phase.withdrawn = false

/-- The phase of a number lists a story. -/
def Lists (number id : Nat) : Prop :=
  ∃ phase ∈ roadmap.phases, phase.number = number ∧ id ∈ phase.stories

/-- The story of an id names the phase it is served by. -/
def Names (id number : Nat) : Prop :=
  ∃ story ∈ roadmap.stories, story.id = id ∧ story.phase = some number

end Relations

/-- Phases and stories agree on who serves whom, but for the stories that are leaving a withdrawn
phase. -/
structure Serving (leaving : List Nat) (roadmap : Roadmap) : Prop where
  phases_ascending : (roadmap.phases.map HeldPhase.number).Pairwise (· < ·)
  phase_numbered : ∀ phase ∈ roadmap.phases,
    1 ≤ phase.number ∧ phase.number ≤ roadmap.highestPhase
  highestPhase_fits : roadmap.highestPhase ≤ maxU32
  stories_distinct : (roadmap.stories.map StoryEntry.id).Nodup
  story_numbered : ∀ story ∈ roadmap.stories, 1 ≤ story.id ∧ story.id ≤ roadmap.highestStory
  highestStory_fits : roadmap.highestStory ≤ maxU32
  listed_nodup : ∀ phase ∈ roadmap.phases, phase.stories.Nodup
  lists_iff_names : ∀ number id, roadmap.Lists number id ↔ roadmap.Names id number
  /-- The phase a story names is declared. -/
  named_declared : ∀ id number, roadmap.Names id number → roadmap.Declared number ∨ id ∈ leaving
  /-- Only an active story is served. -/
  served_active : ∀ story ∈ roadmap.stories, story.phase ≠ none → story.status = .active

theorem serving_empty : Serving [] empty := by
  constructor <;> simp [empty, Lists, Names]

/-! ## Entries changed where they stand -/

section Changed

variable (roadmap : Roadmap) {after : Roadmap}

theorem declared_map {change : HeldPhase → HeldPhase}
    (phases_eq : after.phases = roadmap.phases.map change)
    (numbered : ∀ phase, (change phase).number = phase.number)
    (stands : ∀ phase, (change phase).withdrawn = phase.withdrawn) (number : Nat) :
    after.Declared number ↔ roadmap.Declared number := by
  simp only [Declared, phases_eq, List.mem_map, exists_exists_and_eq_and, numbered, stands]

theorem lists_map {change : HeldPhase → HeldPhase}
    (phases_eq : after.phases = roadmap.phases.map change)
    (numbered : ∀ phase, (change phase).number = phase.number) (number id : Nat) :
    after.Lists number id ↔
      ∃ phase ∈ roadmap.phases, phase.number = number ∧ id ∈ (change phase).stories := by
  simp only [Lists, phases_eq, List.mem_map, exists_exists_and_eq_and, numbered]

theorem names_map {change : StoryEntry → StoryEntry}
    (stories_eq : after.stories = roadmap.stories.map change)
    (known : ∀ story, (change story).id = story.id) (id number : Nat) :
    after.Names id number ↔
      ∃ story ∈ roadmap.stories, story.id = id ∧ (change story).phase = some number := by
  simp only [Names, stories_eq, List.mem_map, exists_exists_and_eq_and, known]

/-- Changing a phase that is held changes it where it stands. -/
theorem modifyPhase_eq (distinct : (roadmap.phases.map HeldPhase.number).Nodup) {number : Nat}
    (held : ∃ phase ∈ roadmap.phases, phase.number = number) (change : HeldPhase → HeldPhase) :
    roadmap.modifyPhase number change =
      some { roadmap with phases := roadmap.phases.map (HeldPhase.only number change) } := by
  obtain ⟨phase, phase_mem, rfl⟩ := held
  have once : roadmap.phases.Pairwise fun first second =>
      ¬ (decide (first.number = phase.number) = true ∧
        decide (second.number = phase.number) = true) := by
    refine (List.pairwise_map.mp distinct).imp fun {first second} differ both => ?_
    simp only [decide_eq_true_eq] at both
    exact differ (both.1.trans both.2.symm)
  rw [modifyPhase, modifyFirst_eq_map change once phase_mem (by simp), Option.map_some]
  simp only [decide_eq_true_eq]
  rfl

/-- Changing a story that is held changes it where it stands. -/
theorem modifyStory_eq (distinct : (roadmap.stories.map StoryEntry.id).Nodup) {id : Nat}
    (known : ∃ story ∈ roadmap.stories, story.id = id) (change : StoryEntry → StoryEntry) :
    roadmap.modifyStory id change =
      some { roadmap with stories := roadmap.stories.map (StoryEntry.only id change) } := by
  obtain ⟨story, story_mem, rfl⟩ := known
  have once : roadmap.stories.Pairwise fun first second =>
      ¬ (decide (first.id = story.id) = true ∧ decide (second.id = story.id) = true) := by
    refine (List.pairwise_map.mp distinct).imp fun {first second} differ both => ?_
    simp only [decide_eq_true_eq] at both
    exact differ (both.1.trans both.2.symm)
  rw [modifyStory, modifyFirst_eq_map change once story_mem (by simp), Option.map_some]
  simp only [decide_eq_true_eq]
  rfl

/-- The roadmap once a phase is withdrawn. -/
def withdrawn (number : Nat) : Roadmap :=
  { roadmap with phases := roadmap.phases.map (HeldPhase.only number HeldPhase.withdraw) }

/-- The roadmap with a story more. -/
def appendStory (entry : StoryEntry) : Roadmap :=
  { roadmap with
    stories := roadmap.stories ++ [entry]
    highestStory := max roadmap.highestStory entry.id }

/-- The roadmap once a story it holds is moved. -/
def reassigned (id : Nat) (status : HeldStatus) (destination : Option Nat) : Roadmap :=
  { roadmap with
    phases := roadmap.phases.map (HeldPhase.relocate id destination)
    stories := roadmap.stories.map (StoryEntry.only id (StoryEntry.move status destination)) }

theorem reassignStory_eq (distinct : (roadmap.phases.map HeldPhase.number).Nodup)
    (stories_distinct : (roadmap.stories.map StoryEntry.id).Nodup) {id : Nat}
    (known : ∃ story ∈ roadmap.stories, story.id = id) (status : HeldStatus)
    {destination : Option Nat}
    (held : ∀ number ∈ destination, ∃ phase ∈ roadmap.phases, phase.number = number) :
    roadmap.reassignStory id status destination =
      some (roadmap.reassigned id status destination) := by
  have moved_eq := modifyStory_eq (roadmap.unserve id) stories_distinct known
    (StoryEntry.move status destination)
  rw [reassignStory, moved_eq, Option.bind_some, reassigned]
  cases destination with
  | none => rfl
  | some number =>
      obtain ⟨phase, phase_mem, number_eq⟩ := held number rfl
      have unserved_distinct :
          ((roadmap.phases.map (HeldPhase.unserve id)).map HeldPhase.number).Nodup := by
        rw [List.map_map]
        exact distinct
      refine (modifyPhase_eq _ unserved_distinct
        ⟨phase.unserve id, List.mem_map_of_mem phase_mem, number_eq⟩ (HeldPhase.serve id)).trans ?_
      congr 2
      rw [unserve, List.map_map]
      refine List.map_congr_left fun other _ => ?_
      rw [Function.comp_apply, HeldPhase.only, HeldPhase.relocate]
      exact if_congr (eq_comm.trans Option.some_inj.symm) rfl rfl

theorem names_reassigned (id : Nat) (status : HeldStatus) (destination : Option Nat)
    (other number : Nat) (known : ∃ story ∈ roadmap.stories, story.id = id) :
    (roadmap.reassigned id status destination).Names other number ↔
      roadmap.Names other number ∧ other ≠ id ∨ other = id ∧ destination = some number := by
  rw [names_map roadmap rfl fun story => story.id_only_move id status destination]
  constructor
  · rintro ⟨story, story_mem, rfl, names⟩
    unfold StoryEntry.only at names
    split_ifs at names with moved
    · exact Or.inr ⟨moved, names⟩
    · exact Or.inl ⟨⟨story, story_mem, rfl, names⟩, moved⟩
  · rintro (⟨⟨story, story_mem, rfl, names⟩, other_story⟩ | ⟨rfl, goes⟩)
    · refine ⟨story, story_mem, rfl, ?_⟩
      rwa [StoryEntry.only, if_neg other_story]
    · obtain ⟨story, story_mem, rfl⟩ := known
      refine ⟨story, story_mem, rfl, ?_⟩
      rwa [StoryEntry.only, if_pos rfl]

theorem lists_reassigned (id : Nat) (status : HeldStatus) {destination : Option Nat}
    (held : ∀ number ∈ destination, roadmap.Declared number) (number other : Nat) :
    (roadmap.reassigned id status destination).Lists number other ↔
      roadmap.Lists number other ∧ other ≠ id ∨ other = id ∧ destination = some number := by
  rw [lists_map roadmap rfl fun phase => phase.number_relocate id destination]
  simp only [HeldPhase.mem_relocate]
  constructor
  · rintro ⟨phase, phase_mem, rfl, listed | goes⟩
    · exact Or.inl ⟨⟨phase, phase_mem, rfl, listed.1⟩, listed.2⟩
    · exact Or.inr goes
  · rintro (⟨⟨phase, phase_mem, rfl, listed⟩, other_story⟩ | ⟨rfl, rfl⟩)
    · exact ⟨phase, phase_mem, rfl, Or.inl ⟨listed, other_story⟩⟩
    · obtain ⟨phase, phase_mem, rfl, -⟩ := held number rfl
      exact ⟨phase, phase_mem, rfl, Or.inr ⟨rfl, rfl⟩⟩

end Changed

/-! ## A phase declared -/

section Declaring

variable {roadmap : Roadmap} (ascending : (roadmap.phases.map HeldPhase.number).Pairwise (· < ·))
  {entry : HeldPhase}

include ascending

theorem mem_declarePhase (entry phase : HeldPhase) : phase ∈ (roadmap.declarePhase entry).phases ↔
    phase = entry ∨ phase ∈ roadmap.phases ∧ phase.number ≠ entry.number :=
  mem_putAscending HeldPhase.number entry ascending phase

theorem declared_declarePhase (stands : entry.withdrawn = false) (number : Nat) :
    (roadmap.declarePhase entry).Declared number ↔
      number = entry.number ∨ roadmap.Declared number := by
  have mem_iff := mem_declarePhase ascending entry
  constructor
  · rintro ⟨phase, phase_mem, rfl, phase_stands⟩
    rcases (mem_iff phase).mp phase_mem with rfl | ⟨phase_mem, -⟩
    · exact Or.inl rfl
    · exact Or.inr ⟨phase, phase_mem, rfl, phase_stands⟩
  · by_cases same : number = entry.number
    · exact fun _ => ⟨entry, (mem_iff entry).mpr (Or.inl rfl), same.symm, stands⟩
    · rintro (number_eq | ⟨phase, phase_mem, rfl, phase_stands⟩)
      · exact absurd number_eq same
      · exact ⟨phase, (mem_iff phase).mpr (Or.inr ⟨phase_mem, same⟩), rfl, phase_stands⟩

theorem lists_declarePhase (number id : Nat) :
    (roadmap.declarePhase entry).Lists number id ↔
      number = entry.number ∧ id ∈ entry.stories ∨
        number ≠ entry.number ∧ roadmap.Lists number id := by
  have mem_iff := mem_declarePhase ascending entry
  constructor
  · rintro ⟨phase, phase_mem, rfl, listed⟩
    rcases (mem_iff phase).mp phase_mem with rfl | ⟨phase_mem, differs⟩
    · exact Or.inl ⟨rfl, listed⟩
    · exact Or.inr ⟨differs, phase, phase_mem, rfl, listed⟩
  · rintro (⟨rfl, listed⟩ | ⟨differs, phase, phase_mem, rfl, listed⟩)
    · exact ⟨entry, (mem_iff entry).mpr (Or.inl rfl), rfl, listed⟩
    · exact ⟨phase, (mem_iff phase).mpr (Or.inr ⟨phase_mem, differs⟩), rfl, listed⟩

end Declaring

namespace Serving

variable {leaving : List Nat} {roadmap : Roadmap} (serving : Serving leaving roadmap)

include serving

theorem numbers_nodup : (roadmap.phases.map HeldPhase.number).Nodup :=
  serving.phases_ascending.imp Nat.ne_of_lt

theorem phase_eq {first second : HeldPhase} (first_mem : first ∈ roadmap.phases)
    (second_mem : second ∈ roadmap.phases) (same : first.number = second.number) :
    first = second :=
  List.inj_on_of_nodup_map serving.numbers_nodup first_mem second_mem same

theorem story_eq {first second : StoryEntry} (first_mem : first ∈ roadmap.stories)
    (second_mem : second ∈ roadmap.stories) (same : first.id = second.id) : first = second :=
  List.inj_on_of_nodup_map serving.stories_distinct first_mem second_mem same

/-- A story is listed by one phase at most. -/
theorem listed_once {first second id : Nat} (first_lists : roadmap.Lists first id)
    (second_lists : roadmap.Lists second id) : first = second := by
  obtain ⟨story, story_mem, id_eq, names⟩ := (serving.lists_iff_names first id).mp first_lists
  obtain ⟨other, other_mem, other_id, other_names⟩ :=
    (serving.lists_iff_names second id).mp second_lists
  obtain rfl := serving.story_eq story_mem other_mem (id_eq.trans other_id.symm)
  exact Option.some.inj (names.symm.trans other_names)

theorem names_lists {id number : Nat} (names : roadmap.Names id number) :
    roadmap.Lists number id :=
  (serving.lists_iff_names number id).mpr names

/-- A number past the highest is no phase's. -/
theorem lt_of_highestPhase {phase : HeldPhase} (phase_mem : phase ∈ roadmap.phases) {number : Nat}
    (past : roadmap.highestPhase < number) : phase.number < number :=
  (serving.phase_numbered phase phase_mem).2.trans_lt past

theorem lt_of_highestStory {story : StoryEntry} (story_mem : story ∈ roadmap.stories) {id : Nat}
    (past : roadmap.highestStory < id) : story.id < id :=
  (serving.story_numbered story story_mem).2.trans_lt past

/-! ### Stories told another way -/

omit serving in
/-- What is asked of the stories is asked of what a change is judged against, in any order. -/
theorem of_perm (serving : Serving leaving roadmap) {stories : List StoryEntry}
    (perm : (stories.map StoryEntry.heldStory).Perm (roadmap.stories.map StoryEntry.heldStory)) :
    Serving leaving { roadmap with stories } := by
  have before {story : StoryEntry} (story_mem : story ∈ stories) :
      ∃ other ∈ roadmap.stories, other.id = story.id ∧ other.status = story.status ∧
        other.phase = story.phase := by
    have held_mem := perm.mem_iff.mp (List.mem_map_of_mem (f := StoryEntry.heldStory) story_mem)
    obtain ⟨other, other_mem, held_eq⟩ := List.mem_map.mp held_mem
    simp only [StoryEntry.heldStory, HeldStory.mk.injEq] at held_eq
    exact ⟨other, other_mem, held_eq⟩
  have after {other : StoryEntry} (other_mem : other ∈ roadmap.stories) :
      ∃ story ∈ stories, story.id = other.id ∧ story.phase = other.phase := by
    have held_mem := perm.mem_iff.mpr (List.mem_map_of_mem (f := StoryEntry.heldStory) other_mem)
    obtain ⟨story, story_mem, held_eq⟩ := List.mem_map.mp held_mem
    simp only [StoryEntry.heldStory, HeldStory.mk.injEq] at held_eq
    exact ⟨story, story_mem, held_eq.1, held_eq.2.2⟩
  have ids_perm : (stories.map StoryEntry.id).Perm (roadmap.stories.map StoryEntry.id) := by
    have mapped := perm.map HeldStory.id
    rwa [List.map_map, List.map_map] at mapped
  have names_iff (id number : Nat) :
      Names { roadmap with stories } id number ↔ roadmap.Names id number := by
    constructor
    · rintro ⟨story, story_mem, id_eq, names⟩
      obtain ⟨other, other_mem, other_id, -, other_phase⟩ := before story_mem
      exact ⟨other, other_mem, other_id.trans id_eq, other_phase.trans names⟩
    · rintro ⟨other, other_mem, id_eq, names⟩
      obtain ⟨story, story_mem, story_id, story_phase⟩ := after other_mem
      exact ⟨story, story_mem, story_id.trans id_eq, story_phase.trans names⟩
  refine { serving with
    stories_distinct := ids_perm.nodup_iff.mpr serving.stories_distinct
    story_numbered := ?_, lists_iff_names := ?_, named_declared := ?_, served_active := ?_ }
  · intro story story_mem
    obtain ⟨other, other_mem, id_eq, -⟩ := before story_mem
    exact id_eq ▸ serving.story_numbered other other_mem
  · intro number id
    exact (serving.lists_iff_names number id).trans (names_iff id number).symm
  · intro id number names
    exact serving.named_declared id number ((names_iff id number).mp names)
  · intro story story_mem served
    obtain ⟨other, other_mem, -, status_eq, phase_eq⟩ := before story_mem
    exact status_eq.symm.trans (serving.served_active other other_mem (phase_eq ▸ served))

/-- A corrected sentence leaves who serves whom as it is. -/
theorem correct {story : StoryEntry} (story_mem : story ∈ roadmap.stories) (sentence : String) :
    Serving leaving
      { roadmap with
        stories := roadmap.stories.map
          (StoryEntry.only story.id (StoryEntry.correct sentence story.status)) } := by
  apply serving.of_perm
  rw [List.map_map]
  refine List.Perm.of_eq (List.map_congr_left fun other other_mem => ?_)
  rw [Function.comp_apply, StoryEntry.only]
  split_ifs with same
  · obtain rfl := serving.story_eq other_mem story_mem same
    rfl
  · rfl

theorem reprioritize {order : List Nat} {after : Roadmap}
    (moved : roadmap.reprioritize order = some after) : Serving leaving after := by
  obtain ⟨stories, stories_eq, rfl⟩ := Option.map_eq_some_iff.mp moved
  exact serving.of_perm ((perm_of_reprioritized stories_eq).map _)

/-! ### Stories moved -/

/-- A story that is moved leaves every phase but the one it goes to, which serves active stories
alone. -/
theorem reassign {id : Nat} (known : ∃ story ∈ roadmap.stories, story.id = id)
    {status : HeldStatus} {destination : Option Nat}
    (held : ∀ number ∈ destination, roadmap.Declared number)
    (active : destination ≠ none → status = .active) :
    Serving (leaving.filter fun story => story ≠ id) (roadmap.reassigned id status destination) := by
  have declared_iff (number : Nat) :
      (roadmap.reassigned id status destination).Declared number ↔ roadmap.Declared number :=
    declared_map roadmap rfl (fun phase => phase.number_relocate id destination)
      (fun phase => phase.withdrawn_relocate id destination) number
  have names_iff (story number : Nat) :=
    names_reassigned roadmap id status destination story number known
  have numbers_eq : (roadmap.phases.map (HeldPhase.relocate id destination)).map
      HeldPhase.number = roadmap.phases.map HeldPhase.number := by
    rw [List.map_map]
    exact List.map_congr_left fun phase _ => phase.number_relocate id destination
  have ids_eq : (roadmap.stories.map (StoryEntry.only id (StoryEntry.move status
      destination))).map StoryEntry.id = roadmap.stories.map StoryEntry.id := by
    rw [List.map_map]
    exact List.map_congr_left fun story _ => story.id_only_move id status destination
  refine
    { phases_ascending := numbers_eq ▸ serving.phases_ascending
      highestPhase_fits := serving.highestPhase_fits
      stories_distinct := ids_eq ▸ serving.stories_distinct
      highestStory_fits := serving.highestStory_fits
      phase_numbered := ?_, story_numbered := ?_, listed_nodup := ?_, lists_iff_names := ?_
      named_declared := ?_, served_active := ?_ }
  · intro moved moved_mem
    obtain ⟨phase, phase_mem, rfl⟩ := List.mem_map.mp moved_mem
    rw [HeldPhase.number_relocate]
    exact serving.phase_numbered phase phase_mem
  · intro moved moved_mem
    obtain ⟨story, story_mem, rfl⟩ := List.mem_map.mp moved_mem
    rw [StoryEntry.id_only_move]
    exact serving.story_numbered story story_mem
  · intro moved moved_mem
    obtain ⟨phase, phase_mem, rfl⟩ := List.mem_map.mp moved_mem
    exact HeldPhase.nodup_relocate (serving.listed_nodup phase phase_mem) id destination
  · intro number story
    rw [lists_reassigned roadmap id status held, names_iff, serving.lists_iff_names]
  · intro story number names
    rw [declared_iff]
    rcases (names_iff story number).mp names with ⟨names, other_story⟩ | ⟨rfl, goes⟩
    · refine (serving.named_declared story number names).imp_right fun leaves => ?_
      exact List.mem_filter.mpr ⟨leaves, by simpa using other_story⟩
    · exact Or.inl (held number goes)
  · intro moved moved_mem
    obtain ⟨story, story_mem, rfl⟩ := List.mem_map.mp moved_mem
    unfold StoryEntry.only
    split_ifs
    · exact active
    · exact serving.served_active story story_mem

/-! ### Stories declared -/

omit serving in
/-- A new story is declared as one no phase serves, then moved to its phase. -/
theorem declareStory_eq (serving : Serving [] roadmap) {entry : StoryEntry}
    (number_eq : entry.id = roadmap.highestStory + 1)
    (held : ∀ number ∈ entry.phase, roadmap.Declared number) :
    roadmap.declareStory entry =
      (roadmap.appendStory { entry with phase := none }).reassigned entry.id entry.status
        entry.phase := by
  have past : roadmap.highestStory < entry.id := by omega
  have absent : ∀ story ∈ roadmap.stories, decide (story.id = entry.id) = false := by
    intro story story_mem
    have below := serving.lt_of_highestStory story_mem past
    exact decide_eq_false (by omega)
  have unlisted : ∀ phase ∈ roadmap.phases, entry.id ∉ phase.stories := by
    intro phase phase_mem listed
    obtain ⟨story, story_mem, id_eq, -⟩ :=
      (serving.lists_iff_names phase.number entry.id).mp ⟨phase, phase_mem, rfl, listed⟩
    have below := serving.lt_of_highestStory story_mem past
    omega
  have stories_eq : (roadmap.stories ++ [{ entry with phase := none }]).map
      (StoryEntry.only entry.id (StoryEntry.move entry.status entry.phase)) =
        roadmap.stories ++ [entry] := by
    rw [List.map_append, List.map_singleton, StoryEntry.only, if_pos rfl]
    congr 1
    refine map_eq_self fun story story_mem => ?_
    have below := serving.lt_of_highestStory story_mem past
    rw [StoryEntry.only, if_neg (by omega)]
  rw [declareStory, putFirst_of_absent _ absent, reassigned, appendStory, stories_eq]
  simp only
  cases entry_phase : entry.phase with
  | none =>
      have phases_eq : roadmap.phases.map (HeldPhase.relocate entry.id none) = roadmap.phases :=
        map_eq_self fun phase phase_mem =>
          HeldPhase.unserve_of_unlisted (unlisted phase phase_mem)
      rw [phases_eq]
      rfl
  | some number =>
      obtain ⟨phase, phase_mem, number_eq, -⟩ := held number entry_phase
      have phases_eq : roadmap.phases.map (HeldPhase.only number (HeldPhase.serve entry.id)) =
          roadmap.phases.map (HeldPhase.relocate entry.id (some number)) := by
        refine List.map_congr_left fun other other_mem => ?_
        rw [HeldPhase.only, HeldPhase.relocate,
          HeldPhase.unserve_of_unlisted (unlisted other other_mem)]
        exact if_congr (eq_comm.trans Option.some_inj.symm) rfl rfl
      have modified := modifyPhase_eq (roadmap.appendStory entry) serving.numbers_nodup
        ⟨phase, phase_mem, number_eq⟩ (HeldPhase.serve entry.id)
      rw [Option.bind_some]
      refine (congrArg (fun served => served.getD (roadmap.appendStory entry)) modified).trans ?_
      rw [Option.getD_some, appendStory, phases_eq]

/-- A new story no phase serves yet. -/
theorem append {entry : StoryEntry} (number_eq : entry.id = roadmap.highestStory + 1)
    (fits : entry.id ≤ maxU32) (backlog : entry.phase = none) :
    Serving leaving (roadmap.appendStory entry) := by
  have highest_eq : max roadmap.highestStory entry.id = entry.id := by omega
  have names_iff (id number : Nat) :
      (roadmap.appendStory entry).Names id number ↔ roadmap.Names id number := by
    simp [Names, appendStory, or_and_right, exists_or, backlog]
  refine { serving with
    stories_distinct := ?_, story_numbered := ?_, highestStory_fits := highest_eq.le.trans fits
    lists_iff_names := ?_, named_declared := ?_, served_active := ?_ }
  · rw [appendStory, List.map_append, List.map_singleton, List.nodup_append]
    refine ⟨serving.stories_distinct, List.nodup_singleton _, ?_⟩
    intro id id_mem _ entry_mem same
    obtain ⟨story, story_mem, rfl⟩ := List.mem_map.mp id_mem
    have below := serving.story_numbered story story_mem
    rw [List.mem_singleton.mp entry_mem] at same
    omega
  · intro story story_mem
    rcases List.mem_append.mp story_mem with story_mem | story_mem
    · have numbered := serving.story_numbered story story_mem
      exact ⟨numbered.1, numbered.2.trans (le_max_left _ _)⟩
    · rw [List.mem_singleton.mp story_mem]
      exact ⟨by omega, le_max_right _ _⟩
  · intro number id
    exact (serving.lists_iff_names number id).trans (names_iff id number).symm
  · intro id number names
    exact serving.named_declared id number ((names_iff id number).mp names)
  · intro story story_mem served
    rcases List.mem_append.mp story_mem with story_mem | story_mem
    · exact serving.served_active story story_mem served
    · rw [List.mem_singleton.mp story_mem] at served
      exact absurd backlog served

/-! ### Phases declared and withdrawn -/

omit serving in
/-- A phase that is declared, anew or again, serves the active stories it lists when no other phase
does. -/
theorem declarePhase (serving : Serving [] roadmap) {entry : HeldPhase}
    (number_eq : entry.number = roadmap.highestPhase + 1 ∧ entry.number ≤ maxU32 ∨
      roadmap.Declared entry.number)
    (stands : entry.withdrawn = false) (distinct : entry.stories.Nodup)
    (active : ∀ id ∈ entry.stories, ∃ story ∈ roadmap.stories, story.id = id ∧
      story.status = .active ∧ (story.phase = none ∨ story.phase = some entry.number)) :
    Serving [] (roadmap.declarePhase entry) := by
  have mem_iff := mem_declarePhase serving.phases_ascending entry
  have entry_numbered : 1 ≤ entry.number ∧ max roadmap.highestPhase entry.number ≤ maxU32 := by
    have fits := serving.highestPhase_fits
    rcases number_eq with ⟨number_eq, number_fits⟩ | ⟨phase, phase_mem, number_eq, -⟩
    · omega
    · have numbered := serving.phase_numbered phase phase_mem
      omega
  have names_iff (id number : Nat) :
      (roadmap.declarePhase entry).Names id number ↔
        number = entry.number ∧ id ∈ entry.stories ∨
          number ≠ entry.number ∧ roadmap.Names id number := by
    rw [names_map roadmap rfl fun story => story.id_relist entry.number entry.stories]
    constructor
    · rintro ⟨story, story_mem, rfl, names⟩
      unfold StoryEntry.relist at names
      split_ifs at names with listed was
      · exact Or.inl ⟨(Option.some.inj names).symm, listed⟩
      · refine Or.inr ⟨?_, story, story_mem, rfl, names⟩
        rintro rfl
        exact was names
    · rintro (⟨rfl, listed⟩ | ⟨differs, story, story_mem, rfl, names⟩)
      · obtain ⟨story, story_mem, rfl, -⟩ := active id listed
        refine ⟨story, story_mem, rfl, ?_⟩
        rw [StoryEntry.relist, if_pos listed]
      · refine ⟨story, story_mem, rfl, ?_⟩
        have unlisted : story.id ∉ entry.stories := by
          intro listed
          obtain ⟨other, other_mem, same, -, free⟩ := active story.id listed
          rw [serving.story_eq other_mem story_mem same, names] at free
          rcases free with free | free
          · cases free
          · exact differs (Option.some.inj free)
        have elsewhere : story.phase ≠ some entry.number := by
          rw [names]
          exact fun same => differs (Option.some.inj same)
        rwa [StoryEntry.relist, if_neg unlisted, if_neg elsewhere]
  have ids_eq : (roadmap.stories.map (StoryEntry.relist entry.number entry.stories)).map
      StoryEntry.id = roadmap.stories.map StoryEntry.id := by
    rw [List.map_map]
    exact List.map_congr_left fun story _ => story.id_relist entry.number entry.stories
  refine
    { phases_ascending := ascending_putAscending HeldPhase.number rfl serving.phases_ascending
      highestPhase_fits := entry_numbered.2
      stories_distinct := ids_eq ▸ serving.stories_distinct
      highestStory_fits := serving.highestStory_fits
      phase_numbered := ?_, story_numbered := ?_, listed_nodup := ?_, lists_iff_names := ?_
      named_declared := ?_, served_active := ?_ }
  · intro phase phase_mem
    rcases (mem_iff phase).mp phase_mem with rfl | ⟨phase_mem, -⟩
    · exact ⟨entry_numbered.1, le_max_right _ _⟩
    · have numbered := serving.phase_numbered phase phase_mem
      exact ⟨numbered.1, numbered.2.trans (le_max_left _ _)⟩
  · intro relisted relisted_mem
    obtain ⟨story, story_mem, rfl⟩ := List.mem_map.mp relisted_mem
    rw [StoryEntry.id_relist]
    exact serving.story_numbered story story_mem
  · intro phase phase_mem
    rcases (mem_iff phase).mp phase_mem with rfl | ⟨phase_mem, -⟩
    · exact distinct
    · exact serving.listed_nodup phase phase_mem
  · intro number id
    rw [lists_declarePhase serving.phases_ascending, names_iff, serving.lists_iff_names]
  · intro id number names
    rw [declared_declarePhase serving.phases_ascending stands]
    refine Or.inl ?_
    rcases (names_iff id number).mp names with ⟨number_eq, -⟩ | ⟨-, names⟩
    · exact Or.inl number_eq
    · exact Or.inr ((serving.named_declared id number names).resolve_right List.not_mem_nil)
  · intro relisted relisted_mem served
    obtain ⟨story, story_mem, rfl⟩ := List.mem_map.mp relisted_mem
    rw [StoryEntry.status_relist]
    unfold StoryEntry.relist at served
    split_ifs at served with listed was
    · obtain ⟨other, other_mem, same, other_active, -⟩ := active story.id listed
      rwa [← serving.story_eq other_mem story_mem same]
    · exact absurd rfl served
    · exact serving.served_active story story_mem served

omit serving in
/-- The stories of a phase that is withdrawn are leaving it. -/
theorem withdraw (serving : Serving [] roadmap) {phase : HeldPhase}
    (phase_mem : phase ∈ roadmap.phases) :
    Serving phase.stories (roadmap.withdrawn phase.number) := by
  have same_number (other : HeldPhase) :
      (other.only phase.number HeldPhase.withdraw).number = other.number := by
    unfold HeldPhase.only
    split_ifs <;> rfl
  have same_stories (other : HeldPhase) :
      (other.only phase.number HeldPhase.withdraw).stories = other.stories := by
    unfold HeldPhase.only
    split_ifs <;> rfl
  have numbers_eq : (roadmap.phases.map (HeldPhase.only phase.number HeldPhase.withdraw)).map
      HeldPhase.number = roadmap.phases.map HeldPhase.number := by
    rw [List.map_map]
    exact List.map_congr_left fun other _ => same_number other
  refine { serving with
    phases_ascending := numbers_eq ▸ serving.phases_ascending
    phase_numbered := ?_, listed_nodup := ?_, lists_iff_names := ?_, named_declared := ?_ }
  · intro withdrawn withdrawn_mem
    obtain ⟨other, other_mem, rfl⟩ := List.mem_map.mp withdrawn_mem
    rw [same_number]
    exact serving.phase_numbered other other_mem
  · intro withdrawn withdrawn_mem
    obtain ⟨other, other_mem, rfl⟩ := List.mem_map.mp withdrawn_mem
    rw [same_stories]
    exact serving.listed_nodup other other_mem
  · intro number id
    rw [lists_map roadmap rfl same_number]
    simp only [same_stories]
    exact serving.lists_iff_names number id
  · intro id number names
    obtain ⟨other, other_mem, number_eq, stands⟩ :=
      (serving.named_declared id number names).resolve_right List.not_mem_nil
    by_cases same : other.number = phase.number
    · obtain rfl := serving.phase_eq other_mem phase_mem same
      obtain ⟨listing, listing_mem, listing_eq, listed⟩ :=
        (serving.lists_iff_names number id).mpr names
      rw [serving.phase_eq listing_mem other_mem (listing_eq.trans number_eq.symm)] at listed
      exact Or.inr listed
    · refine Or.inl ⟨other, List.mem_map.mpr ⟨other, other_mem, ?_⟩, number_eq, stands⟩
      rw [HeldPhase.only, if_neg same]

end Serving

end Roadmap

end Baley.Scope
