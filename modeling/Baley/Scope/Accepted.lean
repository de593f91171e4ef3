import Baley.Scope.Depending

/-!
# Accepted scope

What a change is judged against: the roadmap, read back from its document.
-/

namespace Baley.Scope

open Json

/-! ## Reading back -/

theorem mapM_written {α β : Type} {write : α → Value} {read : Value → Option β} {shown : α → β}
    {items : List α} (reads : ∀ item ∈ items, read (write item) = some (shown item)) :
    (items.map write).mapM read = some (items.map shown) := by
  induction items with
  | nil => rfl
  | cons item items ih =>
      rw [List.map_cons, List.mapM_cons, reads item List.mem_cons_self,
        ih fun other other_mem => reads other (List.mem_cons_of_mem _ other_mem)]
      rfl

theorem readWholes_numbers {list : List Nat} (fits : ∀ n ∈ list, n ≤ maxU32) :
    AcceptedScope.readWholes (some (ScopeEvent.numbers list)) = some list := by
  have read_eq := mapM_written fun n n_mem => asU32_ofNat (fits n n_mem)
  rw [List.map_id'] at read_eq
  exact read_eq

/-- The numbers of a phase fit 32 bits. -/
structure HeldPhase.Fits (phase : HeldPhase) : Prop where
  number : phase.number ≤ maxU32
  dependsOn : ∀ number ∈ phase.dependsOn, number ≤ maxU32
  stories : ∀ id ∈ phase.stories, id ≤ maxU32

theorem readPhase_toValue {phase : HeldPhase} (fits : phase.Fits) :
    AcceptedScope.readPhase phase.toValue = some phase := by
  obtain ⟨number, name, goal, dependsOn, stories, withdrawn⟩ := phase
  have number_read := asU32_ofNat fits.number
  have dependsOn_read := readWholes_numbers fits.dependsOn
  have stories_read := readWholes_numbers fits.stories
  cases withdrawn <;>
    simp [AcceptedScope.readPhase, AcceptedScope.readWhole, HeldPhase.toValue, Value.ofEntries,
      Members.lookup_ofEntries, Members.lookup_cons, number_read, dependsOn_read, stories_read]

@[simp]
theorem HeldStatus.parse_asStr (status : HeldStatus) : parse status.asStr = some status := by
  cases status <;> rfl

theorem readPhaseOrNull_numberOrNull {phase : Option Nat} (fits : ∀ number ∈ phase, number ≤ maxU32) :
    AcceptedScope.readPhaseOrNull (ScopeEvent.numberOrNull phase) = some phase := by
  cases phase with
  | none => rfl
  | some number => exact congrArg (Option.map some) (asU32_ofNat (fits number rfl))

theorem readStory_toValue {story : StoryEntry} (id_fits : story.id ≤ maxU32)
    (phase_fits : ∀ number ∈ story.phase, number ≤ maxU32) :
    AcceptedScope.readStory story.toValue = some story.heldStory := by
  have id_read := asU32_ofNat id_fits
  have phase_read := readPhaseOrNull_numberOrNull phase_fits
  simp [AcceptedScope.readStory, AcceptedScope.readWhole, StoryEntry.toValue, Value.ofEntries,
    StoryEntry.heldStory,
    Members.lookup_ofEntries, Members.lookup_cons, id_read, phase_read]

/-! ## Consistent scope -/

namespace Roadmap

/-- What a change is judged against. -/
def accepted (roadmap : Roadmap) : AcceptedScope where
  phases := roadmap.phases
  order := roadmap.order
  stories := roadmap.stories.map StoryEntry.heldStory
  highestPhase := roadmap.highestPhase
  highestStory := roadmap.highestStory

/-- Accepted scope agrees with itself. -/
structure Consistent (roadmap : Roadmap) : Prop where
  serving : Serving [] roadmap
  depending : Depending roadmap
  ordered : Ordered roadmap

namespace Consistent

variable {roadmap : Roadmap} (consistent : Consistent roadmap)

include consistent

theorem number_fits {phase : HeldPhase} (phase_mem : phase ∈ roadmap.phases) :
    phase.number ≤ maxU32 :=
  (consistent.serving.phase_numbered phase phase_mem).2.trans consistent.serving.highestPhase_fits

theorem declared_fits {number : Nat} (declared : roadmap.Declared number) : number ≤ maxU32 := by
  obtain ⟨phase, phase_mem, rfl, -⟩ := declared
  exact consistent.number_fits phase_mem

theorem id_fits {story : StoryEntry} (story_mem : story ∈ roadmap.stories) : story.id ≤ maxU32 :=
  (consistent.serving.story_numbered story story_mem).2.trans consistent.serving.highestStory_fits

/-- The phase a story names is declared. -/
theorem named_declared {story : StoryEntry} (story_mem : story ∈ roadmap.stories) {number : Nat}
    (names : story.phase = some number) : roadmap.Declared number :=
  (consistent.serving.named_declared story.id number ⟨story, story_mem, rfl, names⟩).resolve_right
    List.not_mem_nil

/-- The story a phase lists names the phase and is active. -/
theorem listed_story {phase : HeldPhase} (phase_mem : phase ∈ roadmap.phases) {id : Nat}
    (listed : id ∈ phase.stories) : ∃ story ∈ roadmap.stories, story.id = id ∧
      story.phase = some phase.number ∧ story.status = .active := by
  obtain ⟨story, story_mem, id_eq, names⟩ :=
    (consistent.serving.lists_iff_names phase.number id).mp ⟨phase, phase_mem, rfl, listed⟩
  refine ⟨story, story_mem, id_eq, names, consistent.serving.served_active story story_mem ?_⟩
  rw [names]
  exact Option.some_ne_none _

/-- A withdrawn phase lists no story. -/
theorem withdrawn_empty {phase : HeldPhase} (phase_mem : phase ∈ roadmap.phases)
    (withdrawn : phase.withdrawn = true) : phase.stories = [] := by
  refine List.eq_nil_iff_forall_not_mem.mpr fun id listed => ?_
  obtain ⟨story, story_mem, -, names, -⟩ := consistent.listed_story phase_mem listed
  obtain ⟨other, other_mem, number_eq, stands⟩ := consistent.named_declared story_mem names
  rw [consistent.serving.phase_eq other_mem phase_mem number_eq, withdrawn] at stands
  cases stands

theorem phase_fits {phase : HeldPhase} (phase_mem : phase ∈ roadmap.phases) : phase.Fits := by
  constructor
  · exact consistent.number_fits phase_mem
  · intro number depends
    obtain ⟨other, other_mem, rfl⟩ :=
      consistent.depending.dependencies_held phase phase_mem number depends
    exact consistent.number_fits other_mem
  · intro id listed
    obtain ⟨story, story_mem, rfl, -⟩ := consistent.listed_story phase_mem listed
    exact consistent.id_fits story_mem

/-- The document of a consistent roadmap reads back as what changes are judged against. -/
theorem read_toMembers :
    AcceptedScope.read (some (.object roadmap.toMembers)) = some roadmap.accepted := by
  have phases_read : (roadmap.phases.map HeldPhase.toValue).mapM AcceptedScope.readPhase =
      some roadmap.phases := by
    have read_eq := mapM_written fun phase phase_mem =>
      readPhase_toValue (consistent.phase_fits phase_mem)
    rwa [List.map_id'] at read_eq
  have stories_read : (roadmap.stories.map StoryEntry.toValue).mapM AcceptedScope.readStory =
      some (roadmap.stories.map StoryEntry.heldStory) := by
    refine mapM_written fun story story_mem => ?_
    refine readStory_toValue (consistent.id_fits story_mem) fun number names => ?_
    exact consistent.declared_fits (consistent.named_declared story_mem names)
  have order_read := readWholes_numbers fun number number_mem =>
    consistent.declared_fits ((consistent.ordered.mem_order number).mp number_mem)
  have highestPhase_read := asU32_ofNat consistent.serving.highestPhase_fits
  have highestStory_read := asU32_ofNat consistent.serving.highestStory_fits
  simp [AcceptedScope.read, AcceptedScope.readWhole, toMembers, accepted, Members.lookup_ofEntries,
    Members.lookup_cons, phases_read, stories_read, order_read, highestPhase_read,
    highestStory_read]

end Consistent

end Roadmap

end Baley.Scope
