import Baley.Plan.Content
import Mathlib.Data.List.DropRight

/-!
# A plan against its phase

The phase's facts are its committed stories with their current truths and the evidence items of its
approved plans.  Each item of a plan is bound to the current truth it serves, holds one definition
across the phase, and a link's value must stand in its truth.
-/

namespace Baley

open Json

/-- One current truth of a committed story, its slot texts as approved. -/
structure CurrentTruth where
  id : String
  version : Nat
  trigger : String
  observer : String
  outcome : String
  /-- The tool or live service a person needs to prove it. -/
  humanVerify : Option String
  deriving DecidableEq

/-- One story committed to the phase, with its current truths in the story's order. -/
structure CommittedStory where
  id : Nat
  truths : List CurrentTruth
  deriving DecidableEq

namespace Plan

/-- A member that is a whole number of 32 bits. -/
def whole (entry : Value) (name : String) : Option Nat :=
  (entry.get? name).bind asU32

def kindOf : String → Option EvidenceKind
  | "artifact" => some .artifact
  | "link" => some .link
  | "check" => some .check
  | "observation" => some .observation
  | _ => none

/-- What a recorded item says of the truth it serves. -/
structure Recorded (definition : Value) (id : String) (story : Nat) (truth : String) (version : Nat)
    (kind : EvidenceKind) : Prop where
  id_eq : textOf definition "id" = some id
  story_eq : whole definition "story" = some story
  truth_eq : textOf definition "truth" = some truth
  version_eq : whole definition "truth_version" = some version
  kind_eq : (textOf definition "kind").bind kindOf = some kind

end Plan

/-- One evidence item of an approved plan of the phase, as recorded. -/
structure ApprovedItem where
  /-- The number of the approved plan that holds it. -/
  plan : Nat
  id : String
  story : Nat
  truth : String
  truthVersion : Nat
  kind : EvidenceKind
  /-- Its whole definition. -/
  definition : Value
  recorded : Plan.Recorded definition id story truth truthVersion kind

/-- What a plan is judged on besides itself. -/
structure PlanFacts where
  /-- The phase's committed stories, in commitment order. -/
  stories : List CommittedStory
  approved : List ApprovedItem
  /-- The tasks of the phase's approved plans. -/
  size : Nat
  capacity : Option Nat

namespace Plan

/-- One item of an approved plan, read from its definition. -/
def approvedItem (plan : Nat) (item : Value) : Option ApprovedItem :=
  match kind_eq : (textOf item "kind").bind kindOf, id_eq : textOf item "id", story_eq : whole item "story",
      truth_eq : textOf item "truth", version_eq : whole item "truth_version" with
  | some kind, some id, some story, some truth, some truthVersion =>
      some
        { plan, id, story, truth, truthVersion, kind
          definition := item
          recorded := ⟨id_eq, story_eq, truth_eq, version_eq, kind_eq⟩ }
  | _, _, _, _, _ => none

/-- The items of an approved plan's document; none when any cannot be read. -/
def approvedItems (document : Value) : Option (List ApprovedItem) := do
  let plan ← whole document "plan"
  let items ← (document.get? "items").bind Value.asArray
  items.mapM (approvedItem plan)

/-! ## Stories and truths -/

/-- Step (5): some committed story holds a truth. -/
def holdsTruths (facts : PlanFacts) : Except PlanRefusal Unit :=
  if facts.stories.all fun story => story.truths.isEmpty then .error .noTruths else .ok ()

/-- Step (6): every story the plan serves is committed. -/
def committed (stories : List Nat) (facts : PlanFacts) : Except PlanRefusal Unit :=
  match stories.find? fun id => !facts.stories.any fun story => story.id = id with
  | some story => .error (.storyNotInPhase story)
  | none => .ok ()

def storyOf (facts : PlanFacts) (id : Nat) : Option CommittedStory :=
  facts.stories.find? fun story => story.id = id

/-- The current truth of a story that has an id. -/
def currentTruth (facts : PlanFacts) (story : Nat) (truth : String) : Option CurrentTruth :=
  (storyOf facts story).bind fun story => story.truths.find? fun other => other.id = truth

/-- The current truth an item is bound to. -/
def bindOne (stories : List Nat) (facts : PlanFacts) (item : EvidenceItem) (position : Nat) :
    Except PlanRefusal CurrentTruth :=
  match if item.story ∈ stories then currentTruth facts item.story item.truth else none with
  | none => .error (.evidenceItemTruth position item.id)
  | some truth =>
      if truth.version ≠ item.truthVersion then
        .error (.truthVersionMismatch position item.id truth.version)
      else .ok truth

/-- Step (7): each item's truth, in the plan's item order. -/
def bind (stories : List Nat) (items : List EvidenceItem) (facts : PlanFacts) :
    Except PlanRefusal (List CurrentTruth) :=
  items.zipIdx.mapM fun item => bindOne stories facts item.1 item.2

/-! ## Definitions and links -/

/-- The first approved item of an item's id with another definition. -/
def conflict (approved : List ApprovedItem) (position : Nat) (item : Value × EvidenceItem) :
    Option PlanRefusal :=
  (approved.find? fun other => other.id = item.2.id ∧ (other.definition == item.1) = false).map fun other =>
    .evidenceItemConflict position item.2.id other.plan

/-- Step (8): each item id holds one definition across the phase. -/
def consistent (submitted : List Value) (items : List EvidenceItem) (approved : List ApprovedItem) :
    Except PlanRefusal Unit :=
  passEach (conflict approved) 0 (submitted.zip items)

/-- A text without the white space at its ends. -/
def trimmed (text : String) : List Char :=
  (text.toList.dropWhile isWhiteSpace).rdropWhile isWhiteSpace

/-- Whether a slot holds a value as a delimited token. -/
def names (word : Char → Bool) (slot value : List Char) : Bool :=
  match value.head?, value.getLast? with
  | some first, some last =>
      (List.range slot.length).any fun place =>
        value.isPrefixOf (slot.drop place) &&
          !(word first && (slot.take place).getLast?.any word) &&
          !(word last && (slot.drop (place + value.length)).head?.any word)
  | _, _ => false

/-- A letter, a digit or an underscore, where letters and digits are as the language has them. -/
def wordWith (isAlphanumeric : Char → Bool) (c : Char) : Bool :=
  isAlphanumeric c || c = '_'

def slots (truth : CurrentTruth) : List String :=
  [truth.trigger, truth.observer, truth.outcome]

/-- The refusal of a link whose value no slot of its truth names. -/
def unnamed (isAlphanumeric : Char → Bool) (position : Nat) (item : EvidenceItem × CurrentTruth) :
    Option PlanRefusal :=
  match item.1.spec with
  | .link link =>
      if (slots item.2).any fun slot => names (wordWith isAlphanumeric) slot.toList (trimmed link.value) then
        none
      else some (.linkValueNotNamed position item.1.id)
  | _ => none

/-- Step (9): each link's value is named by its truth. -/
def named (isAlphanumeric : Char → Bool) (items : List EvidenceItem) (truths : List CurrentTruth) :
    Except PlanRefusal Unit :=
  passEach (unnamed isAlphanumeric) 0 (items.zip truths)

/-! ## What is asked -/

/-- An item names a current truth of its own served story, at that truth's current version. -/
def Binds (stories : List Nat) (facts : PlanFacts) (item : EvidenceItem) (truth : CurrentTruth) : Prop :=
  item.story ∈ stories ∧ currentTruth facts item.story item.truth = some truth ∧
    truth.version = item.truthVersion

/-- No approved item has the id of an item and another definition. -/
def OneDefinition (facts : PlanFacts) (definition : Value) (item : EvidenceItem) : Prop :=
  ∀ other ∈ facts.approved, other.id = item.id → other.definition = definition

/-- A value stands in a slot, and where it begins or ends with a word character no other one touches
it there. -/
def StandsIn (word : Char → Bool) (slot value : List Char) : Prop :=
  value ≠ [] ∧ ∃ before after, slot = before ++ (value ++ after) ∧
    (∀ first ∈ value.head?, ∀ previous ∈ before.getLast?, ¬(word first = true ∧ word previous = true)) ∧
    ∀ last ∈ value.getLast?, ∀ next ∈ after.head?, ¬(word last = true ∧ word next = true)

/-- A link's trimmed value stands in one slot of a truth. -/
def LinkNamed (isAlphanumeric : Char → Bool) (item : EvidenceItem) (truth : CurrentTruth) : Prop :=
  ∀ link, item.spec = .link link →
    ∃ slot ∈ slots truth, StandsIn (wordWith isAlphanumeric) slot.toList (trimmed link.value)

theorem holdsTruths_eq_ok {facts : PlanFacts} :
    holdsTruths facts = .ok () ↔ ∃ story ∈ facts.stories, story.truths ≠ [] := by
  unfold holdsTruths
  split_ifs with none_held
  · refine iff_of_false (by simp) ?_
    rintro ⟨story, story_mem, held⟩
    exact held (List.isEmpty_iff.mp (List.all_eq_true.mp none_held story story_mem))
  · refine iff_of_true rfl ?_
    simpa using none_held

theorem committed_eq_ok {stories : List Nat} {facts : PlanFacts} :
    committed stories facts = .ok () ↔ ∀ id ∈ stories, ∃ story ∈ facts.stories, story.id = id := by
  unfold committed
  split
  · rename_i id found
    refine iff_of_false (by simp) fun all_committed => ?_
    have absent := List.find?_some found
    obtain ⟨story, story_mem, same⟩ := all_committed id (List.mem_of_find?_eq_some found)
    simp at absent
    exact absent story story_mem same
  · rename_i none_found
    refine iff_of_true rfl fun id id_mem => ?_
    have present := List.find?_eq_none.mp none_found id id_mem
    simpa using present

theorem bindOne_eq_ok {stories : List Nat} {facts : PlanFacts} {item : EvidenceItem} {position : Nat}
    {truth : CurrentTruth} :
    bindOne stories facts item position = .ok truth ↔ Binds stories facts item truth := by
  unfold bindOne Binds
  by_cases served : item.story ∈ stories
  · rw [if_pos served]
    cases found : currentTruth facts item.story item.truth with
    | none => simp
    | some current =>
        simp only [served, true_and, Option.some.injEq]
        split_ifs with other_version
        · refine iff_of_false (by simp) ?_
          rintro ⟨rfl, same⟩
          exact other_version same
        · rw [not_not] at other_version
          rw [Except.ok.injEq]
          constructor
          · rintro rfl
            exact ⟨rfl, other_version⟩
          · exact fun same => same.1
  · simp [served]

theorem bind_eq_ok {stories : List Nat} {items : List EvidenceItem} {facts : PlanFacts}
    {truths : List CurrentTruth} :
    bind stories items facts = .ok truths ↔ List.Forall₂ (Binds stories facts) items truths := by
  have each (position : Nat) :
      ((items.zipIdx position).mapM fun item => bindOne stories facts item.1 item.2) = .ok truths ↔
        List.Forall₂ (Binds stories facts) items truths := by
    induction items generalizing position truths with
    | nil =>
        simp only [List.zipIdx_nil, List.mapM_nil, pure, Except.pure, Except.ok.injEq,
          List.forall₂_nil_left_iff]
        exact eq_comm
    | cons item items ih =>
        simp only [List.zipIdx_cons, List.mapM_cons, Except.bind_eq_ok, bindOne_eq_ok, ih, pure,
          Except.pure, Except.ok.injEq, List.forall₂_cons_left_iff]
        constructor
        · rintro ⟨truth, binds, truths, all_bound, rfl⟩
          exact ⟨truth, truths, binds, all_bound, rfl⟩
        · rintro ⟨truth, truths, binds, all_bound, rfl⟩
          exact ⟨truth, binds, truths, all_bound, rfl⟩
  exact each 0

theorem forall_mem_zip {α β : Type} {Holds : α → β → Prop} {first : List α} {second : List β}
    {Pairs : α → β → Prop} (paired : List.Forall₂ Pairs first second) :
    (∀ pair ∈ first.zip second, Holds pair.1 pair.2) ↔ List.Forall₂ Holds first second := by
  induction paired with
  | nil => simp
  | cons _ _ ih => rw [List.zip_cons_cons, List.forall_mem_cons, List.forall₂_cons, ih]

theorem consistent_eq_ok {submitted : List Value} {items : List EvidenceItem} {facts : PlanFacts}
    (written : List.Forall₂ Evidence.ItemAs submitted items) :
    consistent submitted items facts.approved = .ok () ↔
      List.Forall₂ (OneDefinition facts) submitted items := by
  rw [← forall_mem_zip written]
  refine passEach_eq_ok fun position item => ?_
  simp only [conflict, OneDefinition, Option.map_eq_none_iff, List.find?_eq_none, decide_eq_true_eq, not_and,
    Bool.not_eq_false]
  exact forall₂_congr fun other other_mem => imp_congr_right fun _ =>
    ⟨Value.eq_of_beq, fun same => same ▸ Value.beq_self _⟩

theorem names_iff {word : Char → Bool} {slot value : List Char} :
    names word slot value = true ↔ StandsIn word slot value := by
  unfold names StandsIn
  rcases List.eq_nil_or_concat value with rfl | ⟨front, last, value_eq⟩
  · simp
  · rw [List.concat_eq_append] at value_eq
    have some_value : value ≠ [] := by simp [value_eq]
    have head_eq : value.head? = some (value.head some_value) := List.head?_eq_some_head some_value
    have last_eq : value.getLast? = some last := by simp [value_eq]
    have touches (here : Char) (neighbour : Option Char) :
        (!(word here && neighbour.any word)) = true ↔
          ∀ other ∈ neighbour, ¬(word here = true ∧ word other = true) := by
      cases neighbour with
      | none => simp
      | some other => cases word here <;> simp
    simp only [head_eq, last_eq, List.any_eq_true, List.mem_range, Bool.and_eq_true, touches,
      List.isPrefixOf_iff_prefix, ne_eq, some_value, not_false_eq_true, true_and, Option.mem_some_iff,
      forall_eq']
    constructor
    · rintro ⟨place, inside, ⟨⟨after, slot_eq⟩, apart_before⟩, apart_after⟩
      refine ⟨slot.take place, after, ?_, apart_before, ?_⟩
      · rw [slot_eq, List.take_append_drop]
      · rw [← List.drop_drop, ← slot_eq, List.drop_left] at apart_after
        exact apart_after
    · rintro ⟨before, after, rfl, apart_before, apart_after⟩
      refine ⟨before.length, ?_, ⟨?_, ?_⟩, ?_⟩
      · have positive := List.length_pos_iff.mpr some_value
        rw [List.length_append, List.length_append]
        omega
      · rw [List.drop_left]
        exact List.prefix_append value after
      · rwa [List.take_left]
      · rwa [← List.drop_drop, List.drop_left, List.drop_left]

theorem named_eq_ok {isAlphanumeric : Char → Bool} {items : List EvidenceItem} {truths : List CurrentTruth}
    {stories : List Nat} {facts : PlanFacts} (bound : List.Forall₂ (Binds stories facts) items truths) :
    named isAlphanumeric items truths = .ok () ↔
      List.Forall₂ (LinkNamed isAlphanumeric) items truths := by
  rw [← forall_mem_zip bound]
  refine passEach_eq_ok fun position item => ?_
  unfold unnamed LinkNamed
  cases item.1.spec with
  | link link =>
      simp only [Spec.link.injEq, forall_eq', ← names_iff]
      split_ifs with found
      · simpa using found
      · simpa using found
  | _ => simp

end Plan

end Baley
