import Baley.Plan.Binding

/-!
# A plan's truths over its phase

The evidence is judged over the phase as it would stand with the plan approved: this plan's items
beside the items of the approved plans.
-/

namespace Baley.Plan

open Json

/-- One item of the union. -/
structure Proof where
  id : String
  story : Nat
  truth : String
  version : Nat
  kind : EvidenceKind

/-- The phase as it would stand with the plan approved. -/
structure Phase where
  /-- The current truths of the plan's stories, each with its story. -/
  served : List (Nat × CurrentTruth)
  /-- The approved items, then this plan's items. -/
  union : List Proof

def ofApproved (item : ApprovedItem) : Proof where
  id := item.id
  story := item.story
  truth := item.truth
  version := item.truthVersion
  kind := item.kind

def ofSubmitted (item : EvidenceItem) : Proof where
  id := item.id
  story := item.story
  truth := item.truth
  version := item.truthVersion
  kind := item.kind

/-- Whether two approved items are one. -/
def sameItem (earlier item : ApprovedItem) : Bool :=
  earlier.id = item.id && earlier.definition == item.definition

/-- The approved items, one listed again left out. -/
def distinctApproved (approved : List ApprovedItem) : List ApprovedItem :=
  (approved.zipIdx.filter fun entry =>
    !(approved.take entry.2).any fun earlier => sameItem earlier entry.1).map Prod.fst

namespace Phase

/-- The phase for a plan serving stories with items. -/
def new (stories : List Nat) (items : List EvidenceItem) (facts : PlanFacts) : Phase where
  served := (stories.filterMap fun id => storyOf facts id).flatMap fun story =>
    story.truths.map fun truth => (story.id, truth)
  union := (distinctApproved facts.approved).map ofApproved ++
    (items.filter fun item => !facts.approved.any fun other => other.id = item.id).map ofSubmitted

/-- The items that name a truth at its current version. -/
def naming (phase : Phase) (story : Nat) (truth : CurrentTruth) : List Proof :=
  phase.union.filter fun proof =>
    proof.story = story && proof.truth = truth.id && proof.version = truth.version

def holds (phase : Phase) (story : Nat) (truth : CurrentTruth) (kind : EvidenceKind) : Bool :=
  (phase.naming story truth).any fun proof => proof.kind = kind

def uncovered (phase : Phase) (_ : Nat) (served : Nat × CurrentTruth) : Option PlanRefusal :=
  if (phase.naming served.1 served.2).isEmpty then
    some (.uncoveredTruth served.1 served.2.id served.2.version)
  else none

/-- Step (10): every served truth is named by an item. -/
def covered (phase : Phase) : Except PlanRefusal Unit :=
  passEach phase.uncovered 0 phase.served

def unchecked (phase : Phase) (_ : Nat) (served : Nat × CurrentTruth) : Option PlanRefusal :=
  if phase.holds served.1 served.2 .check then none
  else some (.truthWithoutCheck served.1 served.2.id served.2.version)

/-- Step (11): every served truth holds a check. -/
def checked (phase : Phase) : Except PlanRefusal Unit :=
  passEach phase.unchecked 0 phase.served

def unobserved (phase : Phase) (_ : Nat) (served : Nat × CurrentTruth) : Option PlanRefusal :=
  if served.2.humanVerify.isSome && !phase.holds served.1 served.2 .observation then
    some (.truthWithoutObservation served.1 served.2.id served.2.version)
  else none

/-- Step (12): every served truth that a person must prove holds an observation. -/
def observed (phase : Phase) : Except PlanRefusal Unit :=
  passEach phase.unobserved 0 phase.served

/-- The distinct ids of the checks among the items, in their order. -/
def checkIds (proofs : List Proof) : List String :=
  proofs.foldl
    (fun checks proof =>
      if proof.kind = .check ∧ proof.id ∉ checks then checks ++ [proof.id] else checks) []

def overChecked (phase : Phase) (_ : Nat) (served : Nat × CurrentTruth) : Option PlanRefusal :=
  let checks := checkIds (phase.naming served.1 served.2)
  if 1 < checks.length then
    some (.truthCheckLimit served.1 served.2.id served.2.version checks)
  else none

/-- Step (13): no served truth holds more than one check. -/
def limited (phase : Phase) : Except PlanRefusal Unit :=
  passEach phase.overChecked 0 phase.served

end Phase

/-- Step (14): the plan's tasks are within the phase's capacity. -/
def within (stories : List Nat) (tasks : Nat) (facts : PlanFacts) : Except PlanRefusal Unit :=
  match facts.capacity with
  | none => .ok ()
  | some capacity =>
      if capacity < facts.size + tasks then .error (.overCapacity stories (facts.size + tasks)) else .ok ()

/-! ## What is asked -/

/-- A current truth of a story that the plan serves. -/
def Serves (stories : List Nat) (facts : PlanFacts) (story : Nat) (truth : CurrentTruth) : Prop :=
  story ∈ stories ∧ ∃ held, storyOf facts story = some held ∧ truth ∈ held.truths

/-- Some item of the plan or in force names the truth at its version, with an id and a kind. -/
def Shown (items : List EvidenceItem) (facts : PlanFacts) (story : Nat) (truth : CurrentTruth)
    (id : String) (kind : EvidenceKind) : Prop :=
  (∃ item ∈ items, item.id = id ∧ item.story = story ∧ item.truth = truth.id ∧
      item.truthVersion = truth.version ∧ item.kind = kind) ∨
    ∃ item ∈ facts.approved, item.id = id ∧ item.story = story ∧ item.truth = truth.id ∧
      item.truthVersion = truth.version ∧ item.kind = kind

/-! ## The union -/

theorem sameItem_iff {earlier item : ApprovedItem} :
    sameItem earlier item = true ↔ earlier.id = item.id ∧ earlier.definition = item.definition := by
  rw [sameItem, Bool.and_eq_true, decide_eq_true_eq]
  exact and_congr_right fun _ => ⟨Value.eq_of_beq, fun same => same ▸ Value.beq_self _⟩

theorem kindOf_kindText (kind : EvidenceKind) : kindOf (Evidence.kindText kind) = some kind := by
  cases kind <;> rfl

/-- One definition says one thing. -/
theorem Recorded.unique {definition : Value} {id id' : String} {story story' : Nat} {truth truth' : String}
    {version version' : Nat} {kind kind' : EvidenceKind}
    (first : Recorded definition id story truth version kind)
    (second : Recorded definition id' story' truth' version' kind') :
    id = id' ∧ story = story' ∧ truth = truth' ∧ version = version' ∧ kind = kind' :=
  ⟨Option.some.inj (first.id_eq.symm.trans second.id_eq),
    Option.some.inj (first.story_eq.symm.trans second.story_eq),
    Option.some.inj (first.truth_eq.symm.trans second.truth_eq),
    Option.some.inj (first.version_eq.symm.trans second.version_eq),
    Option.some.inj (first.kind_eq.symm.trans second.kind_eq)⟩

/-- What a plan's item is written as says what the item says. -/
theorem recorded_of_itemAs {entry : Value} {item : EvidenceItem} (written : Evidence.ItemAs entry item) :
    Recorded entry item.id item.story item.truth item.truthVersion item.kind := by
  have whole_of {name : String} {number : Nat}
      (counted : ∃ value, entry.get? name = some value ∧ IsCounter value number) :
      whole entry name = some number := by
    obtain ⟨value, found, read, -, fits⟩ := counted
    simp [whole, found, asU32, read, fits]
  constructor
  · simp [textOf, written.id_eq]
  · exact whole_of written.story_as
  · simp [textOf, written.truth_eq]
  · exact whole_of written.version_as
  · simp [textOf, written.kind_eq, kindOf_kindText]

theorem ofApproved_congr {first second : ApprovedItem} (id_eq : first.id = second.id)
    (definition_eq : first.definition = second.definition) : ofApproved first = ofApproved second := by
  obtain ⟨-, story_eq, truth_eq, version_eq, kind_eq⟩ :=
    (definition_eq ▸ first.recorded).unique second.recorded
  simp only [ofApproved, id_eq, story_eq, truth_eq, version_eq, kind_eq]

/-- The union holds each approved item. -/
theorem ofApproved_mem {approved : List ApprovedItem} {item : ApprovedItem} (item_mem : item ∈ approved) :
    ofApproved item ∈ (distinctApproved approved).map ofApproved := by
  have found : (approved.findIdx fun earlier => sameItem earlier item) < approved.length :=
    List.findIdx_lt_length_of_exists ⟨item, item_mem, sameItem_iff.mpr ⟨rfl, rfl⟩⟩
  obtain ⟨place, place_eq⟩ : ∃ place, (approved.findIdx fun earlier => sameItem earlier item) = place :=
    ⟨_, rfl⟩
  have same := List.findIdx_getElem (w := found)
  have not_before {earlier : Nat} (before : earlier < place) (inside : earlier < approved.length) :
      sameItem approved[earlier] item = false := by
    rw [← place_eq] at before
    exact List.not_of_lt_findIdx before
  simp only [place_eq] at found same
  obtain ⟨id_eq, definition_eq⟩ := sameItem_iff.mp same
  rw [List.mem_map]
  refine ⟨approved[place], List.mem_map.mpr ⟨(approved[place], place), ?_, rfl⟩,
    ofApproved_congr id_eq definition_eq⟩
  rw [List.mem_filter]
  refine ⟨List.mem_zipIdx_iff_getElem?.mpr (List.getElem?_eq_getElem found), ?_⟩
  rw [Bool.not_eq_true', List.any_eq_false]
  intro earlier earlier_mem again
  obtain ⟨at_earlier, inside, rfl⟩ := List.mem_iff_getElem.mp earlier_mem
  rw [List.length_take] at inside
  rw [List.getElem_take] at again
  obtain ⟨again_id, again_definition⟩ := sameItem_iff.mp again
  have same_earlier : sameItem approved[at_earlier] item = true :=
    sameItem_iff.mpr ⟨again_id.trans id_eq, again_definition.trans definition_eq⟩
  rw [not_before (by omega) (by omega)] at same_earlier
  exact Bool.false_ne_true same_earlier

theorem mem_approved_of_distinct {approved : List ApprovedItem} {item : ApprovedItem}
    (item_mem : item ∈ distinctApproved approved) : item ∈ approved := by
  obtain ⟨⟨held, place⟩, entry_mem, rfl⟩ := List.mem_map.mp item_mem
  exact List.mem_of_getElem? (List.mem_zipIdx_iff_getElem?.mp (List.mem_filter.mp entry_mem).1)

theorem forall₂_and {α β : Type} {First Second : α → β → Prop} {left : List α} {right : List β}
    (first : List.Forall₂ First left right) (second : List.Forall₂ Second left right) :
    ∀ item ∈ right, ∃ entry, First entry item ∧ Second entry item := by
  induction first with
  | nil => simp
  | cons holds _ ih =>
      cases second with
      | cons holds' rest => exact List.forall_mem_cons.mpr ⟨⟨_, holds, holds'⟩, ih rest⟩

variable {definitions : List Value} {items : List EvidenceItem} {facts : PlanFacts}

/-- What the union's items show is what some item of the plan or in force shows, once every id holds one
definition. -/
theorem shown_iff (written : List.Forall₂ Evidence.ItemAs definitions items)
    (one : List.Forall₂ (OneDefinition facts) definitions items) (stories : List Nat) (story : Nat)
    (truth : CurrentTruth) (id : String) (kind : EvidenceKind) :
    (∃ proof ∈ (Phase.new stories items facts).naming story truth, proof.id = id ∧ proof.kind = kind) ↔
      Shown items facts story truth id kind := by
  simp only [Phase.naming, Phase.new, List.mem_filter, List.mem_append, Bool.and_eq_true, decide_eq_true_eq]
  constructor
  · rintro ⟨proof, ⟨approved | submitted, ⟨story_eq, truth_eq⟩, version_eq⟩, id_eq, kind_eq⟩
    · obtain ⟨item, item_mem, rfl⟩ := List.mem_map.mp approved
      exact .inr ⟨item, mem_approved_of_distinct item_mem, id_eq, story_eq, truth_eq, version_eq, kind_eq⟩
    · obtain ⟨item, item_mem, rfl⟩ := List.mem_map.mp submitted
      exact .inl ⟨item, (List.mem_filter.mp item_mem).1, id_eq, story_eq, truth_eq, version_eq, kind_eq⟩
  · rintro (⟨item, item_mem, rfl, rfl, truth_eq, version_eq, rfl⟩ |
      ⟨item, item_mem, rfl, rfl, truth_eq, version_eq, rfl⟩)
    · by_cases held : ∃ other ∈ facts.approved, other.id = item.id
      · obtain ⟨other, other_mem, id_eq⟩ := held
        obtain ⟨definition, item_as, one_definition⟩ := forall₂_and written one item item_mem
        have recorded := recorded_of_itemAs item_as
        rw [← one_definition other other_mem id_eq] at recorded
        obtain ⟨-, story_eq, same_truth, same_version, kind_eq⟩ := other.recorded.unique recorded
        exact ⟨ofApproved other, ⟨.inl (ofApproved_mem other_mem),
          ⟨story_eq, same_truth.trans truth_eq⟩, same_version.trans version_eq⟩, id_eq, kind_eq⟩
      · push Not at held
        refine ⟨ofSubmitted item, ⟨.inr (List.mem_map_of_mem ?_), ⟨rfl, truth_eq⟩, version_eq⟩, rfl, rfl⟩
        rw [List.mem_filter]
        refine ⟨item_mem, ?_⟩
        rw [Bool.not_eq_true', List.any_eq_false]
        intro other other_mem
        simpa using held other other_mem
    · exact ⟨ofApproved item, ⟨.inl (ofApproved_mem item_mem), ⟨rfl, truth_eq⟩, version_eq⟩, rfl, rfl⟩

theorem mem_served {stories : List Nat} {served : Nat × CurrentTruth} :
    served ∈ (Phase.new stories items facts).served ↔ Serves stories facts served.1 served.2 := by
  simp only [Phase.new, List.mem_flatMap, List.mem_filterMap, List.mem_map, Serves]
  constructor
  · rintro ⟨held, ⟨id, id_mem, found⟩, truth, truth_mem, rfl⟩
    have same : held.id = id := by
      have found' := found
      unfold storyOf at found'
      simpa using List.find?_some found'
    rw [same]
    exact ⟨id_mem, held, found, truth_mem⟩
  · rintro ⟨story_mem, held, found, truth_mem⟩
    have same : held.id = served.1 := by
      have found' := found
      unfold storyOf at found'
      simpa using List.find?_some found'
    exact ⟨held, ⟨served.1, story_mem, found⟩, served.2, truth_mem, by rw [same]⟩

/-! ## Each truth that is served -/

/-- A truth that some item names at its version. -/
def Covered (items : List EvidenceItem) (facts : PlanFacts) (story : Nat) (truth : CurrentTruth) : Prop :=
  ∃ id kind, Shown items facts story truth id kind

/-- A truth that some item of a kind names at its version. -/
def ShownBy (items : List EvidenceItem) (facts : PlanFacts) (kind : EvidenceKind) (story : Nat)
    (truth : CurrentTruth) : Prop :=
  ∃ id, Shown items facts story truth id kind

/-- A truth that a person must prove is observed. -/
def Observed (items : List EvidenceItem) (facts : PlanFacts) (story : Nat) (truth : CurrentTruth) : Prop :=
  truth.humanVerify.isSome = true → ShownBy items facts .observation story truth

/-- A truth that one check at most proves, however many plans list it. -/
def CheckedOnce (items : List EvidenceItem) (facts : PlanFacts) (story : Nat) (truth : CurrentTruth) : Prop :=
  ∀ id id', Shown items facts story truth id .check → Shown items facts story truth id' .check → id = id'

/-- Every current truth of every story that the plan serves. -/
def EachServed (stories : List Nat) (facts : PlanFacts) (Holds : Nat → CurrentTruth → Prop) : Prop :=
  ∀ story truth, Serves stories facts story truth → Holds story truth

/-- The phase's capacity holds the tasks of its approved plans and the plan's own. -/
def WithinCapacity (tasks : Nat) (facts : PlanFacts) : Prop :=
  ∀ capacity, facts.capacity = some capacity → facts.size + tasks ≤ capacity

/-- A judge of each served truth. -/
theorem passServed_eq_ok {stories : List Nat} {fault : Nat → Nat × CurrentTruth → Option PlanRefusal}
    {Holds : Nat → CurrentTruth → Prop}
    (fault_iff : ∀ position served, fault position served = none ↔ Holds served.1 served.2) :
    passEach fault 0 (Phase.new stories items facts).served = .ok () ↔ EachServed stories facts Holds := by
  rw [passEach_eq_ok fault_iff]
  constructor
  · exact fun each story truth serves => each (story, truth) (mem_served.mpr serves)
  · exact fun each served served_mem => each served.1 served.2 (mem_served.mp served_mem)

theorem checkIds_loop (proofs : List Proof) (seen : List String) (seen_nodup : seen.Nodup) :
    (proofs.foldl
      (fun checks proof =>
        if proof.kind = .check ∧ proof.id ∉ checks then checks ++ [proof.id] else checks) seen).Nodup ∧
    ∀ id, id ∈ proofs.foldl
      (fun checks proof =>
        if proof.kind = .check ∧ proof.id ∉ checks then checks ++ [proof.id] else checks) seen ↔
      id ∈ seen ∨ ∃ proof ∈ proofs, proof.id = id ∧ proof.kind = .check := by
  induction proofs generalizing seen with
  | nil => simp [seen_nodup]
  | cons proof proofs ih =>
      rw [List.foldl_cons]
      split_ifs with fresh
      · have longer : (seen ++ [proof.id]).Nodup := by
          rw [← List.concat_eq_append, List.nodup_concat]
          exact ⟨fresh.2, seen_nodup⟩
        obtain ⟨nodup, mem_iff⟩ := ih _ longer
        refine ⟨nodup, fun id => ?_⟩
        rw [mem_iff, List.mem_append, List.mem_singleton]
        constructor
        · rintro ((seen_mem | rfl) | ⟨other, other_mem, shown⟩)
          · exact .inl seen_mem
          · exact .inr ⟨proof, List.mem_cons_self, rfl, fresh.1⟩
          · exact .inr ⟨other, List.mem_cons_of_mem _ other_mem, shown⟩
        · rintro (seen_mem | ⟨other, other_mem, shown⟩)
          · exact .inl (.inl seen_mem)
          · rcases List.mem_cons.mp other_mem with rfl | other_mem
            · exact .inl (.inr shown.1.symm)
            · exact .inr ⟨other, other_mem, shown⟩
      · obtain ⟨nodup, mem_iff⟩ := ih _ seen_nodup
        refine ⟨nodup, fun id => ?_⟩
        rw [mem_iff]
        constructor
        · rintro (seen_mem | ⟨other, other_mem, shown⟩)
          · exact .inl seen_mem
          · exact .inr ⟨other, List.mem_cons_of_mem _ other_mem, shown⟩
        · rintro (seen_mem | ⟨other, other_mem, rfl, is_check⟩)
          · exact .inl seen_mem
          · rcases List.mem_cons.mp other_mem with rfl | other_mem
            · rw [not_and, not_not] at fresh
              exact .inl (fresh is_check)
            · exact .inr ⟨other, other_mem, rfl, is_check⟩

namespace Phase

theorem checkIds_nodup (proofs : List Proof) : (checkIds proofs).Nodup :=
  (checkIds_loop proofs [] List.nodup_nil).1

theorem mem_checkIds {proofs : List Proof} {id : String} :
    id ∈ checkIds proofs ↔ ∃ proof ∈ proofs, proof.id = id ∧ proof.kind = .check := by
  rw [checkIds, (checkIds_loop proofs [] List.nodup_nil).2 id]
  simp

variable (written : List.Forall₂ Evidence.ItemAs definitions items)
  (one : List.Forall₂ (OneDefinition facts) definitions items) (stories : List Nat)

include written one

theorem covered_eq_ok : (new stories items facts).covered = .ok () ↔
    EachServed stories facts (Covered items facts) := by
  refine passServed_eq_ok fun position served => ?_
  simp only [Covered, ← shown_iff written one stories]
  rw [uncovered, ite_eq_right_iff, List.isEmpty_iff]
  simp only [reduceCtorEq, imp_false]
  constructor
  · intro some_naming
    obtain ⟨proof, proof_mem⟩ := List.exists_mem_of_ne_nil _ some_naming
    exact ⟨proof.id, proof.kind, proof, proof_mem, rfl, rfl⟩
  · rintro ⟨-, -, proof, proof_mem, -, -⟩
    exact List.ne_nil_of_mem proof_mem

theorem holds_iff (kind : EvidenceKind) (story : Nat) (truth : CurrentTruth) :
    (new stories items facts).holds story truth kind = true ↔ ShownBy items facts kind story truth := by
  simp only [ShownBy, ← shown_iff written one stories, holds, List.any_eq_true, decide_eq_true_eq]
  constructor
  · rintro ⟨proof, proof_mem, kind_eq⟩
    exact ⟨proof.id, proof, proof_mem, rfl, kind_eq⟩
  · rintro ⟨-, proof, proof_mem, -, kind_eq⟩
    exact ⟨proof, proof_mem, kind_eq⟩

theorem checked_eq_ok : (new stories items facts).checked = .ok () ↔
    EachServed stories facts (ShownBy items facts .check) := by
  refine passServed_eq_ok fun position served => ?_
  rw [unchecked, ← holds_iff written one stories]
  split_ifs with held <;> simp [held]

theorem observed_eq_ok : (new stories items facts).observed = .ok () ↔
    EachServed stories facts (Observed items facts) := by
  refine passServed_eq_ok fun position served => ?_
  rw [unobserved, Observed, ← holds_iff written one stories, ite_eq_right_iff, Bool.and_eq_true]
  simp only [reduceCtorEq, imp_false, not_and, Bool.not_eq_true', Bool.not_eq_false]

theorem limited_eq_ok : (new stories items facts).limited = .ok () ↔
    EachServed stories facts (CheckedOnce items facts) := by
  refine passServed_eq_ok fun position served => ?_
  have checks_nodup := checkIds_nodup ((new stories items facts).naming served.1 served.2)
  have mem_iff (id : String) : id ∈ checkIds ((new stories items facts).naming served.1 served.2) ↔
      Shown items facts served.1 served.2 id .check :=
    mem_checkIds.trans (shown_iff written one stories served.1 served.2 id .check)
  simp only [CheckedOnce, ← mem_iff]
  rw [overChecked, ite_eq_right_iff]
  simp only [reduceCtorEq, imp_false, not_lt]
  generalize checkIds ((new stories items facts).naming served.1 served.2) = checks at checks_nodup
  rcases checks with _ | ⟨first, _ | ⟨second, rest⟩⟩
  · simp
  · simp
  · refine iff_of_false (by simp) fun same => ?_
    have first_second := same first second (by simp) (by simp)
    simp [first_second] at checks_nodup

end Phase

theorem within_eq_ok {stories : List Nat} {tasks : Nat} :
    within stories tasks facts = .ok () ↔ WithinCapacity tasks facts := by
  unfold within WithinCapacity
  cases facts.capacity with
  | none => simp
  | some capacity =>
      simp only [Option.some.injEq, forall_eq']
      split_ifs with exceeds
      · simpa using exceeds
      · simpa using exceeds

/-! ## Which step refused -/

theorem refusedAt_holdsTruths (facts : PlanFacts) : RefusedAt 5 (holdsTruths facts) := by
  unfold holdsTruths
  split_ifs
  · exact refusedAt_error rfl
  · exact refusedAt_ok ()

theorem refusedAt_committed (stories : List Nat) (facts : PlanFacts) : RefusedAt 6 (committed stories facts) := by
  unfold committed
  split
  · exact refusedAt_error rfl
  · exact refusedAt_ok ()

theorem refusedAt_bind (stories : List Nat) (items : List EvidenceItem) (facts : PlanFacts) :
    RefusedAt 7 (bind stories items facts) := by
  refine refusedAt_mapM (fun item => ?_) _
  unfold bindOne
  split
  · exact refusedAt_error rfl
  · split_ifs
    · exact refusedAt_error rfl
    · exact refusedAt_ok _

theorem refusedAt_consistent (definitions : List Value) (items : List EvidenceItem)
    (approved : List ApprovedItem) : RefusedAt 8 (consistent definitions items approved) := by
  refine refusedAt_passEach (fun position item refusal found => ?_) _ 0
  obtain ⟨other, -, rfl⟩ := Option.map_eq_some_iff.mp found
  rfl

theorem refusedAt_named (isAlphanumeric : Char → Bool) (items : List EvidenceItem)
    (truths : List CurrentTruth) : RefusedAt 9 (named isAlphanumeric items truths) := by
  refine refusedAt_passEach (fun position item refusal found => ?_) _ 0
  unfold unnamed at found
  split at found
  · split_ifs at found
    cases found
    rfl
  · cases found

namespace Phase

variable (phase : Phase)

theorem refusedAt_covered : RefusedAt 10 phase.covered := by
  refine refusedAt_passEach (fun position served refusal found => ?_) _ 0
  unfold uncovered at found
  split_ifs at found
  cases found
  rfl

theorem refusedAt_checked : RefusedAt 11 phase.checked := by
  refine refusedAt_passEach (fun position served refusal found => ?_) _ 0
  unfold unchecked at found
  split_ifs at found
  cases found
  rfl

theorem refusedAt_observed : RefusedAt 12 phase.observed := by
  refine refusedAt_passEach (fun position served refusal found => ?_) _ 0
  unfold unobserved at found
  split_ifs at found
  cases found
  rfl

theorem refusedAt_limited : RefusedAt 13 phase.limited := by
  refine refusedAt_passEach (fun position served refusal found => ?_) _ 0
  simp only [overChecked] at found
  split_ifs at found
  cases found
  rfl

end Phase

theorem refusedAt_within (stories : List Nat) (tasks : Nat) (facts : PlanFacts) :
    RefusedAt 14 (within stories tasks facts) := by
  unfold within
  split
  · exact refusedAt_ok ()
  · split_ifs
    · exact refusedAt_error rfl
    · exact refusedAt_ok ()

end Baley.Plan
