import Baley.CanonicalForm
import Baley.NormalForm
import Baley.Plan.Judge
import Baley.Questions.Judged

/-!
# The leaves of a plan

Every leaf of an accepted plan is a text or a counter, and a plan nests only as deep as its grammar.
Such a value has a canonical form, and is its own.
-/

namespace Baley

open Json

namespace Plan

/-- Texts and counters, nested at most so deep. -/
inductive Leaves : Nat → Value → Prop
  | text {depth : Nat} (text : String) : Leaves depth (.string text)
  | counter {depth number : Nat} {value : Value} (counted : IsCounter value number) : Leaves depth value
  | array {depth : Nat} {items : List Value} (each : ∀ item ∈ items, Leaves depth item) :
      Leaves (depth + 1) (.array items)
  | object {depth : Nat} {members : Members} (each : ∀ member ∈ members, Leaves depth member.2) :
      Leaves (depth + 1) (.object members)

/-! ## Counters -/

theorem readNatural_of_counter {text : String} {number : Nat} (counted : IsCounter (.number text) number) :
    Value.readNatural text = some number :=
  (Option.filter_eq_some_iff.mp counted.1).1

theorem IsCounter.number {value : Value} {number : Nat} (counted : IsCounter value number) :
    ∃ text, value = .number text := by
  cases value with
  | number text => exact ⟨text, rfl⟩
  | _ => cases counted.1

/-- A counter's token is how the number is written. -/
theorem IsCounter.eq_ofNat {value : Value} {number : Nat} (counted : IsCounter value number)
    (json : IsJson value) : value = .ofNat number := by
  obtain ⟨text, rfl⟩ := counted.number
  cases json with
  | number token =>
      have read := readNatural_of_counter counted
      have reads_integer : Value.readInteger text = some (number : Int) := by
        unfold Value.readInteger
        split
        · rename_i digits text_eq
          unfold Value.readNatural at read
          rw [text_eq] at read
          simp [Value.readDigits] at read
        · rename_i digits text_eq
          unfold Value.readNatural at read
          rw [text_eq] at read
          simp only at read
          rw [read]
          rfl
        · rename_i no_minus no_plus
          unfold Value.readNatural at read
          split at read
          · rename_i digits text_eq
            exact absurd text_eq (no_plus digits)
          · rw [read]
            rfl
      rcases token.eq_repr reads_integer with text_eq | ⟨-, zero⟩
      · rw [text_eq, Value.ofNat, Int.repr_eq_if, if_pos (Int.natCast_nonneg number), Int.toNat_natCast]
      · have positive := counted.2.1
        omega

theorem inDomain_counter {value : Value} {number : Nat} (counted : IsCounter value number)
    (json : IsJson value) : InDomain value := by
  rw [counted.eq_ofNat json, inDomain_ofNat_iff]
  have fits := counted.2.2
  simp only [maxU32, maxSafeInteger] at fits ⊢
  omega

/-! ## Values of such leaves -/

theorem Leaves.inDomain {depth : Nat} {value : Value} (leaves : Leaves depth value) (json : IsJson value) :
    InDomain value := by
  induction leaves with
  | text text => exact .string text
  | counter counted => exact inDomain_counter counted json
  | array _ ih =>
      cases json with
      | array items_json => exact .array fun item item_mem => ih item item_mem (items_json item item_mem)
  | object _ ih =>
      cases json with
      | object _ members_json =>
          exact .object fun member member_mem => ih member member_mem (members_json member member_mem)

/-- The value is its own canonical form. -/
theorem Leaves.canonicalForm_eq {depth : Nat} {value : Value} (leaves : Leaves depth value)
    (json : IsJson value) : canonicalForm value = value := by
  induction leaves with
  | text text => rfl
  | counter counted =>
      have inDomain := inDomain_counter counted json
      rw [counted.eq_ofNat json] at inDomain ⊢
      exact canonicalForm_ofNat inDomain
  | array _ ih =>
      cases json with
      | array items_json =>
          rw [canonicalForm, canonicalItems_eq_map]
          refine congrArg Value.array ((List.map_congr_left ?_).trans (List.map_id _))
          exact fun item item_mem => ih item item_mem (items_json item item_mem)
  | object _ ih =>
      cases json with
      | object _ members_json =>
          rw [canonicalForm, canonicalMembers_eq_map]
          refine congrArg Value.object ((List.map_congr_left ?_).trans (List.map_id _))
          exact fun member member_mem =>
            Prod.ext rfl (ih member member_mem (members_json member member_mem))

theorem Leaves.nesting_le {depth : Nat} {value : Value} (leaves : Leaves depth value) :
    value.nesting ≤ depth := by
  induction leaves with
  | text text => exact Nat.zero_le _
  | counter counted =>
      obtain ⟨text, rfl⟩ := counted.number
      exact Nat.zero_le _
  | array _ ih =>
      rw [Value.nesting, Nat.add_le_add_iff_right, Value.nestingItems_le_iff]
      exact ih
  | object _ ih =>
      rw [Value.nesting, Nat.add_le_add_iff_right, Value.nestingMembers_le_iff]
      exact ih

theorem Leaves.ne_null {depth : Nat} {value : Value} (leaves : Leaves depth value) : value ≠ .null := by
  rintro rfl
  cases leaves with
  | counter counted => cases counted.1

/-! ## The parts of a plan -/

theorem leaves_texts {depth : Nat} (items : List String) : Leaves (depth + 1) (texts items) := by
  refine .array fun item item_mem => ?_
  obtain ⟨text, -, rfl⟩ := List.mem_map.mp item_mem
  exact .text text

/-- An object is judged by the members that its names hold. -/
theorem leaves_object {depth : Nat} {names : List String} {value : Value} (of_names : Evidence.ObjectOf names value)
    (wellFormed : value.WellFormed)
    (each : ∀ name ∈ names, ∀ held, value.get? name = some held → Leaves depth held) :
    Leaves (depth + 1) value := by
  obtain ⟨members, rfl, within⟩ := of_names
  cases wellFormed with
  | object sorted =>
      refine .object fun member member_mem => each member.1 (within member member_mem) member.2 ?_
      exact (Members.lookup_eq_some_iff sorted.nodup_keys).mpr member_mem

theorem leaves_of_forall₂ {α : Type} {depth : Nat} {WrittenAs : Value → α → Prop} {entries : List Value}
    {items : List α} (written : List.Forall₂ WrittenAs entries items)
    (wellFormed : (Value.array entries).WellFormed)
    (one : ∀ entry item, entry.WellFormed → WrittenAs entry item → Leaves depth entry) :
    Leaves (depth + 1) (.array entries) := by
  rw [Value.wellFormed_array_iff] at wellFormed
  refine .array fun entry entry_mem => ?_
  induction written with
  | nil => cases entry_mem
  | cons first _ ih =>
      rw [List.forall_mem_cons] at wellFormed
      rcases List.mem_cons.mp entry_mem with rfl | entry_mem
      · exact one _ _ wellFormed.1 first
      · exact ih wellFormed.2 entry_mem

/-- A member that holds a text. -/
theorem leaves_of_text {depth : Nat} {value held : Value} {name text : String}
    (named : value.get? name = some (.string text)) (found : value.get? name = some held) :
    Leaves depth held := by
  rw [named] at found
  cases found
  exact .text text

theorem leaves_of_texts {depth : Nat} {value held : Value} {name : String} {items : List String}
    (named : value.get? name = some (texts items)) (found : value.get? name = some held) :
    Leaves (depth + 1) held := by
  rw [named] at found
  cases found
  exact leaves_texts items

theorem leaves_of_counter {depth : Nat} {value held : Value} {name : String} {number : Nat}
    (named : ∃ counted, value.get? name = some counted ∧ IsCounter counted number)
    (found : value.get? name = some held) : Leaves depth held := by
  obtain ⟨counted, counted_eq, is_counter⟩ := named
  rw [counted_eq] at found
  cases found
  exact .counter is_counter

end Plan

namespace Evidence

open Plan

variable {depth : Nat} {value : Value}

theorem ArtifactAs.leaves {artifact : Artifact} (written : ArtifactAs value artifact) :
    Leaves (depth + 1) value := by
  have one (name text : String) : Leaves (depth + 1) (.object [(name, .string text)]) := by
    refine .object fun member member_mem => ?_
    rw [List.mem_singleton.mp member_mem]
    exact .text text
  cases written with
  | path text => exact one "path" text
  | record text => exact one "record" text

theorem LinkAs.leaves {link : Link} (wellFormed : value.WellFormed) (written : LinkAs value link) :
    Leaves (depth + 1) value := by
  refine leaves_object written.members wellFormed fun name name_mem held found => ?_
  simp only [linkMembers, List.mem_cons, List.not_mem_nil, or_false] at name_mem
  rcases name_mem with rfl | rfl | rfl
  · exact leaves_of_text written.caller_eq found
  · exact leaves_of_text written.callee_eq found
  · exact leaves_of_text written.value_eq found

theorem ObservationAs.leaves {observation : Observation} (wellFormed : value.WellFormed)
    (written : ObservationAs value observation) : Leaves (depth + 1) value := by
  refine leaves_object written.members wellFormed fun name name_mem held found => ?_
  simp only [observationMembers, List.mem_cons, List.not_mem_nil, or_false] at name_mem
  rcases name_mem with rfl | rfl
  · exact leaves_of_text written.what_eq found
  · exact leaves_of_text written.by_eq found

theorem ExpectedAs.leaves {expected : Expected} (wellFormed : value.WellFormed)
    (written : ExpectedAs value expected) : Leaves (depth + 1) value := by
  refine leaves_object written.members wellFormed fun name name_mem held found => ?_
  simp only [expectedMembers, List.mem_cons, List.not_mem_nil, or_false] at name_mem
  rcases name_mem with rfl | rfl
  · exact leaves_of_text written.kind_eq found
  · exact leaves_of_text written.value_eq found

theorem TestAs.leaves {test : CheckTest} (wellFormed : value.WellFormed) (written : TestAs value test) :
    Leaves (depth + 1) value := by
  refine leaves_object written.members wellFormed fun name name_mem held found => ?_
  simp only [testMembers, List.mem_cons, List.not_mem_nil, or_false] at name_mem
  rcases name_mem with rfl | rfl
  · exact leaves_of_text written.file_eq found
  · exact leaves_of_text written.function_eq found

theorem CheckAs.leaves {check : Check} (wellFormed : value.WellFormed) (written : CheckAs value check) :
    Leaves (depth + 2) value := by
  refine leaves_object written.members wellFormed fun name name_mem held found => ?_
  simp only [checkMembers, List.mem_cons, List.not_mem_nil, or_false] at name_mem
  rcases name_mem with rfl | rfl | rfl | rfl | rfl | rfl | rfl | rfl
  · exact leaves_of_text written.command_eq found
  · obtain ⟨expected, expected_eq, expected_as⟩ := written.expected_as
    rw [expected_eq] at found
    cases found
    exact expected_as.leaves (wellFormed.get? expected_eq)
  · obtain ⟨test, test_eq, test_as⟩ := written.test_as
    rw [test_eq] at found
    cases found
    exact test_as.leaves (wellFormed.get? test_eq)
  · exact leaves_of_text written.setup_eq found
  · exact leaves_of_text written.call_eq found
  · exact leaves_of_text written.level_eq found
  · exact leaves_of_text written.boundary_eq found
  · exact leaves_of_texts written.fakes_eq found

theorem SpecAs.leaves {spec : Spec} (wellFormed : value.WellFormed) (written : SpecAs value spec) :
    Leaves (depth + 2) value := by
  cases written with
  | artifact written => exact written.leaves
  | link written => exact written.leaves wellFormed
  | check written => exact written.leaves wellFormed
  | observation written => exact written.leaves wellFormed

theorem ItemAs.leaves {item : EvidenceItem} (wellFormed : value.WellFormed) (written : ItemAs value item) :
    Leaves (depth + 3) value := by
  refine leaves_object written.members wellFormed fun name name_mem held found => ?_
  simp only [itemMembers, List.mem_cons, List.not_mem_nil, or_false] at name_mem
  rcases name_mem with rfl | rfl | rfl | rfl | rfl | rfl | rfl
  · exact leaves_of_text written.id_eq found
  · exact leaves_of_counter written.story_as found
  · exact leaves_of_text written.truth_eq found
  · exact leaves_of_counter written.version_as found
  · exact leaves_of_text written.kind_eq found
  · obtain ⟨spec, spec_eq, spec_as⟩ := written.spec_as
    rw [spec_eq] at found
    cases found
    exact spec_as.leaves (wellFormed.get? spec_eq)
  · exact leaves_of_text written.reason_eq found

end Evidence

open Plan in
theorem PlanTask.WrittenAs.leaves {depth : Nat} {value : Value} {task : PlanTask} (wellFormed : value.WellFormed)
    (written : PlanTask.WrittenAs value task) : Leaves (depth + 2) value := by
  refine leaves_object written.exact_members wellFormed fun name name_mem held found => ?_
  simp only [PlanTask.members, List.mem_cons, List.not_mem_nil, or_false] at name_mem
  rcases name_mem with rfl | rfl | rfl | rfl | rfl
  · exact leaves_of_text written.id_eq found
  · exact leaves_of_text written.title_eq found
  · exact leaves_of_texts written.files_eq found
  · exact leaves_of_text written.action_eq found
  · exact leaves_of_texts written.verify_eq found

open Plan in
theorem Question.WrittenAs.leaves {depth : Nat} {value : Value} {question : Question}
    (wellFormed : value.WellFormed) (written : question.WrittenAs value) : Leaves (depth + 2) value := by
  obtain ⟨members, rfl, names⟩ := written.exact_members
  have within : Within Question.members members := fun member member_mem =>
    (names member.1).mp (List.mem_map_of_mem member_mem)
  refine leaves_object ⟨members, rfl, within⟩ wellFormed fun name name_mem held found => ?_
  simp only [Question.members, List.mem_cons, List.not_mem_nil, or_false] at name_mem
  rcases name_mem with rfl | rfl | rfl | rfl
  · exact leaves_of_text written.id_eq found
  · exact leaves_of_text written.question_eq found
  · exact leaves_of_text written.recommended_eq found
  · exact leaves_of_texts written.dependsOn_eq found

/-- Questions that pass their judge are written as the questions of the set. -/
theorem submitted_of_judgeSet {value : Value} {set : QuestionSet} (judged : judgeSet value = .ok set) :
    Submitted value set.questions := by
  rcases acceptable_or_firstFault value with ⟨questions, acceptable⟩ | ⟨refusal, fault⟩
  · obtain ⟨other, other_judged, rfl⟩ := judgeSet_of_acceptable acceptable
    rw [judged] at other_judged
    cases other_judged
    exact acceptable.submitted
  · rw [judgeSet_of_firstFault fault] at judged
    cases judged

namespace Plan

/-- What is written as a plan, with questions that pass, is of such leaves. -/
theorem ContentAs.leaves {value : Value} {content : PlanContent} {set : QuestionSet}
    (wellFormed : value.WellFormed) (written : ContentAs value content) (passed : QuestionsPass value set) :
    Leaves 5 value := by
  refine leaves_object ⟨_, written.object_eq, written.within⟩ wellFormed fun name name_mem held found => ?_
  have held_wellFormed := wellFormed.get? found
  simp only [members, List.mem_cons, List.not_mem_nil, or_false] at name_mem
  rcases name_mem with rfl | rfl | rfl | rfl | rfl | rfl | rfl | rfl | rfl | rfl
  · exact leaves_of_counter written.phase_as found
  · obtain ⟨stories, stories_eq, stories_as⟩ := written.stories_as
    rw [stories_eq] at found
    cases found
    exact leaves_of_forall₂ stories_as held_wellFormed fun entry story _ counted => .counter counted
  · exact leaves_of_texts written.files_eq found
  · exact leaves_of_texts written.directories_eq found
  · exact leaves_of_text written.goal_eq found
  · exact leaves_of_text written.context_eq found
  · exact leaves_of_text written.notes_eq found
  · obtain ⟨tasks, tasks_eq, tasks_as⟩ := written.tasks_as
    rw [tasks_eq] at found
    cases found
    exact leaves_of_forall₂ tasks_as held_wellFormed fun entry task entry_wellFormed task_as =>
      task_as.leaves entry_wellFormed
  · obtain ⟨items, items_eq, items_as⟩ := written.evidence_as
    rw [items_eq] at found
    cases found
    exact leaves_of_forall₂ items_as held_wellFormed fun entry item entry_wellFormed item_as =>
      item_as.leaves entry_wellFormed
  · obtain ⟨questions, questions_eq, judged⟩ := passed
    rw [questions_eq] at found
    cases found
    obtain ⟨entries, rfl, questions_as⟩ := submitted_of_judgeSet judged
    have entries_as : List.Forall₂ (fun entry question => Question.WrittenAs question entry) entries
        set.questions := questions_as.flip
    exact leaves_of_forall₂ entries_as held_wellFormed fun entry question entry_wellFormed question_as =>
      question_as.leaves entry_wellFormed

end Plan

end Baley
