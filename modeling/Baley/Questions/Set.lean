import Baley.Attempt
import Baley.Blank
import Baley.Claim
import Baley.Graph.Components

/-!
# Question sets

A set is judged whole: its grammar over the whole list, then each question in submitted order, then
cycles over the whole set.
-/

namespace Baley

open Json Graph

/-- One question, its text kept exactly as written. -/
structure Question where
  id : String
  question : String
  recommended : String
  /-- The questions of the same set whose answers it needs, as given. -/
  dependsOn : List String
  deriving DecidableEq

/-- Why a question set is refused.  Positions count from 0. -/
inductive SetRefusal where
  | typedContent (position : Option Nat)
  | questionId (position : Nat) (id : String)
  | questionBlank (position : Nat) (id : String)
  | questionDependency (position : Nat) (id : String)
  | questionCycle (questions : List (Nat × String))
  deriving DecidableEq

namespace Question

def members : List String := ["id", "question", "recommended", "depends_on"]

/-- A text member within the bound. -/
def inlineText (entry : Value) (name : String) : Option String :=
  ((entry.get? name).bind Value.asStr).filter fun text => text.utf8ByteSize ≤ inlineTextLimit

/-- One entry read in the grammar. -/
def grammar (entry : Value) : Option Question := do
  let object ← entry.asObject
  if object.all fun member => members.contains member.1 then
    let id ← inlineText entry "id"
    let question ← inlineText entry "question"
    let recommended ← inlineText entry "recommended"
    let dependsOn ← ((entry.get? "depends_on").bind asTexts).filter fun on => on.Nodup
    some { id, question, recommended, dependsOn }
  else none

/-- Judge each question in submitted order, after the ones before it. -/
def judgeEach (ids : List String) :
    List String → List (Question × Nat) → Except SetRefusal Unit
  | _, [] => .ok ()
  | seen, (question, position) :: rest => do
      .require (isBlank question.id = false ∧ question.id ∉ seen)
        (.questionId position question.id)
      .require (isBlank question.question = false ∧ isBlank question.recommended = false)
        (.questionBlank position question.id)
      .require (∀ on ∈ question.dependsOn, on ≠ question.id ∧ on ∈ ids)
        (.questionDependency position question.id)
      judgeEach ids (question.id :: seen) rest

/-- The positions each question's dependencies stand at. -/
def edges (questions : List Question) : List (List Nat) :=
  questions.map fun question =>
    question.dependsOn.map fun on => questions.findIdx fun other => other.id = on

/-- A component is on a cycle when it holds more than one question. -/
def onCycle (_ : Nat) (component : List Nat) : Bool :=
  decide (1 < component.length)

/-- The positions of every question on a dependency cycle, ascending. -/
def onCycles (questions : List Question) : List Nat :=
  reportedComponents onCycle (edges questions)

end Question

/-- A question set judged whole and accepted. -/
structure QuestionSet where
  questions : List Question
  judged : Question.judgeEach (questions.map Question.id) [] questions.zipIdx = .ok ()
  acyclic : Question.onCycles questions = []

/-- Judge one question list given as plain JSON. -/
def judgeSet (value : Value) : Except SetRefusal QuestionSet :=
  match value with
  | .array entries => do
      let questions ← entries.zipIdx.mapM fun entry =>
        Except.ofOption (.typedContent (some entry.2)) (Question.grammar entry.1)
      match judged : Question.judgeEach (questions.map Question.id) [] questions.zipIdx with
      | .error refusal => .error refusal
      | .ok () =>
          if acyclic : Question.onCycles questions = [] then .ok { questions, judged, acyclic }
          else
            .error (.questionCycle ((Question.onCycles questions).map fun position =>
              (position, (questions[position]?.map Question.id).getD "")))
  | _ => .error (.typedContent none)

namespace Question

/-- What judging each question found of it. -/
theorem of_judgeEach {ids seen : List String} {questions : List (Question × Nat)}
    (judged : judgeEach ids seen questions = .ok ()) :
    ((questions.map fun entry => entry.1.id).Nodup ∧
      ∀ entry ∈ questions, entry.1.id ∉ seen) ∧
    ∀ entry ∈ questions, isBlank entry.1.id = false ∧ isBlank entry.1.question = false ∧
      isBlank entry.1.recommended = false ∧
      ∀ on ∈ entry.1.dependsOn, on ≠ entry.1.id ∧ on ∈ ids := by
  induction questions generalizing seen with
  | nil => simp
  | cons entry rest ih =>
      obtain ⟨question, position⟩ := entry
      simp only [judgeEach, Except.bind_eq_ok, Except.require_eq_ok] at judged
      obtain ⟨_, ⟨named, fresh⟩, _, ⟨asks, recommends⟩, _, depends, judged⟩ := judged
      obtain ⟨⟨nodup, unseen⟩, rest_judged⟩ := ih judged
      refine ⟨⟨?_, ?_⟩, ?_⟩
      · rw [List.map_cons, List.nodup_cons]
        refine ⟨?_, nodup⟩
        intro repeated
        obtain ⟨other, other_mem, same⟩ := List.mem_map.mp repeated
        exact unseen other other_mem (same ▸ List.mem_cons_self)
      · intro other other_mem
        rcases List.mem_cons.mp other_mem with rfl | other_mem
        · exact fresh
        · exact fun seen_mem => unseen other other_mem (List.mem_cons_of_mem _ seen_mem)
      · intro other other_mem
        rcases List.mem_cons.mp other_mem with rfl | other_mem
        · exact ⟨named, asks, recommends, depends⟩
        · exact rest_judged other other_mem

/-- Where the question of an id stands when no two have one id. -/
theorem findIdx_id {questions : List Question} (ids_nodup : (questions.map Question.id).Nodup)
    {position : Nat} (inside : position < questions.length) :
    (questions.findIdx fun other => other.id = questions[position].id) = position := by
  have found : questions.findIdx (fun other => other.id = questions[position].id) <
      questions.length :=
    List.findIdx_lt_length_of_exists ⟨_, List.getElem_mem inside, by simp⟩
  have same : questions[questions.findIdx fun other =>
      other.id = questions[position].id].id = questions[position].id := by
    simpa using List.findIdx_getElem (w := found)
  rw [List.nodup_iff_injective_get] at ids_nodup
  have positions_eq := @ids_nodup ⟨_, found.trans_eq (List.length_map _).symm⟩
    ⟨position, inside.trans_eq (List.length_map _).symm⟩ (by simpa using same)
  exact Fin.val_eq_of_eq positions_eq

end Question

namespace QuestionSet

variable (set : QuestionSet)

theorem ids_nodup : (set.questions.map Question.id).Nodup := by
  have nodup := (Question.of_judgeEach set.judged).1.1
  have ids_eq : (set.questions.zipIdx.map fun entry => entry.1.id) =
      set.questions.map Question.id := by
    rw [← List.zipIdx_map_fst 0 set.questions, List.map_map]
    simp
  rwa [ids_eq] at nodup

theorem judged_of_mem {question : Question} (question_mem : question ∈ set.questions) :
    isBlank question.recommended = false ∧
      ∀ on ∈ question.dependsOn, on ≠ question.id ∧
        ∃ other ∈ set.questions, other.id = on := by
  obtain ⟨position, inside, rfl⟩ := List.mem_iff_getElem.mp question_mem
  have entry_mem : (set.questions[position], position) ∈ set.questions.zipIdx := by
    rw [List.mem_zipIdx_iff_getElem?]
    simp [inside]
  obtain ⟨-, -, recommends, depends⟩ := (Question.of_judgeEach set.judged).2 _ entry_mem
  refine ⟨recommends, fun on on_mem => ?_⟩
  obtain ⟨differs, on_ids⟩ := depends on on_mem
  exact ⟨differs, List.mem_map.mp on_ids⟩

/-- Questions of one id are one question. -/
theorem eq_of_id_eq {first second : Question} (first_mem : first ∈ set.questions)
    (second_mem : second ∈ set.questions) (id_eq : first.id = second.id) : first = second :=
  List.inj_on_of_nodup_map set.ids_nodup first_mem second_mem id_eq

/-- Where the question of an id stands. -/
theorem findIdx_id {position : Nat} (inside : position < set.questions.length) :
    (set.questions.findIdx fun other => other.id = set.questions[position].id) = position :=
  Question.findIdx_id set.ids_nodup inside

/-- What holds of a question when it holds of all it depends on holds of every question. -/
theorem induction {motive : Question → Prop}
    (step : ∀ question ∈ set.questions,
      (∀ other ∈ set.questions, other.id ∈ question.dependsOn → motive other) → motive question) :
    ∀ question ∈ set.questions, motive question := by
  have closed : ∀ targets ∈ Question.edges set.questions, ∀ target ∈ targets,
      target < (Question.edges set.questions).length := by
    intro targets targets_mem target target_mem
    obtain ⟨question, question_mem, rfl⟩ := List.mem_map.mp targets_mem
    obtain ⟨on, on_mem, rfl⟩ := List.mem_map.mp target_mem
    obtain ⟨-, other, other_mem, rfl⟩ := (set.judged_of_mem question_mem).2 on on_mem
    rw [Question.edges, List.length_map]
    exact List.findIdx_lt_length_of_exists ⟨other, other_mem, by simp⟩
  obtain ⟨order, covers, finished⟩ := finished_of_reportedComponents
    (fun _ component large => decide_eq_true large) closed set.acyclic
  rw [Question.edges, List.length_map] at covers
  have positions_hold := finished.induction
    (motive := fun position => ∀ inside : position < set.questions.length,
      motive set.questions[position]) ?_
  · intro question question_mem
    obtain ⟨position, inside, rfl⟩ := List.mem_iff_getElem.mp question_mem
    exact positions_hold position (covers position inside) inside
  · intro position _ _ others_hold inside
    refine step _ (List.getElem_mem inside) fun other other_mem other_on => ?_
    obtain ⟨at_other, other_inside, rfl⟩ := List.mem_iff_getElem.mp other_mem
    have edge : at_other ∈ leadsTo (Question.edges set.questions) position := by
      have position_edges : leadsTo (Question.edges set.questions) position =
          set.questions[position].dependsOn.map fun on =>
            set.questions.findIdx fun other => other.id = on := by
        simp [leadsTo, Question.edges, List.getD_eq_getElem?_getD, inside]
      rw [position_edges, List.mem_map]
      exact ⟨_, other_on, set.findIdx_id other_inside⟩
    have differs : at_other ≠ position := by
      rintro rfl
      exact ((set.judged_of_mem (List.getElem_mem inside)).2 _ other_on).1 rfl
    exact others_hold at_other edge differs other_inside

end QuestionSet

end Baley
