import Baley.Questions.Settle

/-!
# What an accepted call settles

An accepted call settles open questions of its set, none of them twice, and answers only questions
whose dependencies are all answered.
-/

namespace Baley

open Json

namespace Settlement

/-- The answer a settlement records, if it is one. -/
def answer? (round : Nat) (owner recordedAt : String) : Settlement → Option QuestionAnswer
  | .answered question answer accepted =>
      some { question, answer, accepted, round, owner, recordedAt }
  | .deferred .. => none

def isAnswer : Settlement → Bool
  | .answered .. => true
  | .deferred .. => false

def deferral? (round : Nat) (owner recordedAt : String) : Settlement → Option Deferral
  | .answered .. => none
  | .deferred question reason => some { question, reason, round, owner, recordedAt }

end Settlement

namespace SetFacts

/-- The questions that were settled. -/
def settledIds (facts : SetFacts) : List String :=
  facts.answers.map QuestionAnswer.question ++ facts.deferrals.map Deferral.question

/-- The facts once the settlements of a call are recorded. -/
def settleAll (facts : SetFacts) (round : Nat) (owner recordedAt : String)
    (settlements : List Settlement) : SetFacts :=
  settlements.foldl (fun facts => facts.settle round owner recordedAt) facts

variable {facts : SetFacts} {round : Nat} {owner recordedAt : String}

theorem settleAll_eq (facts : SetFacts) (settlements : List Settlement) :
    facts.settleAll round owner recordedAt settlements =
      { facts with
        answers := facts.answers ++ settlements.filterMap (Settlement.answer? round owner recordedAt)
        deferrals := facts.deferrals ++
          settlements.filterMap (Settlement.deferral? round owner recordedAt) } := by
  unfold settleAll
  induction settlements generalizing facts with
  | nil => simp
  | cons settlement settlements ih =>
      rw [List.foldl_cons, ih]
      cases settlement with
      | answered question answer accepted =>
          simp only [settle, List.filterMap_cons, Settlement.answer?, Settlement.deferral?,
            List.append_assoc, List.cons_append, List.nil_append]
      | deferred question reason =>
          simp only [settle, List.filterMap_cons, Settlement.answer?, Settlement.deferral?,
            List.append_assoc, List.cons_append, List.nil_append]

theorem settledIds_settleAll (round : Nat) (owner recordedAt : String) (facts : SetFacts)
    (settlements : List Settlement) :
    (facts.settleAll round owner recordedAt settlements).settledIds.Perm
      (facts.settledIds ++ settlements.map Settlement.question) := by
  rw [settleAll_eq, settledIds, settledIds]
  induction settlements with
  | nil => simp
  | cons settlement settlements ih =>
      simp only [List.map_append, List.append_assoc] at ih ⊢
      refine List.Perm.trans ?_ ((List.Perm.cons settlement.question ih).trans ?_)
      · cases settlement with
        | answered question answer accepted =>
            simp only [List.filterMap_cons, Settlement.answer?, Settlement.deferral?,
              List.map_cons, Settlement.question, List.cons_append]
            exact List.perm_middle
        | deferred question reason =>
            simp only [List.filterMap_cons, Settlement.answer?, Settlement.deferral?,
              List.map_cons, Settlement.question]
            rw [← List.append_assoc, ← List.append_assoc, ← List.append_assoc, ← List.append_assoc]
            exact List.perm_middle
      · rw [List.map_cons, ← List.append_assoc, ← List.append_assoc]
        exact List.perm_middle.symm

theorem mem_settledIds {id : String} :
    id ∈ facts.settledIds ↔ facts.isSettled id = true := by
  simp [settledIds, isSettled]

theorem answerOf_eq_none {id : String} :
    facts.answerOf id = none ↔ ∀ answer ∈ facts.answers, answer.question ≠ id := by
  simp [answerOf]

theorem deferralOf_eq_none {id : String} :
    facts.deferralOf id = none ↔ ∀ deferral ∈ facts.deferrals, deferral.question ≠ id := by
  simp [deferralOf]

/-- A question is open exactly when it is not settled. -/
theorem isOpen_iff {question : Question} :
    facts.isOpen question = true ↔ facts.isSettled question.id = false := by
  simp [isOpen, answerOf_eq_none, deferralOf_eq_none, isSettled_eq_false]

theorem answer_of_answerOf {id : String} (answered : facts.answerOf id ≠ none) :
    ∃ answer ∈ facts.answers, answer.question = id := by
  by_contra none_answers
  exact answered (answerOf_eq_none.mpr fun answer answer_mem same =>
    none_answers ⟨answer, answer_mem, same⟩)

/-- What an accepted item is: it settles an open question, and answers only one whose dependencies
are all answered. -/
theorem judgeItem_eq_ok {item : Item} {settlement : Settlement}
    (judged : facts.judgeItem item = .ok settlement) :
    settlement.question = item.question ∧
      (∃ question ∈ facts.questions, question.id = item.question) ∧
      facts.isSettled item.question = false ∧
      (settlement.isAnswer = true →
        ∃ question ∈ facts.questions, question.id = item.question ∧
          ∀ on ∈ question.dependsOn, facts.answerOf on ≠ none) := by
  simp only [judgeItem, Except.bind_eq_ok, Except.ofOption_eq_ok, Except.require_eq_ok] at judged
  obtain ⟨question, found, _, unsettled, judged⟩ := judged
  have asked : ∃ question ∈ facts.questions, question.id = item.question :=
    ⟨question, List.mem_of_find?_eq_some found, by simpa using List.find?_some found⟩
  have ready (in_round : ((roundOf facts).current.any fun asked => asked.id = item.question) =
      true) : ∃ question ∈ facts.questions, question.id = item.question ∧
        ∀ on ∈ question.dependsOn, facts.answerOf on ≠ none := by
    obtain ⟨asked, asked_mem, same⟩ := List.any_eq_true.mp in_round
    obtain ⟨current, current_mem, rfl⟩ := List.mem_map.mp asked_mem
    obtain ⟨current_mem, standing⟩ := List.mem_filter.mp current_mem
    refine ⟨current, current_mem, by simpa using same, fun on on_mem unanswered => ?_⟩
    simp only [Bool.and_eq_true, List.isEmpty_iff, waitsOn, List.map_eq_nil_iff,
      List.filter_eq_nil_iff] at standing
    exact standing.2 on on_mem (by simp [unanswered])
  split at judged
  · simp only [Except.bind_eq_ok, Except.require_eq_ok, Except.ok.injEq] at judged
    obtain ⟨_, in_round, rfl⟩ := judged
    exact ⟨rfl, asked, unsettled, fun _ => ready in_round⟩
  · simp only [Except.bind_eq_ok, Except.require_eq_ok, Except.ok.injEq] at judged
    obtain ⟨_, in_round, _, _, rfl⟩ := judged
    exact ⟨rfl, asked, unsettled, fun _ => ready in_round⟩
  · simp only [Except.bind_eq_ok, Except.require_eq_ok, Except.ok.injEq] at judged
    obtain ⟨_, _, rfl⟩ := judged
    exact ⟨rfl, asked, unsettled, fun answers => by cases answers⟩

end SetFacts

theorem mapM_eq_ok_forall₂ {α β ε : Type} {run : α → Except ε β} {items : List α} {results : List β}
    (succeeded : items.mapM run = .ok results) :
    List.Forall₂ (fun item result => run item = .ok result) items results := by
  induction items generalizing results with
  | nil =>
      obtain rfl := Except.ok.inj succeeded
      exact .nil
  | cons item items ih =>
      simp only [List.mapM_cons, Except.bind_eq_ok, pure, Except.pure, Except.ok.injEq] at succeeded
      obtain ⟨result, result_eq, rest, rest_eq, rfl⟩ := succeeded
      exact .cons result_eq (ih rest_eq)

/-- What an accepted call settles: open questions of the set, none twice and at least one. -/
structure Settled.Sound (settled : Settled) (facts : SetFacts) : Prop where
  facts_eq : settled.facts = facts
  round_eq : settled.round = (roundOf facts).number
  unabandoned : facts.abandoned = none
  nonempty : settled.settlements ≠ []
  distinct : (settled.settlements.map Settlement.question).Nodup
  asked : ∀ settlement ∈ settled.settlements,
    ∃ question ∈ facts.questions, question.id = settlement.question
  unsettled : ∀ settlement ∈ settled.settlements, facts.isSettled settlement.question = false
  ready : ∀ settlement ∈ settled.settlements, settlement.isAnswer = true →
      ∃ question ∈ facts.questions, question.id = settlement.question ∧
        ∀ on ∈ question.dependsOn, facts.answerOf on ≠ none

theorem judgeAnswers_eq_ok {facts : SetFacts} {call : AnswerCall} {settled : Settled}
    (judged : judgeAnswers facts call = .ok settled) : settled.Sound facts := by
  simp only [judgeAnswers, Except.bind_eq_ok, Except.require_eq_ok, Except.ok.injEq] at judged
  obtain ⟨_, unabandoned, settlements, settlements_eq, rfl⟩ := judged
  have paired := mapM_eq_ok_forall₂ settlements_eq
  have items_eq : settlements.map Settlement.question = call.items.map Item.question := by
    clear settlements_eq
    generalize call.items = items at paired
    induction paired with
    | nil => rfl
    | cons judged _ ih =>
        rw [List.map_cons, List.map_cons, ih]
        rw [(SetFacts.judgeItem_eq_ok judged).1]
  have item_of_mem {settlement : Settlement} (settlement_mem : settlement ∈ settlements) :
      ∃ item, facts.judgeItem item = .ok settlement := by
    clear settlements_eq items_eq
    generalize call.items = items at paired
    induction paired with
    | nil => cases settlement_mem
    | cons judged _ ih =>
        rcases List.mem_cons.mp settlement_mem with rfl | settlement_mem
        · exact ⟨_, judged⟩
        · exact ih settlement_mem
  constructor
  · rfl
  · rfl
  · simpa using unabandoned
  · rintro rfl
    exact call.nonempty (List.map_eq_nil_iff.mp items_eq.symm)
  · simp only
    rw [items_eq]
    exact call.distinct
  · intro settlement settlement_mem
    obtain ⟨item, judged⟩ := item_of_mem settlement_mem
    obtain ⟨same, asked, -⟩ := SetFacts.judgeItem_eq_ok judged
    rw [same]
    exact asked
  · intro settlement settlement_mem
    obtain ⟨item, judged⟩ := item_of_mem settlement_mem
    obtain ⟨same, -, unsettled, -⟩ := SetFacts.judgeItem_eq_ok judged
    rw [same]
    exact unsettled
  · intro settlement settlement_mem answers
    obtain ⟨item, judged⟩ := item_of_mem settlement_mem
    obtain ⟨same, -, -, ready⟩ := SetFacts.judgeItem_eq_ok judged
    rw [same]
    exact ready answers

end Baley
