import Baley.Questions.Settled

/-!
# Progress of a set

The round of a set depends on what was recorded, not on its order.  While a set is open some question
is in the current round or waits on a deferred one, and deferring every open question closes it.
-/

namespace Baley

open Json

namespace SetFacts

variable {facts : SetFacts}

/-! ## The order of what was recorded -/

/-- Of entries that each name another question, the last one of a question is the only one. -/
theorem find?_reverse_perm {α : Type} (question : α → String) {entries others : List α}
    (nodup : (entries.map question).Nodup) (perm : entries.Perm others) (id : String) :
    (entries.reverse.find? fun entry => question entry = id) =
      others.reverse.find? fun entry => question entry = id := by
  have same {first second : α} (first_mem : first ∈ entries) (second_mem : second ∈ entries)
      (first_id : question first = id) (second_id : question second = id) : first = second :=
    List.inj_on_of_nodup_map nodup first_mem second_mem (first_id.trans second_id.symm)
  cases found : entries.reverse.find? fun entry => question entry = id with
  | none =>
      rw [List.find?_eq_none] at found
      symm
      rw [List.find?_eq_none]
      intro entry entry_mem
      exact found entry (List.mem_reverse.mpr (perm.mem_iff.mpr (List.mem_reverse.mp entry_mem)))
  | some entry =>
      have entry_mem := List.mem_reverse.mp (List.mem_of_find?_eq_some found)
      have entry_id : question entry = id := by simpa using List.find?_some found
      cases other_found : others.reverse.find? fun entry => question entry = id with
      | none =>
          rw [List.find?_eq_none] at other_found
          have absent := other_found entry (List.mem_reverse.mpr (perm.mem_iff.mp entry_mem))
          exact absurd entry_id (by simpa using absent)
      | some other =>
          have other_mem :=
            perm.mem_iff.mpr (List.mem_reverse.mp (List.mem_of_find?_eq_some other_found))
          have other_id : question other = id := by simpa using List.find?_some other_found
          rw [same entry_mem other_mem entry_id other_id]

theorem foldr_max_perm {numbers others : List Nat} (perm : numbers.Perm others) :
    numbers.foldr max 0 = others.foldr max 0 := by
  induction perm with
  | nil => rfl
  | cons number _ ih => rw [List.foldr_cons, List.foldr_cons, ih]
  | swap first second rest =>
      simp only [List.foldr_cons]
      exact max_left_comm _ _ _
  | trans _ _ first_ih second_ih => exact first_ih.trans second_ih

/-- Facts with the same entries in another order. -/
structure Reorders (facts other : SetFacts) : Prop where
  questions_eq : other.questions = facts.questions
  answers_perm : facts.answers.Perm other.answers
  deferrals_perm : facts.deferrals.Perm other.deferrals
  abandoned_eq : other.abandoned = facts.abandoned

/-- The round does not depend on the order of the entries, where no question was settled twice. -/
theorem roundOf_reorder {other : SetFacts} (nodup : facts.settledIds.Nodup)
    (reorders : facts.Reorders other) : roundOf other = roundOf facts := by
  obtain ⟨answers_nodup, deferrals_nodup, -⟩ := List.nodup_append.mp nodup
  have answerOf_eq : other.answerOf = facts.answerOf :=
    funext fun id => (find?_reverse_perm QuestionAnswer.question answers_nodup
      reorders.answers_perm id).symm
  have deferralOf_eq : other.deferralOf = facts.deferralOf :=
    funext fun id => (find?_reverse_perm Deferral.question deferrals_nodup
      reorders.deferrals_perm id).symm
  have highest_eq : other.highest = facts.highest :=
    (foldr_max_perm ((reorders.answers_perm.map _).append (reorders.deferrals_perm.map _))).symm
  have isOpen_eq : other.isOpen = facts.isOpen := by
    funext question
    rw [isOpen, isOpen, answerOf_eq, deferralOf_eq]
  have waitsOn_eq : other.waitsOn = facts.waitsOn := by
    funext question
    rw [waitsOn, waitsOn, answerOf_eq, deferralOf_eq]
  have askedNow_eq : other.askedNow = facts.askedNow := by
    rw [askedNow, askedNow, reorders.questions_eq, isOpen_eq, waitsOn_eq]
  have waitingNow_eq : other.waitingNow = facts.waitingNow := by
    rw [waitingNow, waitingNow, reorders.questions_eq, isOpen_eq, waitsOn_eq]
  simp only [roundOf, highest_eq, askedNow_eq, waitingNow_eq, answerOf_eq, deferralOf_eq,
    reorders.questions_eq, reorders.abandoned_eq]

/-! ## What an open set waits on -/

theorem mem_waitsOn {question : Question} {on : String} (on_mem : on ∈ question.dependsOn)
    (unanswered : facts.answerOf on = none) :
    (on, if (facts.deferralOf on).isSome then Pending.deferred else Pending.open) ∈
      facts.waitsOn question := by
  refine List.mem_map.mpr ⟨on, List.mem_filter.mpr ⟨on_mem, ?_⟩, rfl⟩
  rw [unanswered]
  rfl

theorem mem_waitingNow {question : Question} (question_mem : question ∈ facts.questions)
    (is_open : facts.isOpen question = true) (waits : facts.waitsOn question ≠ []) :
    { id := question.id, question := question.question, on := facts.waitsOn question } ∈
      facts.waitingNow := by
  refine List.mem_map.mpr ⟨question, List.mem_filter.mpr ⟨question_mem, ?_⟩, rfl⟩
  rw [is_open, Bool.true_and, Bool.not_eq_true', List.isEmpty_eq_false_iff]
  exact waits

end SetFacts

/-- A waiting question of a round that waits on a deferred one, directly or through other waiting
ones. -/
inductive Round.Blocked (round : Round) : Waiting → Prop
  | deferred {waiting : Waiting} {on : String} (waiting_mem : waiting ∈ round.waiting)
      (on_mem : (on, Pending.deferred) ∈ waiting.on) : round.Blocked waiting
  | through {waiting other : Waiting} (waiting_mem : waiting ∈ round.waiting)
      (other_mem : other ∈ round.waiting) (on_mem : (other.id, Pending.open) ∈ waiting.on)
      (other_blocked : round.Blocked other) : round.Blocked waiting

namespace SetFacts

variable {questions : QuestionSet} {facts : SetFacts}

/-- Where the current round is empty, every open question waits on a deferred one. -/
theorem blocked_of_askedNow_nil (questions_eq : facts.questions = questions.questions)
    (none_asked : facts.askedNow = []) :
    ∀ question ∈ questions.questions, facts.isOpen question = true →
      (roundOf facts).Blocked
        { id := question.id, question := question.question, on := facts.waitsOn question } := by
  refine questions.induction fun question question_mem others_blocked is_open => ?_
  have waits : facts.waitsOn question ≠ [] := by
    intro waits_none
    have asked : question ∈ facts.questions.filter fun question =>
        facts.isOpen question && (facts.waitsOn question).isEmpty := by
      rw [List.mem_filter, questions_eq, is_open, waits_none]
      exact ⟨question_mem, rfl⟩
    rw [askedNow, List.map_eq_nil_iff] at none_asked
    rw [none_asked] at asked
    cases asked
  have waiting_mem := mem_waitingNow (questions_eq ▸ question_mem) is_open waits
  obtain ⟨entry, entry_mem⟩ := List.exists_mem_of_ne_nil _ waits
  obtain ⟨on, on_mem, -⟩ := List.mem_map.mp entry_mem
  obtain ⟨on_mem, unanswered⟩ := List.mem_filter.mp on_mem
  rw [Option.isNone_iff_eq_none] at unanswered
  have pending := mem_waitsOn on_mem unanswered
  cases deferred : facts.deferralOf on with
  | some deferral =>
      rw [deferred, if_pos (Option.isSome_some)] at pending
      exact .deferred waiting_mem pending
  | none =>
      rw [deferred, if_neg (by simp)] at pending
      obtain ⟨-, other, other_mem, rfl⟩ := (questions.judged_of_mem question_mem).2 on on_mem
      have other_open : facts.isOpen other = true := by
        rw [isOpen, unanswered, deferred]
        rfl
      have other_blocked := others_blocked other other_mem on_mem other_open
      refine .through waiting_mem ?_ pending other_blocked
      cases other_blocked with
      | deferred other_waiting _ => exact other_waiting
      | through other_waiting _ _ _ => exact other_waiting

/-- While a set is open, a question is in the current round, or one waits on a deferred question. -/
theorem progress (questions_eq : facts.questions = questions.questions)
    (is_open : (roundOf facts).state = .open) :
    (roundOf facts).current ≠ [] ∨ ∃ waiting, (roundOf facts).Blocked waiting := by
  by_cases none_asked : facts.askedNow = []
  · right
    have some_waiting : facts.waitingNow ≠ [] := by
      intro none_waiting
      simp [roundOf, none_asked, none_waiting] at is_open
      split at is_open <;> cases is_open
    obtain ⟨waiting, waiting_mem⟩ := List.exists_mem_of_ne_nil _ some_waiting
    obtain ⟨question, question_mem, -⟩ := List.mem_map.mp waiting_mem
    obtain ⟨question_mem, standing⟩ := List.mem_filter.mp question_mem
    rw [Bool.and_eq_true] at standing
    exact ⟨_, blocked_of_askedNow_nil questions_eq none_asked question
      (questions_eq ▸ question_mem) standing.1⟩
  · exact Or.inl none_asked

/-! ## Closing a set -/

/-- Every open question can be deferred. -/
theorem judgeItem_defer (questions_eq : facts.questions = questions.questions)
    {question : Question} (question_mem : question ∈ questions.questions)
    (is_open : facts.isOpen question = true) (reason : String) (given : isBlank reason = false) :
    facts.judgeItem { question := question.id, act := .defer reason } =
      .ok (.deferred question.id reason) := by
  have found : ∃ asked, facts.questions.find? (fun other => other.id = question.id) =
      some asked := by
    rw [questions_eq, ← Option.isSome_iff_exists, List.find?_isSome]
    exact ⟨question, question_mem, by simp⟩
  obtain ⟨asked, found⟩ := found
  simp only [judgeItem, Except.bind_eq_ok, Except.ofOption_eq_ok, Except.require_eq_ok]
  exact ⟨asked, found, (), isOpen_iff.mp is_open, (), given, trivial⟩

/-- The questions that are open. -/
def openNow (facts : SetFacts) : List Question :=
  facts.questions.filter facts.isOpen

/-- The set is closed when no question is open. -/
theorem state_closed (unabandoned : facts.abandoned = none) (none_open : facts.openNow = []) :
    (roundOf facts).state = .closed := by
  have closed (question : Question) (question_mem : question ∈ facts.questions) :
      ¬ facts.isOpen question = true :=
    (List.filter_eq_nil_iff.mp none_open) question question_mem
  have none_asked : facts.askedNow = [] := by
    rw [askedNow, List.map_eq_nil_iff, List.filter_eq_nil_iff]
    intro question question_mem standing
    rw [Bool.and_eq_true] at standing
    exact closed question question_mem standing.1
  have none_waiting : facts.waitingNow = [] := by
    rw [waitingNow, List.map_eq_nil_iff, List.filter_eq_nil_iff]
    intro question question_mem standing
    rw [Bool.and_eq_true] at standing
    exact closed question question_mem standing.1
  simp [roundOf, unabandoned, none_asked, none_waiting]

/-- A set that is open has an open question. -/
theorem openNow_ne_nil (is_open : (roundOf facts).state = .open) : facts.openNow ≠ [] := by
  intro none_open
  by_cases unabandoned : facts.abandoned = none
  · rw [state_closed unabandoned none_open] at is_open
    cases is_open
  · obtain ⟨abandonment, abandoned⟩ := Option.ne_none_iff_exists'.mp unabandoned
    simp [roundOf, abandoned] at is_open

theorem unabandoned_of_open (is_open : (roundOf facts).state = .open) : facts.abandoned = none := by
  cases abandoned : facts.abandoned with
  | none => rfl
  | some abandonment => simp [roundOf, abandoned] at is_open

end SetFacts

/-- The call that defers every open question of a set. -/
def AnswerCall.deferAll {questions : QuestionSet} {facts : SetFacts}
    (questions_eq : facts.questions = questions.questions)
    (is_open : (roundOf facts).state = .open) (reason : String) : AnswerCall where
  items := facts.openNow.map fun question => { question := question.id, act := .defer reason }
  nonempty := by
    rw [Ne, List.map_eq_nil_iff]
    exact SetFacts.openNow_ne_nil is_open
  distinct := by
    rw [List.map_map]
    refine List.Nodup.sublist (List.filter_sublist.map _) ?_
    rw [questions_eq]
    exact questions.ids_nodup

namespace SetFacts

variable {questions : QuestionSet} {facts : SetFacts}

/-- Deferring every open question is accepted and closes the set. -/
theorem deferAll_closes (questions_eq : facts.questions = questions.questions)
    (is_open : (roundOf facts).state = .open) {reason : String} (given : isBlank reason = false) :
    ∃ settled, judgeAnswers facts (AnswerCall.deferAll questions_eq is_open reason) = .ok settled ∧
      ∀ owner recordedAt, (settled.roundAfter owner recordedAt).state = .closed := by
  have unabandoned := unabandoned_of_open is_open
  have judged : (facts.openNow.map fun question =>
      ({ question := question.id, act := .defer reason } : Item)).mapM facts.judgeItem =
        .ok (facts.openNow.map fun question => Settlement.deferred question.id reason) := by
    have each : ∀ question ∈ facts.openNow,
        facts.judgeItem { question := question.id, act := .defer reason } =
          .ok (.deferred question.id reason) := fun question question_mem =>
      judgeItem_defer questions_eq (questions_eq ▸ (List.mem_filter.mp question_mem).1)
        (List.mem_filter.mp question_mem).2 reason given
    generalize facts.openNow = open_questions at each
    induction open_questions with
    | nil => rfl
    | cons question rest ih =>
        rw [List.map_cons, List.mapM_cons, each question List.mem_cons_self,
          ih fun other other_mem => each other (List.mem_cons_of_mem _ other_mem)]
        rfl
  refine ⟨{ facts, round := (roundOf facts).number
            settlements := facts.openNow.map fun question => .deferred question.id reason }, ?_, ?_⟩
  · simp only [judgeAnswers, AnswerCall.deferAll, Except.bind_eq_ok, Except.require_eq_ok]
    exact ⟨(), by rw [unabandoned]; rfl, _, judged, rfl⟩
  · intro owner recordedAt
    rw [Settled.roundAfter]
    change (roundOf (facts.settleAll _ owner recordedAt _)).state = _
    have perm := settledIds_settleAll (roundOf facts).number owner recordedAt facts
      (facts.openNow.map fun question => Settlement.deferred question.id reason)
    apply state_closed
    · rw [settleAll_eq]
      exact unabandoned
    · rw [openNow, List.filter_eq_nil_iff]
      intro question question_mem standing
      rw [settleAll_eq] at question_mem
      rw [isOpen_iff, ← Bool.not_eq_true, ← mem_settledIds, perm.mem_iff, List.mem_append,
        not_or, mem_settledIds, Bool.not_eq_true, ← isOpen_iff] at standing
      apply standing.2
      rw [List.map_map, List.mem_map]
      exact ⟨question, List.mem_filter.mpr ⟨question_mem, standing.1⟩, rfl⟩

end SetFacts

end Baley
