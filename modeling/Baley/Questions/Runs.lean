import Baley.Questions.Settled

/-!
# Runs of a question set

A set is opened, then calls are accepted against it and an abandonment may be recorded at any point.
What holds of the set's facts is carried through every record.
-/

namespace Baley

open Json QuestionsProjector

/-! ## Recording a call -/

/-- The events an accepted call records, each in an envelope of its own. -/
def Settled.events (settled : Settled) (set : String) (owner recordedAt : String)
    (envelope : Settlement → Event) : List Event :=
  settled.settlements.map fun settlement =>
    settlement.event set settled.round owner recordedAt (envelope settlement)

/-- A document of the view that reads as the facts. -/
def Holds (set : String) (documents : Table DocKey Value) (facts : SetFacts) : Prop :=
  ∃ document, documents.lookup (questionsKey set) = some document ∧
    SetFacts.read document = .ok facts

theorem Holds.unique {set : String} {documents : Table DocKey Value} {first second : SetFacts}
    (first_holds : Holds set documents first) (second_holds : Holds set documents second) :
    first = second := by
  obtain ⟨document, found, read_eq⟩ := first_holds
  obtain ⟨other, other_found, other_read⟩ := second_holds
  obtain rfl := Option.some.inj (found.symm.trans other_found)
  exact Except.ok.inj (read_eq.symm.trans other_read)

theorem holds_insert (set : String) (documents : Table DocKey Value) {body : Value} {facts : SetFacts}
    (read_eq : SetFacts.read body = .ok facts) :
    Holds set (documents.insert (questionsKey set) body) facts :=
  ⟨body, by rw [Table.lookup_put, if_pos rfl], read_eq⟩

/-- The projector takes the settlements of open questions, each at most once. -/
theorem projectAll_settlements {set : String} {documents : Table DocKey Value} {facts : SetFacts}
    (holds : Holds set documents facts) {round : Nat} (fits : round ≤ maxU32)
    (owner recordedAt : String) (envelope : Settlement → Event) {settlements : List Settlement}
    (distinct : (settlements.map Settlement.question).Nodup)
    (asked : ∀ settlement ∈ settlements,
      ∃ question ∈ facts.questions, question.id = settlement.question)
    (unsettled : ∀ settlement ∈ settlements, facts.isSettled settlement.question = false) :
    ∃ after, questionsProjector.projectAll documents (settlements.map fun settlement =>
        settlement.event set round owner recordedAt (envelope settlement)) = .ok after ∧
      Holds set after (facts.settleAll round owner recordedAt settlements) := by
  induction settlements generalizing documents facts with
  | nil => exact ⟨documents, rfl, holds⟩
  | cons settlement settlements ih =>
      obtain ⟨document, found, read_eq⟩ := holds
      rw [List.map_cons, List.nodup_cons] at distinct
      obtain ⟨body, projected, body_read⟩ := project_settlement set found read_eq
        (asked settlement (by simp)) (unsettled settlement (by simp)) fits owner recordedAt
        (envelope settlement)
      obtain ⟨after, rest_projected, after_holds⟩ := ih (holds_insert set documents body_read)
        distinct.2
        (fun other other_mem => by
          rw [SetFacts.questions_settle]
          exact asked other (List.mem_cons_of_mem _ other_mem))
        (fun other other_mem => by
          have differs : settlement.question ≠ other.question := fun same =>
            distinct.1 (same ▸ List.mem_map_of_mem other_mem)
          rw [SetFacts.isSettled_settle, unsettled other (List.mem_cons_of_mem _ other_mem)]
          simpa using differs)
      refine ⟨after, ?_, after_holds⟩
      rw [List.map_cons, Projector.projectAll_cons, projected]
      exact rest_projected

/-- An accepted call is recorded, and the set's round is then the one the call announced. -/
theorem Settled.Sound.projectAll {set : String} {documents : Table DocKey Value} {facts : SetFacts}
    {settled : Settled} (sound : settled.Sound facts) (holds : Holds set documents facts)
    (owner recordedAt : String) (envelope : Settlement → Event) :
    ∃ after, questionsProjector.projectAll documents
        (settled.events set owner recordedAt envelope) = .ok after ∧
      Holds set after (facts.settleAll settled.round owner recordedAt settled.settlements) ∧
      roundOf (facts.settleAll settled.round owner recordedAt settled.settlements) =
        settled.roundAfter owner recordedAt := by
  have fits : settled.round ≤ maxU32 := by
    rw [sound.round_eq]
    exact Nat.min_le_right _ _
  obtain ⟨after, projected, after_holds⟩ := projectAll_settlements holds fits owner recordedAt
    envelope sound.distinct sound.asked sound.unsettled
  refine ⟨after, projected, after_holds, ?_⟩
  rw [Settled.roundAfter, sound.facts_eq, SetFacts.settleAll]

/-! ## Runs -/

/-- The documents after a set was opened, calls were recorded on it and it may have been abandoned,
with the rounds of the calls. -/
inductive QuestionRun (set : String) (questions : QuestionSet) :
    List Nat → Table DocKey Value → Prop
  | opened {documents after : Table DocKey Value} {subject : Subject} {recordedAt : String}
      {envelope : Event} (fresh : documents.lookup (questionsKey set) = none)
      (projected : questionsProjector.project documents
        (opening set subject questions recordedAt envelope) = .ok after) :
      QuestionRun set questions [] after
  | called {rounds : List Nat} {documents after : Table DocKey Value} {facts : SetFacts}
      {call : AnswerCall} {settled : Settled} {owner recordedAt : String}
      {envelope : Settlement → Event} (run : QuestionRun set questions rounds documents)
      (holds : Holds set documents facts) (judged : judgeAnswers facts call = .ok settled)
      (projected : questionsProjector.projectAll documents
        (settled.events set owner recordedAt envelope) = .ok after) :
      QuestionRun set questions (rounds ++ [settled.round]) after
  | abandoned {rounds : List Nat} {documents after : Table DocKey Value} {cause : Cause}
      {recordedAt : String} {envelope : Event} (run : QuestionRun set questions rounds documents)
      (projected : questionsProjector.project documents
        (abandonment set cause recordedAt envelope) = .ok after) :
      QuestionRun set questions rounds after

/-- What holds of a set's facts after calls in these rounds.  The numbers stop at the largest 32-bit
number. -/
structure SetFacts.Kept (questions : QuestionSet) (rounds : List Nat) (facts : SetFacts) :
    Prop where
  questions_eq : facts.questions = questions.questions
  settled_nodup : facts.settledIds.Nodup
  settled_asked : ∀ id ∈ facts.settledIds, ∃ question ∈ questions.questions, question.id = id
  rounds_eq : rounds = (List.range' 1 rounds.length).map fun round => min round maxU32
  highest_eq : facts.highest = min rounds.length maxU32
  counted : rounds.length ≤ facts.settledIds.length
  earlier : ∀ answer ∈ facts.answers, ∀ question ∈ questions.questions,
    question.id = answer.question → ∀ on ∈ question.dependsOn,
      ∃ before ∈ facts.answers, before.question = on ∧
        (before.round < answer.round ∨ maxU32 < rounds.length)

namespace SetFacts

variable {questions : QuestionSet} {rounds : List Nat} {facts : SetFacts}

theorem kept_opened (questions : QuestionSet) :
    Kept questions []
      { questions := questions.questions, answers := [], deferrals := [], abandoned := none } where
  questions_eq := rfl
  settled_nodup := List.nodup_nil
  settled_asked := by simp [settledIds]
  rounds_eq := rfl
  highest_eq := rfl
  counted := Nat.zero_le _
  earlier := by simp

theorem foldr_max_le {numbers : List Nat} {bound : Nat} :
    numbers.foldr max 0 ≤ bound ↔ ∀ number ∈ numbers, number ≤ bound := by
  induction numbers with
  | nil => simp
  | cons number numbers ih => simp [ih]

theorem round_le_highest {answer : QuestionAnswer} (answer_mem : answer ∈ facts.answers) :
    answer.round ≤ facts.highest :=
  foldr_max_le.mp le_rfl _ (List.mem_append_left _ (List.mem_map_of_mem answer_mem))

/-- Recording a call at a round not below the others makes it the highest. -/
theorem highest_settleAll {round : Nat} {owner recordedAt : String} {settlements : List Settlement}
    (nonempty : settlements ≠ []) (above : facts.highest ≤ round) :
    (facts.settleAll round owner recordedAt settlements).highest = round := by
  have recorded_mem {number : Nat}
      (number_mem : number ∈ (facts.settleAll round owner recordedAt settlements).rounds) :
      number ∈ facts.rounds ∨ number = round := by
    simp only [settleAll_eq, rounds, List.map_append, List.mem_append, List.mem_map,
      List.mem_filterMap] at number_mem ⊢
    rcases number_mem with (earlier | ⟨answer, ⟨settlement, -, answer_eq⟩, rfl⟩) |
      (earlier | ⟨deferral, ⟨settlement, -, deferral_eq⟩, rfl⟩)
    · exact Or.inl (Or.inl earlier)
    · cases settlement <;> cases answer_eq
      exact Or.inr rfl
    · exact Or.inl (Or.inr earlier)
    · cases settlement <;> cases deferral_eq
      exact Or.inr rfl
  have round_mem : round ∈ (facts.settleAll round owner recordedAt settlements).rounds := by
    obtain ⟨settlement, rest, rfl⟩ := List.exists_cons_of_ne_nil nonempty
    rw [settleAll_eq]
    cases settlement <;> simp [rounds, Settlement.answer?, Settlement.deferral?]
  refine le_antisymm (foldr_max_le.mpr fun number number_mem => ?_)
    (foldr_max_le.mp le_rfl round round_mem)
  rcases recorded_mem number_mem with earlier | rfl
  · exact (foldr_max_le.mp le_rfl number earlier).trans above
  · exact le_rfl

theorem Kept.round_eq (kept : Kept questions rounds facts) {settled : Settled}
    (sound : settled.Sound facts) : settled.round = min (rounds.length + 1) maxU32 := by
  rw [sound.round_eq]
  change min (facts.highest + 1) maxU32 = _
  rw [kept.highest_eq]
  omega

/-- An accepted call keeps what holds of the facts. -/
theorem Kept.settleAll (kept : Kept questions rounds facts) {settled : Settled}
    (sound : settled.Sound facts) (owner recordedAt : String) :
    Kept questions (rounds ++ [settled.round])
      (facts.settleAll settled.round owner recordedAt settled.settlements) := by
  have round_eq := kept.round_eq sound
  have above : facts.highest ≤ settled.round := by
    rw [kept.highest_eq, round_eq]
    omega
  have perm : (facts.settleAll settled.round owner recordedAt settled.settlements).settledIds.Perm
      (facts.settledIds ++ settled.settlements.map Settlement.question) :=
    settledIds_settleAll _ _ _ facts settled.settlements
  have new_unsettled {id : String} (id_mem : id ∈ settled.settlements.map Settlement.question) :
      id ∉ facts.settledIds := by
    obtain ⟨settlement, settlement_mem, rfl⟩ := List.mem_map.mp id_mem
    rw [mem_settledIds, sound.unsettled settlement settlement_mem]
    exact Bool.false_ne_true
  constructor
  case questions_eq =>
    rw [settleAll_eq]
    exact kept.questions_eq
  case settled_nodup =>
    rw [perm.nodup_iff, List.nodup_append]
    refine ⟨kept.settled_nodup, sound.distinct, ?_⟩
    rintro id id_settled other other_mem rfl
    exact new_unsettled other_mem id_settled
  case settled_asked =>
    intro id id_mem
    rcases List.mem_append.mp (perm.mem_iff.mp id_mem) with id_mem | id_mem
    · exact kept.settled_asked id id_mem
    · obtain ⟨settlement, settlement_mem, rfl⟩ := List.mem_map.mp id_mem
      rw [← kept.questions_eq]
      exact sound.asked settlement settlement_mem
  case rounds_eq =>
    rw [List.length_append, List.length_singleton, List.range'_concat, List.map_append,
      ← kept.rounds_eq, round_eq, List.map_singleton]
    congr 2
    omega
  case highest_eq =>
    rw [highest_settleAll sound.nonempty above, round_eq, List.length_append,
      List.length_singleton]
  case counted =>
    have one_settled : 0 < settled.settlements.length := List.length_pos_iff.mpr sound.nonempty
    have counted := kept.counted
    rw [perm.length_eq, List.length_append, List.length_append, List.length_map,
      List.length_singleton]
    omega
  case earlier =>
    intro answer answer_mem question question_mem same on on_mem
    rw [settleAll_eq] at answer_mem ⊢
    rw [List.length_append, List.length_singleton]
    rcases List.mem_append.mp answer_mem with answer_mem | answer_mem
    · obtain ⟨before, before_mem, before_on, before_round⟩ :=
        kept.earlier answer answer_mem question question_mem same on on_mem
      exact ⟨before, List.mem_append_left _ before_mem, before_on,
        before_round.imp_right fun many => many.trans (Nat.lt_succ_self _)⟩
    · obtain ⟨settlement, settlement_mem, answer_eq⟩ := List.mem_filterMap.mp answer_mem
      cases settlement with
      | deferred question reason => cases answer_eq
      | answered id text accepted =>
          obtain rfl := Option.some.inj answer_eq
          obtain ⟨current, current_mem, current_id, answered⟩ :=
            sound.ready _ settlement_mem rfl
          rw [kept.questions_eq] at current_mem
          obtain rfl := questions.eq_of_id_eq current_mem question_mem (current_id.trans same.symm)
          obtain ⟨before, before_mem, before_on⟩ := answer_of_answerOf (answered on on_mem)
          refine ⟨before, List.mem_append_left _ before_mem, before_on, ?_⟩
          have before_round := round_le_highest before_mem
          rw [kept.highest_eq] at before_round
          rw [round_eq]
          change before.round < min (rounds.length + 1) maxU32 ∨ _
          omega

end SetFacts

/-- The document of a run reads as facts that keep the invariant. -/
theorem QuestionRun.kept {set : String} {questions : QuestionSet} {rounds : List Nat}
    {documents : Table DocKey Value} (run : QuestionRun set questions rounds documents) :
    ∃ facts, Holds set documents facts ∧ facts.Kept questions rounds := by
  induction run with
  | opened fresh projected =>
      obtain ⟨body, rfl, read_eq⟩ := project_opening set fresh projected
      exact ⟨_, holds_insert set _ read_eq, SetFacts.kept_opened questions⟩
  | @called _ _ _ facts _ settled owner recordedAt envelope _ holds judged projected ih =>
      obtain ⟨known, known_holds, kept⟩ := ih
      obtain rfl := holds.unique known_holds
      have sound := judgeAnswers_eq_ok judged
      obtain ⟨after, after_eq, after_holds, -⟩ := sound.projectAll holds owner recordedAt envelope
      obtain rfl := Except.ok.inj (after_eq.symm.trans projected)
      exact ⟨_, after_holds, kept.settleAll sound owner recordedAt⟩
  | abandoned _ projected ih =>
      obtain ⟨facts, ⟨document, found, read_eq⟩, kept⟩ := ih
      obtain ⟨-, body, rfl, body_read⟩ := project_abandonment set found read_eq projected
      exact ⟨_, holds_insert set _ body_read, { kept with }⟩

end Baley
