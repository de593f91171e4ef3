import Baley.Questions.Progress
import Baley.Questions.Runs

/-!
# Question rounds

Every run of a set keeps its facts readable and its questions settled at most once, each call in a
round of its own, and leaves a way to close the set.  The round is a 32-bit number that stops at the
largest, so a set of more questions than that can be settled by calls of one round.
-/

namespace Baley

open Json QuestionsProjector

/-- Every answer is of a question whose dependencies were all answered in earlier rounds. -/
def SetFacts.AnsweredEarlier (facts : SetFacts) : Prop :=
  ∀ answer ∈ facts.answers, ∃ question ∈ facts.questions, question.id = answer.question ∧
    ∀ on ∈ question.dependsOn, ∃ before ∈ facts.answers, before.question = on ∧
      before.round < answer.round

namespace SetFacts

variable {questions : QuestionSet} {rounds : List Nat} {facts : SetFacts}

theorem Kept.settled_le (kept : Kept questions rounds facts) :
    facts.settledIds.length ≤ questions.questions.length := by
  have settled_ids : facts.settledIds ⊆ questions.questions.map Question.id := by
    intro id id_mem
    obtain ⟨question, question_mem, rfl⟩ := kept.settled_asked id id_mem
    exact List.mem_map_of_mem question_mem
  have settled_le := (kept.settled_nodup.subperm settled_ids).length_le
  rwa [List.length_map] at settled_le

theorem Kept.rounds_eq_range' (kept : Kept questions rounds facts)
    (few : rounds.length ≤ maxU32) : rounds = List.range' 1 rounds.length := by
  have below : ∀ round ∈ List.range' 1 rounds.length, min round maxU32 = id round := by
    intro round round_mem
    obtain ⟨position, inside, rfl⟩ := List.mem_range'.mp round_mem
    exact Nat.min_eq_left (by omega)
  conv_lhs => rw [kept.rounds_eq, List.map_congr_left below, List.map_id]

theorem Kept.answeredEarlier (kept : Kept questions rounds facts)
    (few : rounds.length ≤ maxU32) : facts.AnsweredEarlier := by
  intro answer answer_mem
  have settled : answer.question ∈ facts.settledIds :=
    List.mem_append_left _ (List.mem_map_of_mem answer_mem)
  obtain ⟨question, question_mem, same⟩ := kept.settled_asked _ settled
  refine ⟨question, kept.questions_eq ▸ question_mem, same, fun on on_mem => ?_⟩
  obtain ⟨before, before_mem, before_on, before_round⟩ :=
    kept.earlier answer answer_mem question question_mem same on on_mem
  exact ⟨before, before_mem, before_on, before_round.resolve_right (Nat.not_lt.mpr few)⟩

theorem judgeAnswers_abandoned (abandoned : facts.abandoned ≠ none) (call : AnswerCall) :
    judgeAnswers facts call = .error .setAbandoned := by
  obtain ⟨abandonment, abandoned⟩ := Option.ne_none_iff_exists'.mp abandoned
  simp [judgeAnswers, abandoned, Except.require]
  rfl

end SetFacts

/-! ## A set settled one question a call -/

/-- A set opens where none of its id is held. -/
theorem projects_opening (set : String) (documents : Table DocKey Value)
    (fresh : documents.lookup (questionsKey set) = none) (story : Nat) (workOrder : String)
    (questions : QuestionSet) (recordedAt : String) (envelope : Event) (fits : story ≤ maxU32) :
    ∃ after, questionsProjector.project documents
      (opening set (.story story workOrder) questions recordedAt envelope) = .ok after := by
  have names : Names set (opening set (.story story workOrder) questions recordedAt envelope) :=
    ⟨(by decide : questionsProjector.handles.contains questionsOpened = true), rfl, by
      simp [opening, openedPayload, textOf, Members.lookup_ofEntries, Members.lookup_cons]⟩
  have fits64 : story < 2 ^ 64 := by
    unfold maxU32 at fits
    omega
  rw [names.project_opening rfl fresh]
  simp [«open», subject, text, number, textOf, opening, openedPayload, Members.lookup_ofEntries,
    Members.lookup_cons, Except.ofOption, Value.asU64_ofNat fits64, bind, Except.bind, Except.map]

namespace SetFacts

variable {questions : QuestionSet} {rounds : List Nat} {facts : SetFacts}

/-- Of fewer settled questions than the set holds, one is left open. -/
theorem Kept.exists_open (kept : Kept questions rounds facts)
    (fewer : facts.settledIds.length < questions.questions.length) :
    ∃ question ∈ questions.questions, facts.isOpen question = true := by
  by_contra none_open
  have all_settled : questions.questions.map Question.id ⊆ facts.settledIds := by
    intro id id_mem
    obtain ⟨question, question_mem, rfl⟩ := List.mem_map.mp id_mem
    rw [mem_settledIds]
    by_contra unsettled
    exact none_open ⟨question, question_mem, isOpen_iff.mpr (by simpa using unsettled)⟩
  have settled_le := (questions.ids_nodup.subperm all_settled).length_le
  rw [List.length_map] at settled_le
  omega

theorem judgeAnswers_defer (unabandoned : facts.abandoned = none)
    (questions_eq : facts.questions = questions.questions) {question : Question}
    (question_mem : question ∈ questions.questions) (is_open : facts.isOpen question = true) :
    judgeAnswers facts
        { items := [{ question := question.id, act := .defer "later" }], nonempty := by simp
          distinct := by simp } =
      .ok
        { facts, round := (roundOf facts).number
          settlements := [.deferred question.id "later"] } := by
  have judged := judgeItem_defer questions_eq question_mem is_open "later" (by decide)
  simp only [judgeAnswers, List.mapM_cons, List.mapM_nil, judged, Except.bind_eq_ok,
    Except.require_eq_ok]
  exact ⟨(), by rw [unabandoned]; rfl, _, ⟨_, rfl, _, rfl, rfl⟩, rfl⟩

end SetFacts

/-- A set can be settled in as many calls as it has questions. -/
theorem exists_questionRun (questions : QuestionSet) (envelope : Event) {calls : Nat}
    (enough : calls ≤ questions.questions.length) :
    ∃ rounds documents, QuestionRun "set" questions rounds documents ∧ rounds.length = calls := by
  have deferred : ∃ rounds documents facts, QuestionRun "set" questions rounds documents ∧
      Holds "set" documents facts ∧ facts.Kept questions rounds ∧ facts.abandoned = none ∧
      facts.settledIds.length = calls ∧ rounds.length = calls := by
    induction calls with
    | zero =>
        obtain ⟨after, projected⟩ :=
          projects_opening "set" ∅ (by simp) 1 "order" questions "now" envelope (by decide)
        obtain ⟨body, rfl, read_eq⟩ := project_opening "set" (by simp) projected
        exact ⟨[], _, _, .opened (by simp) projected, holds_insert "set" _ read_eq,
          SetFacts.kept_opened questions, rfl, rfl, rfl⟩
    | succ calls ih =>
        obtain ⟨rounds, documents, facts, run, holds, kept, unabandoned, settled_eq, rounds_eq⟩ :=
          ih (Nat.le_of_succ_le enough)
        obtain ⟨question, question_mem, is_open⟩ := kept.exists_open (by omega)
        have judged := SetFacts.judgeAnswers_defer unabandoned kept.questions_eq question_mem is_open
        have sound := judgeAnswers_eq_ok judged
        obtain ⟨after, projected, after_holds, -⟩ :=
          sound.projectAll holds "owner" "now" fun _ => envelope
        refine ⟨_, _, _, .called run holds judged projected, after_holds,
          kept.settleAll sound "owner" "now", ?_, ?_, ?_⟩
        · rw [SetFacts.settleAll_eq]
          exact unabandoned
        · rw [(SetFacts.settledIds_settleAll _ _ _ facts _).length_eq, List.length_append, settled_eq]
          rfl
        · rw [List.length_append, rounds_eq]
          rfl
  obtain ⟨rounds, documents, _, run, -, -, -, -, rounds_eq⟩ := deferred
  exact ⟨rounds, documents, run, rounds_eq⟩

/-! ### A crowd of questions -/

namespace Question

theorem judgeEach_of_nodup {ids seen : List String} {questions : List (Question × Nat)}
    (nodup : (questions.map fun entry => entry.1.id).Nodup)
    (fresh : ∀ entry ∈ questions, entry.1.id ∉ seen)
    (sound : ∀ entry ∈ questions, isBlank entry.1.id = false ∧ isBlank entry.1.question = false ∧
      isBlank entry.1.recommended = false ∧ entry.1.dependsOn = []) :
    judgeEach ids seen questions = .ok () := by
  induction questions generalizing seen with
  | nil => rfl
  | cons entry rest ih =>
      obtain ⟨question, position⟩ := entry
      obtain ⟨named, asks, recommends, independent⟩ := sound (question, position) (by simp)
      rw [List.map_cons, List.nodup_cons] at nodup
      simp only [judgeEach, Except.bind_eq_ok, Except.require_eq_ok]
      refine ⟨(), ⟨named, fresh (question, position) (by simp)⟩, (), ⟨asks, recommends⟩, (), ?_, ?_⟩
      · rw [show question.dependsOn = [] from independent]
        simp
      · refine ih nodup.2 ?_ fun other other_mem => sound other (List.mem_cons_of_mem _ other_mem)
        intro other other_mem seen_mem
        rcases List.mem_cons.mp seen_mem with same | seen_mem
        · exact nodup.1 (same ▸ List.mem_map_of_mem other_mem)
        · exact fresh other (List.mem_cons_of_mem _ other_mem) seen_mem

theorem grammar_toValue (question : Question) (independent : question.dependsOn = [])
    (id_fits : question.id.utf8ByteSize ≤ inlineTextLimit)
    (question_fits : question.question.utf8ByteSize ≤ inlineTextLimit)
    (recommended_fits : question.recommended.utf8ByteSize ≤ inlineTextLimit) :
    grammar question.toValue = some question := by
  obtain ⟨id, text, recommended, dependsOn⟩ := question
  simp only at independent id_fits question_fits recommended_fits
  subst independent
  have known : (Members.ofEntries [("id", Value.string id), ("question", .string text),
      ("recommended", .string recommended), ("depends_on", texts [])]).all
        (fun member => members.contains member.1) = true := by
    rw [List.all_eq_true]
    intro member member_mem
    have entry_mem := Members.mem_ofEntries member_mem
    simp only [List.mem_cons, List.not_mem_nil, or_false] at entry_mem
    rcases entry_mem with rfl | rfl | rfl | rfl <;> rfl
  have inlineText_eq (name value : String) {entry : Value}
      (found : entry.get? name = some (.string value)) (fits : value.utf8ByteSize ≤ inlineTextLimit) : inlineText entry name = some value := by
    simp [inlineText, found, fits]
  simp only [grammar, toValue, Value.ofEntries, Value.asObject, Option.bind_eq_bind,
    Option.bind_some, known, if_true]
  rw [inlineText_eq _ id (by simp [Members.lookup_ofEntries, Members.lookup_cons]) id_fits,
    inlineText_eq _ text (by simp [Members.lookup_ofEntries, Members.lookup_cons]) question_fits,
    inlineText_eq _ recommended
      (by simp [Members.lookup_ofEntries, Members.lookup_cons]) recommended_fits]
  have dependsOn_eq : (asTexts (.array [])).filter (fun on => decide on.Nodup) = some [] := rfl
  simp [Members.lookup_ofEntries, Members.lookup_cons, texts, dependsOn_eq]

/-- A question of its own number, which needs no other answer. -/
def numbered (number : Nat) : Question where
  id := number.repr
  question := "Which one?"
  recommended := "The first."
  dependsOn := []

theorem numbered_id_injective : Function.Injective fun number => (numbered number).id := by
  intro first second id_eq
  have digits_eq : Nat.toDigits 10 first = Nat.toDigits 10 second := by
    rw [← Nat.toList_repr, ← Nat.toList_repr]
    exact congrArg String.toList id_eq
  rw [← Nat.ofDigitChars_ten_toDigits (n := first), digits_eq, Nat.ofDigitChars_ten_toDigits]

theorem isBlank_numbered_id (number : Nat) : isBlank (numbered number).id = false := by
  obtain ⟨digit, digit_mem⟩ := List.exists_mem_of_ne_nil _ (Nat.toDigits_ne_nil (n := number) (b := 10))
  rw [isBlank, numbered, Nat.toList_repr, List.all_eq_false]
  refine ⟨digit, digit_mem, ?_⟩
  have is_digit := Nat.isDigit_of_mem_toDigits (by decide) (by decide) digit_mem
  rw [Char.isDigit, Bool.and_eq_true, decide_eq_true_eq, decide_eq_true_eq] at is_digit
  have lower : 48 ≤ digit.toNat := is_digit.1
  have upper : digit.toNat ≤ 57 := is_digit.2
  simp only [isWhiteSpace, Bool.or_eq_true, Bool.and_eq_true, decide_eq_true_eq]
  omega

theorem utf8ByteSize_ofList_le (chars : List Char) :
    (String.ofList chars).utf8ByteSize ≤ 4 * chars.length := by
  induction chars with
  | nil => decide
  | cons c chars ih =>
      have size_le := c.utf8Size_le_four
      rw [String.ofList_cons, String.utf8ByteSize_append, String.utf8ByteSize_singleton,
        List.length_cons]
      omega

theorem numbered_id_fits {number : Nat} (few : number ≤ maxU32) :
    (numbered number).id.utf8ByteSize ≤ inlineTextLimit := by
  have digits_le : (Nat.toDigits 10 number).length ≤ 10 := by
    rw [Nat.length_toDigits_le_iff (by decide) (by decide)]
    exact few.trans_lt (by decide)
  have size_le := utf8ByteSize_ofList_le (Nat.toDigits 10 number)
  change number.repr.utf8ByteSize ≤ 4096
  rw [Nat.repr_eq_ofList_toDigits]
  omega

end Question

/-- As many questions as the count, none needing another's answer. -/
def crowd (count : Nat) : List Question :=
  (List.range count).map Question.numbered

/-- A crowd no larger than one past the largest 32-bit number is accepted. -/
theorem judgeSet_crowd (count : Nat) (few : count ≤ maxU32 + 1) :
    ∃ questions, judgeSet (.array ((crowd count).map Question.toValue)) = .ok questions ∧
      questions.questions.length = count := by
  have numbered_of_mem {question : Question} (question_mem : question ∈ crowd count) :
      ∃ number ≤ maxU32, Question.numbered number = question := by
    obtain ⟨number, number_mem, rfl⟩ := List.mem_map.mp question_mem
    exact ⟨number, Nat.le_of_lt_succ ((List.mem_range.mp number_mem).trans_le few), rfl⟩
  have read_eq (start : Nat) : (((crowd count).map Question.toValue).zipIdx start).mapM
      (fun entry => Except.ofOption (SetRefusal.typedContent (some entry.2))
        (Question.grammar entry.1)) = .ok (crowd count) := by
    generalize crowd count = questions at numbered_of_mem
    induction questions generalizing start with
    | nil => rfl
    | cons question rest ih =>
        obtain ⟨number, number_le, rfl⟩ := numbered_of_mem List.mem_cons_self
        have question_fits : "Which one?".utf8ByteSize ≤ inlineTextLimit := by decide
        have recommended_fits : "The first.".utf8ByteSize ≤ inlineTextLimit := by decide
        have grammar_eq := Question.grammar_toValue (Question.numbered number) rfl
          (Question.numbered_id_fits number_le) question_fits recommended_fits
        rw [List.map_cons, List.zipIdx_cons, List.mapM_cons, grammar_eq,
          ih (start + 1) fun other_mem => numbered_of_mem (List.mem_cons_of_mem _ other_mem)]
        rfl
  have judged : Question.judgeEach ((crowd count).map Question.id) [] (crowd count).zipIdx =
      .ok () := by
    have entry_mem {entry : Question × Nat} (found : entry ∈ (crowd count).zipIdx) :
        entry.1 ∈ crowd count :=
      List.fst_mem_of_mem_zipIdx found
    refine Question.judgeEach_of_nodup ?_ (by simp) fun entry found => ?_
    · have ids_eq : ((crowd count).zipIdx.map fun entry => entry.1.id) =
          (crowd count).map Question.id := by
        rw [← List.zipIdx_map_fst 0 (crowd count), List.map_map]
        simp
      rw [ids_eq, crowd, List.map_map]
      exact List.nodup_range.map Question.numbered_id_injective
    · obtain ⟨number, -, same⟩ := numbered_of_mem (entry_mem found)
      have asks : isBlank "Which one?" = false := by decide
      have recommends : isBlank "The first." = false := by decide
      rw [← same]
      exact ⟨Question.isBlank_numbered_id number, asks, recommends, rfl⟩
  have acyclic : Question.onCycles (crowd count) = [] := by
    apply Graph.reportedComponents_edgeless
    · intro targets targets_mem
      obtain ⟨question, question_mem, rfl⟩ := List.mem_map.mp targets_mem
      obtain ⟨number, -, rfl⟩ := numbered_of_mem question_mem
      rfl
    · exact fun _ => rfl
  refine ⟨{ questions := crowd count, judged, acyclic }, ?_, by simp [crowd]⟩
  rw [judgeSet, read_eq 0]
  simp only [bind, Except.bind]
  split
  · next refused => rw [judged] at refused; cases refused
  · rw [dif_pos acyclic]

/-- The envelope of a project's first event. -/
def firstEnvelope : Event :=
  { projectId := "project", seq := 1, stream := "roadmap", streamVersion := 1
    typeName := questionsOpened, typeVersion := 1, actor := .owner, caller := none
    recordedAt := "2026-09-25T18:00:00Z", requestId := "request", git := none, policyVersion := 1
    payload := .null, prevHash := none, hash := .replicate 0 }

/-! ## What every run keeps -/

/-- What every run of a set keeps: each question settled at most once; while the number counts up, one
round a call and answers after the answers they need; a round that does not depend on the order of the
records; calls that are recorded once accepted and refused after an abandonment; and a way on while
the set is open. -/
theorem questionRun_rounds {set : String} {questions : QuestionSet} {rounds : List Nat}
    {documents : Table DocKey Value} (run : QuestionRun set questions rounds documents) :
    ∃ facts, Holds set documents facts ∧ facts.questions = questions.questions ∧
      facts.settledIds.Nodup ∧
      rounds.length ≤ questions.questions.length ∧
      (rounds.length ≤ maxU32 →
        rounds = List.range' 1 rounds.length ∧ facts.AnsweredEarlier) ∧
      (∀ other, facts.Reorders other → roundOf other = roundOf facts) ∧
      (∀ call settled, judgeAnswers facts call = .ok settled →
        ∀ owner recordedAt envelope, ∃ after next,
          questionsProjector.projectAll documents
            (settled.events set owner recordedAt envelope) = .ok after ∧
          Holds set after next ∧ roundOf next = settled.roundAfter owner recordedAt) ∧
      (facts.abandoned ≠ none → ∀ call, judgeAnswers facts call = .error .setAbandoned) ∧
      ((roundOf facts).state = .open →
        ((roundOf facts).current ≠ [] ∨ ∃ waiting, (roundOf facts).Blocked waiting) ∧
        ∀ reason, isBlank reason = false →
          (∀ question ∈ questions.questions, facts.isOpen question = true →
            facts.judgeItem { question := question.id, act := .defer reason } =
              .ok (.deferred question.id reason)) ∧
          ∃ call settled, judgeAnswers facts call = .ok settled ∧
            ∀ owner recordedAt, (settled.roundAfter owner recordedAt).state = .closed) := by
  obtain ⟨facts, holds, kept⟩ := run.kept
  refine ⟨facts, holds, kept.questions_eq, kept.settled_nodup, kept.counted.trans kept.settled_le,
    fun few => ⟨kept.rounds_eq_range' few, kept.answeredEarlier few⟩, ?_, ?_, ?_, ?_⟩
  · exact fun other reorders => SetFacts.roundOf_reorder kept.settled_nodup reorders
  · intro call settled judged owner recordedAt envelope
    obtain ⟨after, projected, after_holds, round_eq⟩ :=
      (judgeAnswers_eq_ok judged).projectAll holds owner recordedAt envelope
    exact ⟨after, _, projected, after_holds, round_eq⟩
  · exact fun abandoned => SetFacts.judgeAnswers_abandoned abandoned
  · intro is_open
    refine ⟨SetFacts.progress kept.questions_eq is_open, fun reason given => ⟨?_, ?_⟩⟩
    · exact fun question question_mem question_open =>
        SetFacts.judgeItem_defer kept.questions_eq question_mem question_open reason given
    · exact ⟨_, SetFacts.deferAll_closes kept.questions_eq is_open given⟩

/-- Two questions settled in two rounds. -/
theorem questionRun_rounds_two :
    ∃ questions rounds documents facts,
      judgeSet (.array ((crowd 2).map Question.toValue)) = .ok questions ∧
        QuestionRun "set" questions rounds documents ∧ Holds "set" documents facts ∧
        facts.settledIds.Nodup ∧ rounds = [1, 2] := by
  obtain ⟨questions, accepted, length_eq⟩ := judgeSet_crowd 2 (by decide)
  obtain ⟨rounds, documents, run, rounds_eq⟩ :=
    exists_questionRun questions firstEnvelope le_rfl
  obtain ⟨facts, holds, -, settled_nodup, -, increasing, -⟩ := questionRun_rounds run
  have few : rounds.length ≤ maxU32 := (rounds_eq.trans length_eq).trans_le (by decide)
  refine ⟨questions, rounds, documents, facts, accepted, run, holds, settled_nodup, ?_⟩
  rw [(increasing few).1, rounds_eq, length_eq]
  rfl

/-! ## More calls than rounds -/

/-- A run of more calls than there are rounds repeats one. -/
theorem SetFacts.Kept.not_increasing {questions : QuestionSet} {rounds : List Nat} {facts : SetFacts}
    (kept : facts.Kept questions rounds) (many : maxU32 < rounds.length) :
    ¬ rounds.Pairwise (· < ·) := by
  intro increasing
  have bounded : rounds ⊆ List.range' 1 maxU32 := by
    intro round round_mem
    rw [kept.rounds_eq] at round_mem
    obtain ⟨number, number_mem, rfl⟩ := List.mem_map.mp round_mem
    obtain ⟨position, -, rfl⟩ := List.mem_range'.mp number_mem
    rw [List.mem_range'_1]
    have positive : 1 ≤ maxU32 := by decide
    omega
  have nodup : rounds.Nodup := increasing.imp Nat.ne_of_lt
  have rounds_le := (nodup.subperm bounded).length_le
  rw [List.length_range'] at rounds_le
  omega

/-- A set of one question more than there are rounds is accepted, and a run of it settles two
questions in one round. -/
theorem rounds_not_increasing :
    ∃ questions rounds documents,
      judgeSet (.array ((crowd (2 ^ 32)).map Question.toValue)) = .ok questions ∧
        QuestionRun "set" questions rounds documents ∧ ¬ rounds.Pairwise (· < ·) := by
  have count_eq : maxU32 + 1 = 2 ^ 32 := by decide
  obtain ⟨questions, accepted, length_eq⟩ := judgeSet_crowd (maxU32 + 1) le_rfl
  obtain ⟨rounds, documents, run, rounds_eq⟩ :=
    exists_questionRun questions firstEnvelope length_eq.ge
  obtain ⟨facts, -, kept⟩ := run.kept
  rw [count_eq] at accepted
  exact ⟨questions, rounds, documents, accepted, run, kept.not_increasing (by omega)⟩

end Baley
