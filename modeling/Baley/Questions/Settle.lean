import Baley.Questions.Facts

/-!
# Recording settlements

An accepted call's settlements are recorded one event each.  The projector takes every one of them,
and the document then reads as the facts with the settlements added.
-/

namespace Baley

open Json

/-- The event that records a settlement, in an envelope of its own. -/
def Settlement.event (settlement : Settlement) (set : String) (round : Nat)
    (owner recordedAt : String) (envelope : Event) : Event :=
  { envelope with
    typeName := settlement.typeName, typeVersion := questionEventVersion
    payload := settlement.payload set round owner recordedAt }

/-- A settlement's event is neither an opening nor an abandonment, and the view takes it. -/
theorem Settlement.typeName_kinds (settlement : Settlement) :
    settlement.typeName ≠ questionsOpened ∧ settlement.typeName ≠ questionsAbandoned ∧
      questionsProjector.handles.contains settlement.typeName = true := by
  have kinds : settlement.typeName = questionAnswered ∨ settlement.typeName = questionDeferred := by
    cases settlement
    · exact Or.inl rfl
    · exact Or.inr rfl
  rcases kinds with kind_eq | kind_eq
  · rw [kind_eq]
    decide
  · rw [kind_eq]
    decide

namespace SetFacts

variable {facts : SetFacts}

theorem isSettled_eq_false {question : String} :
    facts.isSettled question = false ↔
      (∀ answer ∈ facts.answers, answer.question ≠ question) ∧
        ∀ deferral ∈ facts.deferrals, deferral.question ≠ question := by
  simp [isSettled]

@[simp]
theorem questions_settle (round : Nat) (owner recordedAt : String) (settlement : Settlement) :
    (facts.settle round owner recordedAt settlement).questions = facts.questions := by
  cases settlement <;> rfl

@[simp]
theorem abandoned_settle (round : Nat) (owner recordedAt : String) (settlement : Settlement) :
    (facts.settle round owner recordedAt settlement).abandoned = facts.abandoned := by
  cases settlement <;> rfl

theorem isSettled_settle (round : Nat) (owner recordedAt : String) (settlement : Settlement)
    (question : String) :
    (facts.settle round owner recordedAt settlement).isSettled question =
      (facts.isSettled question || settlement.question = question) := by
  rw [Bool.eq_iff_iff]
  cases settlement with
  | answered =>
      simp only [settle, isSettled, Settlement.question, Bool.or_eq_true, List.any_append,
        List.any_cons, List.any_nil, Bool.or_false]
      tauto
  | deferred =>
      simp only [settle, isSettled, Settlement.question, Bool.or_eq_true, List.any_append,
        List.any_cons, List.any_nil, Bool.or_false]
      tauto

end SetFacts

namespace QuestionsProjector

variable {documents : Table DocKey Value} (set : String) {document : Value} {facts : SetFacts}

/-- What the projector checks of the questions a document names. -/
theorem names_of_read (read_eq : SetFacts.read document = .ok facts) (question : String) :
    names document "questions" "id" question =
        facts.questions.any (fun asked => asked.id = question) ∧
      names document "answers" "question" question =
        facts.answers.any (fun answer => answer.question = question) ∧
      names document "deferrals" "question" question =
        facts.deferrals.any (fun deferral => deferral.question = question) := by
  obtain ⟨-, ⟨questions, questions_eq, questions_read⟩, ⟨answers, answers_eq, answers_read⟩,
    ⟨deferrals, deferrals_eq, deferrals_read⟩, -⟩ := SetFacts.read_eq_ok.mp read_eq
  refine ⟨?_, ?_, ?_⟩
  · rw [names, list, questions_eq]
    exact any_names_of_mapM questions_read fun _ _ => Question.textOf_of_read
  · rw [names, list, answers_eq]
    exact any_names_of_mapM answers_read fun _ _ => QuestionAnswer.textOf_of_read
  · rw [names, list, deferrals_eq]
    exact any_names_of_mapM deferrals_read fun _ _ => Deferral.textOf_of_read

/-- The projector takes a settlement of an open question of the set. -/
theorem settle_event (read_eq : SetFacts.read document = .ok facts) {settlement : Settlement}
    (asked : ∃ question ∈ facts.questions, question.id = settlement.question)
    (unsettled : facts.isSettled settlement.question = false) {round : Nat}
    (fits : round ≤ maxU32) (owner recordedAt : String) (envelope : Event) :
    ∃ after, settle (settlement.event set round owner recordedAt envelope) set document = .ok after ∧
      SetFacts.read after = .ok (facts.settle round owner recordedAt settlement) := by
  obtain ⟨questions_names, answers_names, deferrals_names⟩ :=
    names_of_read read_eq settlement.question
  obtain ⟨unanswered, undeferred⟩ := SetFacts.isSettled_eq_false.mp unsettled
  have asked_names : names document "questions" "id" settlement.question = true := by
    rw [questions_names]
    simpa using asked
  have free_names : names document "answers" "question" settlement.question = false ∧
      names document "deferrals" "question" settlement.question = false := by
    rw [answers_names, deferrals_names]
    simpa using ⟨unanswered, undeferred⟩
  have fits64 : round < 2 ^ 64 := lt_of_le_of_lt fits (by decide)
  cases settlement with
  | answered question answer accepted =>
      have entry_read : QuestionAnswer.read (.ofEntries
          [("question", .string question), ("answer", .string answer), ("accepted", .bool accepted),
            ("round", .ofNat round), ("owner", .string owner), ("at", .string recordedAt),
            ("seq", .ofNat envelope.seq)]) =
          some { question, answer, accepted, round, owner, recordedAt } := by
        simp [QuestionAnswer.read, textOf, Members.lookup_ofEntries, Members.lookup_cons, asBool,
          asU32_ofNat fits]
      refine ⟨_, ?_, SetFacts.read_set_answers read_eq entry_read⟩
      simp only [settle, Except.bind_eq_ok, Except.require_eq_ok]
      refine ⟨question, ?_, (), asked_names, (), free_names, ?_⟩
      · simp [text, textOf, Settlement.event, Settlement.payload, Members.lookup_ofEntries,
          Members.lookup_cons, Except.ofOption]
      · simp [Settlement.event, Settlement.typeName, Settlement.payload, answerEntry, text, number,
          textOf, asBool, Members.lookup_ofEntries, Members.lookup_cons, Except.ofOption, bind,
          Except.bind, Value.asU64_ofNat fits64]
  | deferred question reason =>
      have entry_read : Deferral.read (.ofEntries
          [("question", .string question), ("reason", .string reason), ("round", .ofNat round),
            ("owner", .string owner), ("at", .string recordedAt), ("seq", .ofNat envelope.seq)]) =
          some { question, reason, round, owner, recordedAt } := by
        simp [Deferral.read, textOf, Members.lookup_ofEntries, Members.lookup_cons,
          asU32_ofNat fits]
      refine ⟨_, ?_, SetFacts.read_set_deferrals read_eq entry_read⟩
      simp only [settle, Except.bind_eq_ok, Except.require_eq_ok]
      refine ⟨question, ?_, (), asked_names, (), free_names, ?_⟩
      · simp [text, textOf, Settlement.event, Settlement.payload, Members.lookup_ofEntries,
          Members.lookup_cons, Except.ofOption]
      · have other_type : questionDeferred ≠ questionAnswered := by decide
        simp [Settlement.event, Settlement.typeName, Settlement.payload, deferralEntry, text,
          number, textOf, other_type, Members.lookup_ofEntries, Members.lookup_cons,
          Except.ofOption, bind, Except.bind, Value.asU64_ofNat fits64]

/-- An event that names its set. -/
structure Names (set : String) (event : Event) : Prop where
  handled : questionsProjector.handles.contains event.typeName = true
  object : event.payload.asObject.isSome = true
  set_eq : textOf event.payload "set" = some set

namespace Names

variable {set} {event : Event}

theorem project_eq (names : Names set event) (documents : Table DocKey Value) :
    questionsProjector.project documents event =
      ((apply event ((documents.lookup (questionsKey set)).toList.map fun body =>
          (questionsKey set, body))).map fun changes =>
        changes.foldl Projector.change documents) := by
  have given_eq : ([questionsKey set].filterMap fun key =>
      (documents.lookup key).map fun body => (key, body)) =
        (documents.lookup (questionsKey set)).toList.map fun body => (questionsKey set, body) := by
    cases found : documents.lookup (questionsKey set) with
    | none => simp [found]
    | some body => simp [found]
  have keys_eq : questionsProjector.keys event = [questionsKey set] := by
    simp [questionsProjector, names.set_eq]
  unfold Projector.project
  rw [if_pos names.handled, keys_eq, given_eq]
  simp only [questionsProjector]
  cases apply event ((documents.lookup (questionsKey set)).toList.map fun body =>
    (questionsKey set, body)) <;> rfl

/-- What a record on a set that is held does to it. -/
theorem project_record (names : Names set event) (not_opened : event.typeName ≠ questionsOpened)
    {members : Members} (found : documents.lookup (questionsKey set) = some (.object members)) :
    questionsProjector.project documents event =
      ((if event.typeName = questionsAbandoned then abandon event set (.object members)
        else settle event set (.object members)).map fun after =>
          documents.insert (questionsKey set) after) := by
  obtain ⟨payload, object⟩ := Option.isSome_iff_exists.mp names.object
  have set_eq : text event "set" = .ok set := by
    rw [text, Except.ofOption_eq_ok]
    exact names.set_eq
  have held_eq : held [(questionsKey set, .object members)] (questionsKey set) =
      some (.object members) := by
    simp [held]
  rw [names.project_eq, found]
  simp only [apply, object, set_eq, if_neg not_opened, Option.toList_some, List.map_cons,
    List.map_nil, Except.ofOption, bind, Except.bind, held_eq]
  split_ifs
  · cases abandon event set (.object members) <;> rfl
  · cases settle event set (.object members) <;> rfl

/-- What an opening does where no set of its id is held. -/
theorem project_opening (names : Names set event) (opened : event.typeName = questionsOpened)
    (fresh : documents.lookup (questionsKey set) = none) :
    questionsProjector.project documents event =
      ((«open» event set).map fun after => documents.insert (questionsKey set) after) := by
  obtain ⟨payload, object⟩ := Option.isSome_iff_exists.mp names.object
  have set_eq : text event "set" = .ok set := by
    rw [text, Except.ofOption_eq_ok]
    exact names.set_eq
  rw [names.project_eq, fresh]
  simp only [apply, object, set_eq, if_pos opened, Option.toList_none, List.map_nil,
    Except.ofOption, bind, Except.bind]
  cases «open» event set <;> rfl

end Names

theorem names_settlement (settlement : Settlement) (round : Nat) (owner recordedAt : String)
    (envelope : Event) : Names set (settlement.event set round owner recordedAt envelope) where
  handled := settlement.typeName_kinds.2.2
  object := by
    cases settlement <;> rfl
  set_eq := by
    cases settlement <;>
      simp [Settlement.event, Settlement.payload, textOf, Members.lookup_ofEntries,
        Members.lookup_cons]

/-- Folding a settlement's event into the view. -/
theorem project_settlement (found : documents.lookup (questionsKey set) = some document)
    (read_eq : SetFacts.read document = .ok facts) {settlement : Settlement}
    (asked : ∃ question ∈ facts.questions, question.id = settlement.question)
    (unsettled : facts.isSettled settlement.question = false) {round : Nat}
    (fits : round ≤ maxU32) (owner recordedAt : String) (envelope : Event) :
    ∃ after, questionsProjector.project documents
        (settlement.event set round owner recordedAt envelope) =
          .ok (documents.insert (questionsKey set) after) ∧
      SetFacts.read after = .ok (facts.settle round owner recordedAt settlement) := by
  obtain ⟨not_opened, not_abandoned, -⟩ := settlement.typeName_kinds
  obtain ⟨⟨members, rfl⟩, -⟩ := SetFacts.read_eq_ok.mp read_eq
  obtain ⟨after, settle_eq, after_read⟩ :=
    settle_event set read_eq asked unsettled fits owner recordedAt envelope
  refine ⟨after, ?_, after_read⟩
  have event_abandoned : (settlement.event set round owner recordedAt envelope).typeName ≠
      questionsAbandoned := not_abandoned
  rw [(names_settlement set settlement round owner recordedAt envelope).project_record not_opened
    found, if_neg event_abandoned, settle_eq]
  rfl

/-- The event of an abandonment, in an envelope of its own. -/
def abandonment (set : String) (cause : Cause) (recordedAt : String) (envelope : Event) : Event :=
  { envelope with
    typeName := questionsAbandoned, typeVersion := questionEventVersion
    payload := abandonedPayload set cause recordedAt }

/-- Folding an abandonment into the view: it is refused where one is recorded. -/
theorem project_abandonment {after : Table DocKey Value}
    (found : documents.lookup (questionsKey set) = some document)
    (read_eq : SetFacts.read document = .ok facts) {cause : Cause} {recordedAt : String}
    {envelope : Event} (projected : questionsProjector.project documents
      (abandonment set cause recordedAt envelope) = .ok after) :
    facts.abandoned = none ∧ ∃ body, after = documents.insert (questionsKey set) body ∧
      SetFacts.read body = .ok { facts with abandoned := some { cause, recordedAt } } := by
  have names : Names set (abandonment set cause recordedAt envelope) :=
    ⟨(by decide : questionsProjector.handles.contains questionsAbandoned = true), rfl, by
      simp [abandonment, abandonedPayload, textOf, Members.lookup_ofEntries, Members.lookup_cons]⟩
  obtain ⟨⟨members, rfl⟩, -, -, -, abandoned_read⟩ := SetFacts.read_eq_ok.mp read_eq
  have not_opened : questionsAbandoned ≠ questionsOpened := by decide
  rw [names.project_record not_opened found, if_pos (by rfl)] at projected
  obtain ⟨body, abandon_eq, rfl⟩ := Except.map_eq_ok.mp projected
  have cause_eq : text (abandonment set cause recordedAt envelope) "cause" = .ok cause.asStr := by
    simp [text, textOf, abandonment, abandonedPayload, Members.lookup_ofEntries,
      Members.lookup_cons]
  have recordedAt_eq : text (abandonment set cause recordedAt envelope) "at" = .ok recordedAt := by
    simp [text, textOf, abandonment, abandonedPayload, Members.lookup_ofEntries,
      Members.lookup_cons]
  simp only [abandon, cause_eq, recordedAt_eq, Except.bind_eq_ok, Except.require_eq_ok,
    Except.ok.injEq] at abandon_eq
  obtain ⟨-, null, _, rfl, _, rfl, rfl⟩ := abandon_eq
  refine ⟨?_, _, rfl, SetFacts.read_set_abandoned cause recordedAt _ read_eq⟩
  unfold isNull at null
  split at null
  · next null_eq =>
      rw [SetFacts.readAbandoned, null_eq] at abandoned_read
      exact (Except.ok.inj abandoned_read).symm
  · cases null

/-- The event of an opening, in an envelope of its own. -/
def opening (set : String) (subject : Subject) (questions : QuestionSet) (recordedAt : String)
    (envelope : Event) : Event :=
  { envelope with
    typeName := questionsOpened, typeVersion := questionEventVersion
    payload := openedPayload set subject questions recordedAt }

/-- Folding an opening into the view, where no set of its id is held. -/
theorem project_opening {after : Table DocKey Value}
    (fresh : documents.lookup (questionsKey set) = none) {subject : Subject}
    {questions : QuestionSet} {recordedAt : String} {envelope : Event}
    (projected : questionsProjector.project documents
      (opening set subject questions recordedAt envelope) = .ok after) :
    ∃ body, after = documents.insert (questionsKey set) body ∧
      SetFacts.read body = .ok
        { questions := questions.questions, answers := [], deferrals := [], abandoned := none } := by
  have names : Names set (opening set subject questions recordedAt envelope) := by
    refine ⟨(by decide : questionsProjector.handles.contains questionsOpened = true), ?_, ?_⟩
    · cases subject <;> rfl
    · cases subject <;>
        simp [opening, openedPayload, textOf, Members.lookup_ofEntries, Members.lookup_cons]
  have asked_eq : (openedPayload set subject questions recordedAt).get? "questions" =
      some (.array (questions.questions.map Question.toValue)) := by
    cases subject <;> simp [openedPayload, Members.lookup_ofEntries, Members.lookup_cons]
  have asked_read : (questions.questions.map Question.toValue).mapM Question.read =
      some questions.questions := by
    induction questions.questions with
    | nil => rfl
    | cons question rest ih => simp [ih]
  rw [names.project_opening rfl fresh] at projected
  obtain ⟨body, open_eq, rfl⟩ := Except.map_eq_ok.mp projected
  simp only [«open», Except.bind_eq_ok, Except.ofOption_eq_ok, Option.bind_eq_some_iff,
    asArray_eq_some, Except.ok.injEq] at open_eq
  obtain ⟨subject_value, -, asked, ⟨_, found_eq, rfl⟩, rfl⟩ := open_eq
  have asked_same : some (Value.array asked) =
      some (.array (questions.questions.map Question.toValue)) := found_eq.symm.trans asked_eq
  obtain rfl : asked = questions.questions.map Question.toValue := by
    simpa using asked_same
  refine ⟨_, rfl, SetFacts.read_eq_ok.mpr ⟨⟨_, rfl⟩, ⟨_, ?_, asked_read⟩, ⟨[], ?_, rfl⟩,
    ⟨[], ?_, rfl⟩, ?_⟩⟩
  · simp [Members.lookup_ofEntries, Members.lookup_cons]
  · simp [Members.lookup_ofEntries, Members.lookup_cons]
  · simp [Members.lookup_ofEntries, Members.lookup_cons]
  · simp [SetFacts.readAbandoned, Members.lookup_ofEntries, Members.lookup_cons]

end QuestionsProjector

end Baley
