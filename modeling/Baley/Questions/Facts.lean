import Baley.Projection
import Baley.Questions.View

/-!
# What the projector keeps of a set

A document of the `questions` view reads back as facts.  An opening reads back as the questions
submitted, and a settlement or an abandonment adds itself to the facts the document read as.
-/

namespace Baley

open Json

/-- What was read of the entries tells which question each names. -/
theorem any_names_of_mapM {α : Type} {read : Value → Option α} {entries : List Value}
    {values : List α} {field question : String} {named : α → String}
    (read_eq : entries.mapM read = some values)
    (names : ∀ entry value, read entry = some value → textOf entry field = some (named value)) :
    (entries.any fun entry => textOf entry field = some question) =
      values.any fun value => named value = question := by
  induction entries generalizing values with
  | nil =>
      obtain rfl := Option.some.inj read_eq
      rfl
  | cons entry entries ih =>
      simp only [List.mapM_cons, Option.bind_eq_bind, Option.bind_eq_some_iff, Option.pure_def,
        Option.some.injEq] at read_eq
      obtain ⟨value, value_eq, rest, rest_eq, rfl⟩ := read_eq
      rw [List.any_cons, List.any_cons, ih rest_eq, names entry value value_eq]
      simp

namespace Question

@[simp]
theorem read_toValue (question : Question) : read question.toValue = some question := by
  simp [read, toValue, textOf, Members.lookup_ofEntries, Members.lookup_cons]

theorem textOf_of_read {entry : Value} {question : Question} (read_eq : read entry = some question) :
    textOf entry "id" = some question.id := by
  simp only [read, Option.bind_eq_bind, Option.bind_eq_some_iff, Option.some.injEq] at read_eq
  obtain ⟨_, -, _, -, id, id_eq, _, -, _, -, rfl⟩ := read_eq
  exact id_eq

end Question

theorem QuestionAnswer.textOf_of_read {entry : Value} {answer : QuestionAnswer}
    (read_eq : QuestionAnswer.read entry = some answer) :
    textOf entry "question" = some answer.question := by
  simp only [QuestionAnswer.read, Option.bind_eq_bind, Option.bind_eq_some_iff,
    Option.some.injEq] at read_eq
  obtain ⟨question, question_eq, _, -, _, -, _, -, _, -, _, -, _, -, _, -, rfl⟩ := read_eq
  exact question_eq

theorem Deferral.textOf_of_read {entry : Value} {deferral : Deferral}
    (read_eq : Deferral.read entry = some deferral) :
    textOf entry "question" = some deferral.question := by
  simp only [Deferral.read, Option.bind_eq_bind, Option.bind_eq_some_iff, Option.some.injEq]
    at read_eq
  obtain ⟨question, question_eq, _, -, _, -, _, -, _, -, _, -, rfl⟩ := read_eq
  exact question_eq

namespace SetFacts

theorem readEntries_eq_ok {α : Type} {document : Value} {name : String} {read : Value → Option α}
    {values : List α} :
    readEntries document name read = .ok values ↔
      ∃ entries, document.get? name = some (.array entries) ∧ entries.mapM read = some values := by
  simp only [readEntries, Except.bind_eq_ok, Except.ofOption_eq_ok, Option.bind_eq_some_iff,
    asArray_eq_some, mapM_ofOption_eq_ok]
  constructor
  · rintro ⟨entries, ⟨_, found, rfl⟩, read_eq⟩
    exact ⟨entries, found, read_eq⟩
  · rintro ⟨entries, found, read_eq⟩
    exact ⟨entries, ⟨_, found, rfl⟩, read_eq⟩

/-- What reading a document as facts means, member by member. -/
theorem read_eq_ok {document : Value} {facts : SetFacts} :
    read document = .ok facts ↔
      (∃ members, document = .object members) ∧
      (∃ entries, document.get? "questions" = some (.array entries) ∧
        entries.mapM Question.read = some facts.questions) ∧
      (∃ entries, document.get? "answers" = some (.array entries) ∧
        entries.mapM QuestionAnswer.read = some facts.answers) ∧
      (∃ entries, document.get? "deferrals" = some (.array entries) ∧
        entries.mapM Deferral.read = some facts.deferrals) ∧
      readAbandoned document = .ok facts.abandoned := by
  simp only [read, Except.bind_eq_ok, readEntries_eq_ok, Except.ofOption_eq_ok, Except.ok.injEq]
  constructor
  · rintro ⟨members, object_eq, questions, questions_eq, answers, answers_eq, deferrals,
      deferrals_eq, abandoned, abandoned_eq, rfl⟩
    refine ⟨⟨members, ?_⟩, questions_eq, answers_eq, deferrals_eq, abandoned_eq⟩
    cases document <;> simp_all [Value.asObject]
  · rintro ⟨⟨members, rfl⟩, questions_eq, answers_eq, deferrals_eq, abandoned_eq⟩
    exact ⟨members, rfl, _, questions_eq, _, answers_eq, _, deferrals_eq, _, abandoned_eq, rfl⟩

/-- Setting another member leaves an object and its members. -/
theorem get?_set (members : Members) (key other : String) (value : Value) :
    ((Value.object members).set key value).get? other =
      if other = key then some value else Members.lookup other members := by
  rw [Value.set, Value.get?_object, Members.lookup_insert]

/-- A document read as facts reads as them with one more answer once its entry is added. -/
theorem read_set_answers {document entry : Value} {facts : SetFacts} {answer : QuestionAnswer}
    (read_eq : read document = .ok facts) (entry_eq : QuestionAnswer.read entry = some answer) :
    read (document.set "answers"
        (.array (QuestionsProjector.list document "answers" ++ [entry]))) =
      .ok { facts with answers := facts.answers ++ [answer] } := by
  obtain ⟨⟨members, rfl⟩, ⟨questions, questions_eq, questions_read⟩,
    ⟨answers, answers_eq, answers_read⟩, ⟨deferrals, deferrals_eq, deferrals_read⟩,
    abandoned_read⟩ := read_eq_ok.mp read_eq
  rw [Value.get?_object] at questions_eq answers_eq deferrals_eq
  have list_eq : QuestionsProjector.list (.object members) "answers" = answers := by
    simp [QuestionsProjector.list, answers_eq]
  rw [list_eq, read_eq_ok]
  refine ⟨⟨_, rfl⟩, ⟨questions, ?_, questions_read⟩, ⟨answers ++ [entry], ?_,
    mapM_eq_some_append answers_read entry_eq⟩, ⟨deferrals, ?_, deferrals_read⟩, ?_⟩
  · rw [get?_set, if_neg (by decide), questions_eq]
  · rw [get?_set, if_pos rfl]
  · rw [get?_set, if_neg (by decide), deferrals_eq]
  · rw [← abandoned_read, readAbandoned, readAbandoned, get?_set, if_neg (by decide),
      Value.get?_object]

theorem read_set_deferrals {document entry : Value} {facts : SetFacts} {deferral : Deferral}
    (read_eq : read document = .ok facts) (entry_eq : Deferral.read entry = some deferral) :
    read (document.set "deferrals"
        (.array (QuestionsProjector.list document "deferrals" ++ [entry]))) =
      .ok { facts with deferrals := facts.deferrals ++ [deferral] } := by
  obtain ⟨⟨members, rfl⟩, ⟨questions, questions_eq, questions_read⟩,
    ⟨answers, answers_eq, answers_read⟩, ⟨deferrals, deferrals_eq, deferrals_read⟩,
    abandoned_read⟩ := read_eq_ok.mp read_eq
  rw [Value.get?_object] at questions_eq answers_eq deferrals_eq
  have list_eq : QuestionsProjector.list (.object members) "deferrals" = deferrals := by
    simp [QuestionsProjector.list, deferrals_eq]
  rw [list_eq, read_eq_ok]
  refine ⟨⟨_, rfl⟩, ⟨questions, ?_, questions_read⟩, ⟨answers, ?_, answers_read⟩,
    ⟨deferrals ++ [entry], ?_, mapM_eq_some_append deferrals_read entry_eq⟩, ?_⟩
  · rw [get?_set, if_neg (by decide), questions_eq]
  · rw [get?_set, if_neg (by decide), answers_eq]
  · rw [get?_set, if_pos rfl]
  · rw [← abandoned_read, readAbandoned, readAbandoned, get?_set, if_neg (by decide),
      Value.get?_object]

/-- An abandonment adds itself and leaves every other fact. -/
theorem read_set_abandoned {document : Value} {facts : SetFacts} (cause : Cause)
    (recordedAt : String) (seq : Nat) (read_eq : read document = .ok facts) :
    read (document.set "abandoned" (.ofEntries
        [("cause", .string cause.asStr), ("at", .string recordedAt), ("seq", .ofNat seq)])) =
      .ok { facts with abandoned := some { cause, recordedAt } } := by
  obtain ⟨⟨members, rfl⟩, ⟨questions, questions_eq, questions_read⟩,
    ⟨answers, answers_eq, answers_read⟩, ⟨deferrals, deferrals_eq, deferrals_read⟩, -⟩ :=
      read_eq_ok.mp read_eq
  rw [Value.get?_object] at questions_eq answers_eq deferrals_eq
  rw [read_eq_ok]
  refine ⟨⟨_, rfl⟩, ⟨questions, ?_, questions_read⟩, ⟨answers, ?_, answers_read⟩,
    ⟨deferrals, ?_, deferrals_read⟩, ?_⟩
  · rw [get?_set, if_neg (by decide), questions_eq]
  · rw [get?_set, if_neg (by decide), answers_eq]
  · rw [get?_set, if_neg (by decide), deferrals_eq]
  · rw [readAbandoned, get?_set, if_pos rfl]
    simp [Value.ofEntries, textOf, Members.lookup_ofEntries, Members.lookup_cons, Except.ofOption,
      bind, Except.bind]

end SetFacts

end Baley
