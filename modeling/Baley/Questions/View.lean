import Baley.Questions.Answer
import Baley.View

/-!
# The `questions` view

One document per question set, holding the facts recorded about it.  The projector refuses a record
that would replace a fact: an opening of a set already held, and a settlement of a set not held, of
a question the set lacks or of one already settled.
-/

namespace Baley

open Json

def questionsView : String := "questions"

def questionsOpened : String := "questions.opened"
def questionAnswered : String := "question.answered"
def questionDeferred : String := "question.deferred"
def questionsAbandoned : String := "questions.abandoned"

def questionEventVersion : Nat := 1

/-! ## Payloads -/

/-- Whose decisions a set holds. -/
inductive Subject where
  | story (story : Nat) (workOrder : String)
  | plan (phase : Nat) (planDigest : Hash)

/-- The stream a set and every record on it go on. -/
def Subject.stream : Subject → StreamName
  | .story .. => "roadmap"
  | .plan phase _ => "phase/" ++ phase.repr

def Question.toValue (question : Question) : Value :=
  .ofEntries
    [("id", .string question.id), ("question", .string question.question),
      ("recommended", .string question.recommended), ("depends_on", texts question.dependsOn)]

def openedPayload (set : String) (subject : Subject) (questions : QuestionSet)
    (recordedAt : String) : Value :=
  let questions := Value.array (questions.questions.map Question.toValue)
  match subject with
  | .story story workOrder =>
      .ofEntries
        [("set", .string set), ("subject", .string "story"), ("story", .ofNat story),
          ("work_order", .string workOrder), ("questions", questions), ("at", .string recordedAt)]
  | .plan phase planDigest =>
      .ofEntries
        [("set", .string set), ("subject", .string "plan"), ("phase", .ofNat phase),
          ("plan_digest", .string planDigest.toHex), ("questions", questions),
          ("at", .string recordedAt)]

def Settlement.typeName : Settlement → String
  | .answered .. => questionAnswered
  | .deferred .. => questionDeferred

/-- The payload of a settlement's event. -/
def Settlement.payload (settlement : Settlement) (set : String) (round : Nat)
    (owner recordedAt : String) : Value :=
  match settlement with
  | .answered question answer accepted =>
      .ofEntries
        [("set", .string set), ("question", .string question), ("round", .ofNat round),
          ("answer", .string answer), ("accepted", .bool accepted), ("owner", .string owner),
          ("at", .string recordedAt)]
  | .deferred question reason =>
      .ofEntries
        [("set", .string set), ("question", .string question), ("round", .ofNat round),
          ("reason", .string reason), ("owner", .string owner), ("at", .string recordedAt)]

def abandonedPayload (set : String) (cause : Cause) (recordedAt : String) : Value :=
  .ofEntries
    [("set", .string set), ("cause", .string cause.asStr), ("at", .string recordedAt)]

/-! ## The projector -/

def questionsSpec : ViewSpec where
  name := questionsView
  version := 1
  key := [⟨"set", .text⟩]
  indexes := []
  pageBound := 100

def questionsKey (set : String) : DocKey :=
  [.text set]

namespace QuestionsProjector

def refuse (event : Event) (message : String) : String :=
  event.typeName ++ " at seq " ++ event.seq.repr ++ ": " ++ message

/-- A text member of the event's payload. -/
def text (event : Event) (name : String) : Except String String :=
  .ofOption (refuse event (name ++ " is not text")) (textOf event.payload name)

def number (event : Event) (name : String) : Except String Nat :=
  .ofOption (refuse event (name ++ " is not a number"))
    ((event.payload.get? name).bind Value.asU64)

/-- The list member of a document, or none when it is not a list. -/
def list (document : Value) (name : String) : List Value :=
  ((document.get? name).bind Value.asArray).getD []

/-- The document's subject from an opening. -/
def subject (event : Event) : Except String Value := do
  let kind ← text event "subject"
  if kind = "story" then do
    let story ← number event "story"
    let workOrder ← text event "work_order"
    .ok (.ofEntries
      [("kind", .string "story"), ("story", .ofNat story), ("work_order", .string workOrder)])
  else if kind = "plan" then do
    let phase ← number event "phase"
    let planDigest ← text event "plan_digest"
    .ok (.ofEntries
      [("kind", .string "plan"), ("phase", .ofNat phase), ("plan_digest", .string planDigest)])
  else .error (refuse event ("subject " ++ kind ++ " is not story or plan"))

/-- The document of a set that was just opened. -/
def «open» (event : Event) (set : String) : Except String Value := do
  let subject ← subject event
  let questions ← .ofOption (refuse event "questions is not a list")
    ((event.payload.get? "questions").bind Value.asArray)
  .ok (.ofEntries
    [("set", .string set), ("subject", subject), ("stream", .string event.stream),
      ("seq", .ofNat event.seq), ("recorded_at", .string event.recordedAt),
      ("questions", .array questions), ("answers", .array []), ("deferrals", .array []),
      ("abandoned", .null)])

/-- Whether a member of the document is null. -/
def isNull (document : Value) (name : String) : Bool :=
  match document.get? name with
  | some .null => true
  | _ => false

def abandon (event : Event) (set : String) (document : Value) : Except String Value := do
  .require (isNull document "abandoned" = true)
    (refuse event ("set " ++ set ++ " is already abandoned"))
  let cause ← text event "cause"
  let recordedAt ← text event "at"
  .ok (document.set "abandoned" (.ofEntries
    [("cause", .string cause), ("at", .string recordedAt), ("seq", .ofNat event.seq)]))

/-- Whether some entry of the list member names the question. -/
def names (document : Value) (name field question : String) : Bool :=
  (list document name).any fun entry => textOf entry field = some question

/-- The entry an answer adds. -/
def answerEntry (event : Event) (question : String) : Except String Value := do
  let accepted ← .ofOption (refuse event "accepted is not a bool")
    ((event.payload.get? "accepted").bind asBool)
  let answer ← text event "answer"
  let round ← number event "round"
  let owner ← text event "owner"
  let recordedAt ← text event "at"
  .ok (.ofEntries
    [("question", .string question), ("answer", .string answer), ("accepted", .bool accepted),
      ("round", .ofNat round), ("owner", .string owner), ("at", .string recordedAt),
      ("seq", .ofNat event.seq)])

/-- The entry a deferral adds. -/
def deferralEntry (event : Event) (question : String) : Except String Value := do
  let reason ← text event "reason"
  let round ← number event "round"
  let owner ← text event "owner"
  let recordedAt ← text event "at"
  .ok (.ofEntries
    [("question", .string question), ("reason", .string reason), ("round", .ofNat round),
      ("owner", .string owner), ("at", .string recordedAt), ("seq", .ofNat event.seq)])

def settle (event : Event) (set : String) (document : Value) : Except String Value := do
  let question ← text event "question"
  .require (names document "questions" "id" question = true)
    (refuse event ("set " ++ set ++ " has no question " ++ question))
  .require (names document "answers" "question" question = false ∧
      names document "deferrals" "question" question = false)
    (refuse event ("question " ++ question ++ " is already settled"))
  if event.typeName = questionAnswered then do
    let entry ← answerEntry event question
    .ok (document.set "answers" (.array (list document "answers" ++ [entry])))
  else do
    let entry ← deferralEntry event question
    .ok (document.set "deferrals" (.array (list document "deferrals" ++ [entry])))

/-- The document held at a key, when it is an object. -/
def held (documents : List (DocKey × Value)) (key : DocKey) : Option Value := do
  let (_, document) ← documents.find? fun found => found.1 = key
  let members ← document.asObject
  some (.object members)

def apply (event : Event) (documents : List (DocKey × Value)) : Except String (List Change) := do
  let _ ← .ofOption (refuse event "the payload is not an object") event.payload.asObject
  let set ← text event "set"
  let key := questionsKey set
  if event.typeName = questionsOpened then do
    .require ((held documents key).isSome = false)
      (refuse event ("set " ++ set ++ " is already held"))
    let document ← «open» event set
    .ok [.put key document]
  else do
    let document ← .ofOption (refuse event ("set " ++ set ++ " is not held"))
      (held documents key)
    let document ←
      if event.typeName = questionsAbandoned then abandon event set document
      else settle event set document
    .ok [.put key document]

end QuestionsProjector

/-- Keeps the `questions` view current from the four question events. -/
def questionsProjector : Projector where
  spec := questionsSpec
  handles := [questionsOpened, questionAnswered, questionDeferred, questionsAbandoned]
  keys := fun event => (textOf event.payload "set").toList.map questionsKey
  apply := QuestionsProjector.apply

end Baley
