import Baley.Members
import Baley.Questions.Set

/-!
# Rounds

A set's round is worked out from its questions in submitted order and the answers, deferrals and
abandonment recorded on it.  A question is open until it is answered or deferred, and a deferred
dependency never counts as answered.
-/

namespace Baley

open Json

/-- One recorded answer. -/
structure QuestionAnswer where
  question : String
  /-- The owner's answer, the recommended text when the owner took it. -/
  answer : String
  accepted : Bool
  round : Nat
  owner : String
  recordedAt : String
  deriving DecidableEq

/-- One recorded deferral. -/
structure Deferral where
  question : String
  reason : String
  round : Nat
  owner : String
  recordedAt : String
  deriving DecidableEq

/-- Why a set was abandoned. -/
inductive Cause where
  | superseded
  | draftReplaced
  deriving DecidableEq

namespace Cause

def asStr : Cause → String
  | .superseded => "superseded"
  | .draftReplaced => "draft-replaced"

def parse (text : String) : Option Cause :=
  if text = "superseded" then some .superseded
  else if text = "draft-replaced" then some .draftReplaced
  else none

@[simp]
theorem parse_asStr (cause : Cause) : parse cause.asStr = some cause := by
  cases cause <;> rfl

end Cause

/-- A recorded abandonment. -/
structure Abandonment where
  cause : Cause
  recordedAt : String
  deriving DecidableEq

/-- Everything recorded about one set. -/
structure SetFacts where
  questions : List Question
  answers : List QuestionAnswer
  deferrals : List Deferral
  abandoned : Option Abandonment
  deriving DecidableEq

/-- A set's state, derived when read. -/
inductive SetState where
  | «open»
  | closed
  | abandoned
  deriving DecidableEq

/-- Where a dependency a question waits on stands. -/
inductive Pending where
  | «open»
  | deferred
  deriving DecidableEq

/-- A question of the current round. -/
structure Asked where
  id : String
  question : String
  recommended : String
  deriving DecidableEq

/-- An open question that is not in the current round. -/
structure Waiting where
  id : String
  question : String
  /-- Its direct dependencies that are not answered. -/
  on : List (String × Pending)
  deriving DecidableEq

/-- A set's round. -/
structure Round where
  number : Nat
  state : SetState
  current : List Asked
  waiting : List Waiting
  answered : List QuestionAnswer
  deferred : List Deferral
  abandoned : Option Abandonment
  deriving DecidableEq

namespace SetFacts

variable (facts : SetFacts)

/-- The answer to a question; of several the last one given. -/
def answerOf (id : String) : Option QuestionAnswer :=
  facts.answers.reverse.find? fun answer => answer.question = id

def deferralOf (id : String) : Option Deferral :=
  facts.deferrals.reverse.find? fun deferral => deferral.question = id

/-- Whether a question is neither answered nor deferred. -/
def isOpen (question : Question) : Bool :=
  (facts.answerOf question.id).isNone && (facts.deferralOf question.id).isNone

/-- The direct dependencies of a question that are not answered. -/
def waitsOn (question : Question) : List (String × Pending) :=
  (question.dependsOn.filter fun on => (facts.answerOf on).isNone).map fun on =>
    (on, if (facts.deferralOf on).isSome then .deferred else .open)

/-- Every round recorded. -/
def rounds : List Nat :=
  facts.answers.map QuestionAnswer.round ++ facts.deferrals.map Deferral.round

/-- The highest round recorded, 0 when none is. -/
def highest : Nat :=
  facts.rounds.foldr max 0

def askedNow : List Asked :=
  (facts.questions.filter fun question =>
    facts.isOpen question && (facts.waitsOn question).isEmpty).map fun question =>
      { id := question.id, question := question.question, recommended := question.recommended }

def waitingNow : List Waiting :=
  (facts.questions.filter fun question =>
    facts.isOpen question && !(facts.waitsOn question).isEmpty).map fun question =>
      { id := question.id, question := question.question, on := facts.waitsOn question }

end SetFacts

/-- Work out the round of a set.  Its number is one past the highest recorded, and stops at the
largest 32-bit number. -/
def roundOf (facts : SetFacts) : Round where
  number := min (facts.highest + 1) maxU32
  state :=
    if facts.abandoned.isSome then .abandoned
    else if facts.askedNow = [] ∧ facts.waitingNow = [] then .closed
    else .open
  current := facts.askedNow
  waiting := facts.waitingNow
  answered := facts.questions.filterMap fun question => facts.answerOf question.id
  deferred := facts.questions.filterMap fun question =>
    match facts.answerOf question.id with
    | some _ => none
    | none => facts.deferralOf question.id
  abandoned := facts.abandoned

/-! ## Reading a document -/

def Question.read (entry : Value) : Option Question := do
  let dependsOn ← asTexts (← entry.get? "depends_on")
  let id ← textOf entry "id"
  let question ← textOf entry "question"
  let recommended ← textOf entry "recommended"
  some { id, question, recommended, dependsOn }

def QuestionAnswer.read (entry : Value) : Option QuestionAnswer := do
  let question ← textOf entry "question"
  let answer ← textOf entry "answer"
  let accepted ← asBool (← entry.get? "accepted")
  let round ← asU32 (← entry.get? "round")
  let owner ← textOf entry "owner"
  let recordedAt ← textOf entry "at"
  some { question, answer, accepted, round, owner, recordedAt }

def Deferral.read (entry : Value) : Option Deferral := do
  let question ← textOf entry "question"
  let reason ← textOf entry "reason"
  let round ← asU32 (← entry.get? "round")
  let owner ← textOf entry "owner"
  let recordedAt ← textOf entry "at"
  some { question, reason, round, owner, recordedAt }

namespace SetFacts

/-- Why a document cannot be read. -/
def unreadable (what : String) : String :=
  "the set's " ++ what ++ " cannot be read"

/-- The entries of a list member, each read. -/
def readEntries {α : Type} (document : Value) (name : String) (read : Value → Option α) :
    Except String (List α) := do
  let entries ← .ofOption (unreadable name) ((document.get? name).bind Value.asArray)
  entries.mapM fun entry => .ofOption (unreadable name) (read entry)

def readAbandoned (document : Value) : Except String (Option Abandonment) :=
  match document.get? "abandoned" with
  | some .null => .ok none
  | some (.object entry) => do
      let abandoned ← .ofOption (unreadable "abandonment") do
        let cause ← Cause.parse ((textOf (.object entry) "cause").getD "")
        let recordedAt ← textOf (.object entry) "at"
        some { cause, recordedAt }
      .ok (some abandoned)
  | _ => .error (unreadable "abandonment")

/-- Read a document of the view into the facts its round is worked out from. -/
def read (document : Value) : Except String SetFacts := do
  let _ ← .ofOption (unreadable "document") document.asObject
  let questions ← readEntries document "questions" Question.read
  let answers ← readEntries document "answers" QuestionAnswer.read
  let deferrals ← readEntries document "deferrals" Deferral.read
  let abandoned ← readAbandoned document
  .ok { questions, answers, deferrals, abandoned }

end SetFacts

end Baley
