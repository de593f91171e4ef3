import Baley.Questions.Round

/-!
# One answer call

A call is judged for its grammar first, then against the facts recorded before it: the set, then
each item in the call's order.  The whole call is judged against the round as it stood before the
call, so one call is one round.
-/

namespace Baley

open Json

/-- What one item does with its question; an own answer or a reason it did not give is empty. -/
inductive Act where
  | take
  | answer (text : String)
  | defer (reason : String)
  deriving DecidableEq

/-- One item of a call. -/
structure Item where
  question : String
  act : Act
  deriving DecidableEq

/-- A call whose grammar was accepted: at least one item, and no question named twice. -/
structure AnswerCall where
  items : List Item
  nonempty : items ≠ []
  distinct : (items.map Item.question).Nodup

/-- A refusal of a call's grammar, of the item at a position or of the call itself. -/
structure CallFault where
  position : Option Nat
  deriving DecidableEq

/-- Why a call is refused against its set. -/
inductive AnswerRefusal where
  | setAbandoned
  | noSuchQuestion (question : String)
  | questionClosed (question : String)
  | notInRound (question : String)
  | answerBlank (question : String)
  | deferralReason (question : String)
  deriving DecidableEq

/-- How one question is settled by an accepted call. -/
inductive Settlement where
  | answered (question answer : String) (accepted : Bool)
  | deferred (question reason : String)
  deriving DecidableEq

namespace Settlement

def question : Settlement → String
  | .answered question _ _ => question
  | .deferred question _ => question

end Settlement

/-- A call accepted against its set: what it settles and in which round. -/
structure Settled where
  facts : SetFacts
  round : Nat
  settlements : List Settlement

/-! ## The grammar of a call -/

namespace Item

/-- A text member: absent, or a text within the bound. -/
def text (object : Value) (name : String) : Option (Option String) :=
  match object.get? name with
  | none => some none
  | some (.string text) =>
      if text.utf8ByteSize ≤ inlineTextLimit then some (some text) else none
  | some _ => none

/-- One item read in the grammar. -/
def read (entry : Value) : Option Item := do
  let members ← entry.asObject
  let question ← ← text entry "question"
  let act ← ← text entry "act"
  let (act, member) ←
    if act = "take" then some (Act.take, none)
    else if act = "answer" then do
      let answer ← text entry "answer"
      some (Act.answer (answer.getD ""), some "answer")
    else if act = "defer" then do
      let reason ← text entry "reason"
      some (Act.defer (reason.getD ""), some "reason")
    else none
  if members.all fun named => named.1 = "question" || named.1 = "act" || some named.1 = member then
    some { question, act }
  else none

/-- The items of a call, each naming a question that no earlier one named. -/
def readEach : List String → List (Value × Nat) → Except CallFault (List Item)
  | _, [] => .ok []
  | seen, (entry, position) :: rest => do
      let item ← .ofOption ⟨some position⟩ (read entry)
      .require (item.question ∉ seen) ⟨some position⟩
      let items ← readEach (item.question :: seen) rest
      .ok (item :: items)

theorem of_readEach {seen : List String} {entries : List (Value × Nat)} {items : List Item}
    (accepted : readEach seen entries = .ok items) :
    items.length = entries.length ∧ (items.map Item.question).Nodup ∧
      ∀ item ∈ items, item.question ∉ seen := by
  induction entries generalizing seen items with
  | nil =>
      obtain rfl := Except.ok.inj accepted
      simp
  | cons entry rest ih =>
      obtain ⟨entry, position⟩ := entry
      simp only [readEach, Except.bind_eq_ok, Except.ofOption_eq_ok, Except.require_eq_ok,
        Except.ok.injEq] at accepted
      obtain ⟨item, -, _, fresh, others, rest_accepted, rfl⟩ := accepted
      obtain ⟨length_eq, nodup, unseen⟩ := ih rest_accepted
      refine ⟨by simp [length_eq], ?_, ?_⟩
      · rw [List.map_cons, List.nodup_cons]
        refine ⟨?_, nodup⟩
        intro repeated
        obtain ⟨other, other_mem, same⟩ := List.mem_map.mp repeated
        exact unseen other other_mem (same ▸ List.mem_cons_self)
      · intro other other_mem
        rcases List.mem_cons.mp other_mem with rfl | other_mem
        · exact fresh
        · exact fun seen_mem => unseen other other_mem (List.mem_cons_of_mem _ seen_mem)

end Item

/-- Judge a call's grammar over its items as plain JSON. -/
def judgeCall (items : Value) : Except CallFault AnswerCall :=
  match items with
  | .array entries =>
      if empty : entries = [] then .error ⟨none⟩
      else
        match accepted : Item.readEach [] entries.zipIdx with
        | .error fault => .error fault
        | .ok items =>
            .ok
              { items
                nonempty := by
                  have length_eq := (Item.of_readEach accepted).1
                  rintro rfl
                  exact empty (List.length_eq_zero_iff.mp (by simpa using length_eq.symm))
                distinct := (Item.of_readEach accepted).2.1 }
  | _ => .error ⟨none⟩

/-! ## The judgement against the set -/

namespace SetFacts

variable (facts : SetFacts)

/-- Whether a question is answered or deferred. -/
def isSettled (question : String) : Bool :=
  (facts.answers.any fun answer => answer.question = question) ||
    facts.deferrals.any fun deferral => deferral.question = question

/-- Judge one item against the facts recorded before the call. -/
def judgeItem (item : Item) : Except AnswerRefusal Settlement := do
  let question ← .ofOption (.noSuchQuestion item.question)
    (facts.questions.find? fun question => question.id = item.question)
  .require (facts.isSettled item.question = false) (.questionClosed item.question)
  let inRound := (roundOf facts).current.any fun asked => asked.id = item.question
  match item.act with
  | .take => do
      .require (inRound = true) (.notInRound item.question)
      .ok (.answered item.question question.recommended true)
  | .answer answer => do
      .require (inRound = true) (.notInRound item.question)
      .require (isBlank answer = false) (.answerBlank item.question)
      .ok (.answered item.question answer false)
  | .defer reason => do
      .require (isBlank reason = false) (.deferralReason item.question)
      .ok (.deferred item.question reason)

end SetFacts

/-- Judge an accepted call against the facts of its set as recorded before the call. -/
def judgeAnswers (facts : SetFacts) (call : AnswerCall) : Except AnswerRefusal Settled := do
  .require (facts.abandoned.isSome = false) .setAbandoned
  let settlements ← call.items.mapM facts.judgeItem
  .ok { facts, round := (roundOf facts).number, settlements }

/-- The facts once a settlement of a round is recorded. -/
def SetFacts.settle (facts : SetFacts) (round : Nat) (owner recordedAt : String) :
    Settlement → SetFacts
  | .answered question answer accepted =>
      { facts with
        answers := facts.answers ++ [{ question, answer, accepted, round, owner, recordedAt }] }
  | .deferred question reason =>
      { facts with
        deferrals := facts.deferrals ++ [{ question, reason, round, owner, recordedAt }] }

/-- The set's round once the settlements are recorded. -/
def Settled.roundAfter (settled : Settled) (owner recordedAt : String) : Round :=
  roundOf (settled.settlements.foldl (fun facts => facts.settle settled.round owner recordedAt)
    settled.facts)

end Baley
