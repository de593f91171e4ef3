import Baley.Claim

/-!
# `command.completed` and the `request` view

The store records `command.completed` itself at the end of every command that reaches an outcome.
The view keeps one document for each command kind and request id: the open claim or the outcome a
retry receives.
-/

namespace Baley

open Json

def commandCompletedVersion : Nat := 2
def requestView : String := "request"

/-- The digest of a command's kind and every field that carries authority; a value with no canonical
form has none. -/
def requestDigest (sha256 : List UInt8 → Hash) (value : Value) : Except CanonicalError Hash :=
  (canonicalJson value).map sha256

/-- An answer whose canonical text is longer than this is stored as a payload. -/
def inlineAnswerLimit : Nat := 4096

def OutcomeKind.name : OutcomeKind → String
  | .done => "done"
  | .refused => "refused"

namespace Answer

def toValue : Answer → Value
  | .inline value => .ofEntries [("inline", value)]
  | .stored reference => .ofEntries [("stored", reference.toValue)]
  | .tombstone reference _ => .ofEntries [("stored", reference.toValue)]

theorem wellFormed_inline {value : Value} (wellFormed : value.WellFormed) :
    (Answer.inline value).toValue.WellFormed :=
  Value.wellFormed_ofEntries (by simp [wellFormed])

theorem wellFormed_stored (reference : PayloadRef) : (Answer.stored reference).toValue.WellFormed :=
  Value.wellFormed_ofEntries (by simp)

theorem nesting_inline (value : Value) :
    (Answer.inline value).toValue.nesting ≤ value.nesting + 1 :=
  Value.nesting_ofEntries_le (by simp)

theorem nesting_stored (reference : PayloadRef) : (Answer.stored reference).toValue.nesting ≤ 2 :=
  Value.nesting_ofEntries_le (by simp [reference.nesting_toValue])

/-- The payloads the answer's event attaches. -/
def attachments : Answer → List PayloadRef
  | .inline _ => []
  | .stored reference => [reference]
  | .tombstone reference _ => [reference]

end Answer

/-- A completion for the named request, including a closed claim's scope. -/
def completedPayloadFor (kind : CommandKind) (requestId : RequestId) (digest : Hash)
    (scope : List String) (outcome : Outcome) : Value :=
  .ofEntries
    [("kind", .string kind), ("request_id", .string requestId), ("digest", .string digest.toHex),
      ("scope", texts scope), ("outcome", .string outcome.kind.name),
      ("answer", outcome.answer.toValue)]

theorem wellFormed_completedPayloadFor (kind : CommandKind) (requestId : RequestId) (digest : Hash)
    (scope : List String) {outcome : Outcome} (answer_wellFormed : outcome.answer.toValue.WellFormed) :
    (completedPayloadFor kind requestId digest scope outcome).WellFormed :=
  Value.wellFormed_ofEntries (by simp [answer_wellFormed])

theorem nesting_completedPayloadFor (kind : CommandKind) (requestId : RequestId) (digest : Hash)
    (scope : List String) (outcome : Outcome) :
    (completedPayloadFor kind requestId digest scope outcome).nesting ≤
      max outcome.answer.toValue.nesting 1 + 1 := by
  refine Value.nesting_ofEntries_le ?_
  have scope_le := nesting_texts scope
  simp [scope_le]

/-- The claimed fields kept in a request document, without lease liveness. -/
structure ClaimDoc where
  id : ClaimId
  digest : Hash
  seq : Nat
  claimedAt : String
  scope : List String
  owner : ClaimOwner
  intent : Value

/-- The state held by a request document. -/
inductive RequestState where
  | claimed (doc : ClaimDoc)
  /-- Held for the owner at this reconciliation sequence. -/
  | awaitingOwner (doc : ClaimDoc) (heldSeq : Nat)
  | completed (digest : Hash) (outcome : Outcome)

/-- The digest of the request's first recorded command. -/
def RequestState.digest : RequestState → Hash
  | .claimed doc => doc.digest
  | .awaitingOwner doc _ => doc.digest
  | .completed digest _ => digest

/-- The digest and outcome a `request` document records. -/
def recordedOutcome (body : Value) : Option (Hash × Outcome) := do
  let digest ← Hash.fromHex (← (← body.get? "digest").asStr)
  let name ← (← body.get? "outcome").asStr
  let kind ←
    if name = "done" then some OutcomeKind.done
    else if name = "refused" then some OutcomeKind.refused
    else none
  let answer ← (← body.get? "answer").asObject
  if answer.length ≠ 1 then none
  else
    match Members.lookup "inline" answer, Members.lookup "stored" answer with
    | some value, none => some (digest, { kind, answer := .inline value })
    | none, some reference => do
        let reference ← PayloadRef.fromValue reference
        some (digest, { kind, answer := .stored reference })
    | _, _ => none

/-- The open claim of a `request` document. -/
def claimDoc (body : Value) : Option ClaimDoc := do
  let claimed ← body.get? "claim"
  let owner ← claimed.get? "owner"
  let kind ← (← body.get? "kind").asStr
  let requestId ← (← body.get? "request_id").asStr
  let digest ← Hash.fromHex (← (← body.get? "digest").asStr)
  let seq ← (← claimed.get? "seq").asU64
  let claimedAt ← (← claimed.get? "claimed_at").asStr
  let scope ← asTexts (← claimed.get? "scope")
  let owner ← ClaimOwner.fromValue owner
  let intent ← claimed.get? "intent"
  some { id := { kind, requestId }, digest, seq, claimedAt, scope, owner, intent }

/-- Parse the current request document shape. -/
def requestState (body : Value) : Option RequestState := do
  let state ← (← body.get? "state").asStr
  if state = "completed" then do
    let _ ← asTexts (← body.get? "scope")
    let (digest, outcome) ← recordedOutcome body
    some (.completed digest outcome)
  else if state = "claimed" then do
    let doc ← claimDoc body
    some (.claimed doc)
  else if state = "awaiting_owner" then do
    let doc ← claimDoc body
    let held ← body.get? "held"
    let _ ← held.get? "finding"
    let seq ← (← held.get? "seq").asU64
    some (.awaitingOwner doc seq)
  else none

/-- The reconciliation sequence a document says it is held at. -/
def heldSeq (body : Value) : Option Nat := do
  (← (← body.get? "held").get? "seq").asU64

/-! ## The `request` view -/

def requestSpec : ViewSpec where
  name := requestView
  version := 2
  key := [⟨"kind", .text⟩, ⟨"request_id", .text⟩]
  indexes := [⟨"by_state", [⟨⟨"state", .text⟩, .ascending⟩]⟩]
  pageBound := 100

namespace RequestProjector

def keyOf (event : Event) : Option DocKey := do
  let kind ← (← event.payload.get? "kind").asStr
  let requestId ← (← event.payload.get? "request_id").asStr
  some [.text kind, .text requestId]

/-- The document of a claim that was just taken. -/
def claimedBody (event : Event) (payload : ClaimedPayload) : Value :=
  .ofEntries
    [("kind", .string payload.kind), ("request_id", .string payload.requestId),
      ("digest", .string payload.digest.toHex), ("state", .string "claimed"),
      ("claim", .ofEntries
        [("seq", .ofNat event.seq), ("claimed_at", .string event.recordedAt),
          ("scope", texts payload.scope), ("owner", payload.owner.toValue),
          ("intent", payload.intent)])]

/-- The document of a claim held for the owner by the event. -/
def heldBody (event : Event) (finding body : Value) : Value :=
  (body.set "state" (.string "awaiting_owner")).set "held"
    (.ofEntries [("seq", .ofNat event.seq), ("finding", finding)])

/-- Whether a document holds the open claim of this sequence. -/
def holdsClaim (body : Value) (claimSeq : Nat) : Bool :=
  match requestState body with
  | some (.claimed doc) => doc.seq = claimSeq
  | some (.awaitingOwner doc _) => doc.seq = claimSeq
  | _ => false

def apply (event : Event) (documents : List (DocKey × Value)) : Except String (List Change) :=
  match keyOf event with
  | none => .error "a command event without its kind and request id"
  | some key =>
      if event.typeName = commandClaimed then
        match ClaimedPayload.fromValue event.payload with
        | none => .error "a malformed command.claimed payload"
        | some payload => .ok [.put key (claimedBody event payload)]
      else if event.typeName = commandReconciled then
        match ReconciledPayload.fromValue event.payload with
        | none => .error "a malformed command.reconciled payload"
        | some payload =>
            -- A resolved reconciliation is followed by the claim's completion.
            if payload.resolution = .resolved then .ok []
            else
              match (documents.find? fun found => found.1 = key).map Prod.snd with
              | none => .error "command.reconciled without an open claim"
              | some body =>
                  if holdsClaim body payload.claimSeq then
                    .ok [.put key (heldBody event payload.finding body)]
                  else .error "command.reconciled without its claim"
      else if event.typeName = commandCompleted then
        .ok [.put key (event.payload.set "state" (.string "completed"))]
      else .ok []

end RequestProjector

/-- Keeps the `request` view; a completed document is the `command.completed` payload. -/
def requestProjector : Projector where
  spec := requestSpec
  handles := [commandClaimed, commandCompleted, commandReconciled]
  keys := fun event => (RequestProjector.keyOf event).toList
  apply := RequestProjector.apply

/-- The store's own views have different names. -/
theorem nodup_ownViews :
    ((claimScopeProjector :: requestProjector :: ([] : List Projector)).map fun projector =>
      projector.spec.name).Nodup := by
  decide

end Baley
