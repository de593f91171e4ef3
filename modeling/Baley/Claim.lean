import Baley.Command
import Baley.Time

/-!
# Commands with an external effect

A claim is the intent event recorded before the effect runs.  Its lease is liveness, not evidence:
it lives outside the chain, and whether a claim is active, interrupted or blocks a command is
decided over the facts here and a supplied time.
-/

namespace Baley

open Json

def commandClaimedVersion : Nat := 1
def commandReconciledVersion : Nat := 1

/-- The time after the last renewal at which a claim is interrupted. -/
def leaseExpirySeconds : Nat := 60

/-- The view that maps a scope token to its holder. -/
def claimScopeView : String := "claim_scope"

/-- Who holds a claim. -/
structure ClaimOwner where
  process : String
  hostSession : String
  startedAt : String
  deriving DecidableEq, Repr

/-- The command kind and request id that took a claim. -/
structure ClaimId where
  kind : CommandKind
  requestId : RequestId
  deriving DecidableEq, Repr

/-- A claim not yet completed. -/
structure Claim where
  id : ClaimId
  /-- The sequence of its `command.claimed` event. -/
  seq : Nat
  claimedAt : String
  intent : Value
  scope : List String
  owner : ClaimOwner
  /-- The matching row's renewal time, or nothing when no row matches. -/
  leaseRenewedAt : Option String
  /-- The reconciliation sequence that held this claim for the owner. -/
  awaitingOwner : Option Nat

/-- What a claim decision returns. -/
inductive ClaimDecision where
  | claim (intent : Value) (wellFormed : intent.WellFormed) (owner : ClaimOwner)
      (git : Option GitFacts) (observed : Observed)
  | refuse (decision : Decision)

/-- What `claim` did. -/
inductive Claimed where
  | new (seq : Nat)
  | inProgress (claim : Claim)
  | replayed (outcome : Outcome)
  | refused (outcome : Outcome) (head : Head)

/-! ## Leases -/

inductive LeaseState where
  | active
  | interrupted
  deriving DecidableEq, Repr

/-- Judge a lease from a matching row and a supplied time; nothing when a time does not parse. -/
def leaseState (renewedAt : Option String) (now : String) : Option LeaseState :=
  match renewedAt with
  | none => some .interrupted
  | some renewedAt => do
      let renewed ← UtcInstant.parse renewedAt
      let now ← UtcInstant.parse now
      let expiry ← renewed.plusSeconds leaseExpirySeconds
      some (if expiry ≤ now then .interrupted else .active)

inductive ClaimState where
  | active
  | interrupted
  | awaitingOwner
  deriving DecidableEq, Repr

/-- Judge a claim, giving an owner hold priority over its lease. -/
def claimState (claim : Claim) (now : String) : Option ClaimState :=
  if claim.awaitingOwner.isSome then some .awaitingOwner
  else
    (leaseState claim.leaseRenewedAt now).map fun
      | .active => .active
      | .interrupted => .interrupted

/-- The claim that blocks a command and its state. -/
structure Block where
  claim : ClaimId
  state : ClaimState
  deriving DecidableEq, Repr

/-- The first of the claims with the lowest sequence. -/
def minBySeq : List Claim → Option Claim
  | [] => none
  | claim :: claims =>
      match minBySeq claims with
      | none => some claim
      | some least => if least.seq < claim.seq then some least else some claim

/-- The lowest-sequence holder sharing an exact scope token; nothing outside when its time does not
parse. -/
def blocking (scope : List String) (holders : List Claim) (now : String) :
    Option (Option Block) :=
  match minBySeq (holders.filter fun holder => holder.scope.any fun token => scope.contains token)
    with
  | none => some none
  | some holder => do
      let state ← claimState holder now
      some (some { claim := holder.id, state })

/-- Who may resolve a claim held for the owner. -/
inductive ReconcileAuthority where
  | automatic
  | owner
  deriving DecidableEq, Repr

/-- What reconciling an interrupted claim found. -/
inductive Resolution where
  | resolved (decision : Decision)
  | awaitingOwner

/-- What a reconciliation decision returns. -/
structure Reconciliation where
  finding : Value
  finding_wellFormed : finding.WellFormed
  resolution : Resolution
  observed : Observed

/-! ## Event payloads -/

/-- Every item of an array of texts. -/
def asTexts (value : Value) : Option (List String) := do
  (← value.asArray).mapM Value.asStr

def texts (items : List String) : Value :=
  .array (items.map .string)

@[simp]
theorem wellFormed_texts (items : List String) : (texts items).WellFormed := by
  simp [texts]

theorem nesting_texts (items : List String) : (texts items).nesting ≤ 1 :=
  Value.nesting_array_le (by simp)

namespace ClaimOwner

def toValue (owner : ClaimOwner) : Value :=
  .ofEntries
    [("process", .string owner.process), ("host_session", .string owner.hostSession),
      ("started_at", .string owner.startedAt)]

@[simp]
theorem wellFormed_toValue (owner : ClaimOwner) : owner.toValue.WellFormed :=
  Value.wellFormed_ofEntries (by simp)

theorem nesting_toValue (owner : ClaimOwner) : owner.toValue.nesting ≤ 1 :=
  Value.nesting_ofEntries_le (by simp)

def fromValue (value : Value) : Option ClaimOwner := do
  let process ← (← value.get? "process").asStr
  let hostSession ← (← value.get? "host_session").asStr
  let startedAt ← (← value.get? "started_at").asStr
  some { process, hostSession, startedAt }

end ClaimOwner

/-- The `command.claimed` payload. -/
structure ClaimedPayload where
  kind : CommandKind
  requestId : RequestId
  digest : Hash
  intent : Value
  scope : List String
  owner : ClaimOwner

namespace ClaimedPayload

def toValue (payload : ClaimedPayload) : Value :=
  .ofEntries
    [("kind", .string payload.kind), ("request_id", .string payload.requestId),
      ("digest", .string payload.digest.toHex), ("intent", payload.intent),
      ("scope", texts payload.scope), ("owner", payload.owner.toValue)]

theorem wellFormed_toValue {payload : ClaimedPayload}
    (intent_wellFormed : payload.intent.WellFormed) : payload.toValue.WellFormed :=
  Value.wellFormed_ofEntries (by simp [intent_wellFormed])

theorem nesting_toValue (payload : ClaimedPayload) :
    payload.toValue.nesting ≤ max payload.intent.nesting 1 + 1 := by
  refine Value.nesting_ofEntries_le ?_
  have scope_le := nesting_texts payload.scope
  have owner_le := payload.owner.nesting_toValue
  simp [scope_le, owner_le]

def fromValue (value : Value) : Option ClaimedPayload := do
  let owner ← value.get? "owner"
  let kind ← (← value.get? "kind").asStr
  let requestId ← (← value.get? "request_id").asStr
  let digest ← Hash.fromHex (← (← value.get? "digest").asStr)
  let intent ← value.get? "intent"
  let scope ← asTexts (← value.get? "scope")
  let owner ← ClaimOwner.fromValue owner
  some { kind, requestId, digest, intent, scope, owner }

end ClaimedPayload

/-- The result recorded by `command.reconciled`. -/
inductive ReconciledResolution where
  | resolved
  | awaitingOwner
  deriving DecidableEq, Repr

def ReconciledResolution.name : ReconciledResolution → String
  | .resolved => "resolved"
  | .awaitingOwner => "awaiting_owner"

/-- The `command.reconciled` payload. -/
structure ReconciledPayload where
  claim : ClaimId
  claimSeq : Nat
  finding : Value
  resolution : ReconciledResolution

namespace ReconciledPayload

def toValue (payload : ReconciledPayload) : Value :=
  .ofEntries
    [("kind", .string payload.claim.kind), ("request_id", .string payload.claim.requestId),
      ("claim_seq", .ofNat payload.claimSeq), ("finding", payload.finding),
      ("resolution", .string payload.resolution.name)]

theorem wellFormed_toValue {payload : ReconciledPayload}
    (finding_wellFormed : payload.finding.WellFormed) : payload.toValue.WellFormed :=
  Value.wellFormed_ofEntries (by simp [finding_wellFormed])

theorem nesting_toValue (payload : ReconciledPayload) :
    payload.toValue.nesting ≤ payload.finding.nesting + 1 :=
  Value.nesting_ofEntries_le (by simp)

def fromValue (value : Value) : Option ReconciledPayload := do
  let kind ← (← value.get? "kind").asStr
  let requestId ← (← value.get? "request_id").asStr
  let claimSeq ← (← value.get? "claim_seq").asU64
  let finding ← value.get? "finding"
  let name ← (← value.get? "resolution").asStr
  let resolution ←
    if name = "resolved" then some ReconciledResolution.resolved
    else if name = "awaiting_owner" then some ReconciledResolution.awaitingOwner
    else none
  some { claim := { kind, requestId }, claimSeq, finding, resolution }

end ReconciledPayload

/-! ## The `claim_scope` view -/

def claimScopeSpec : ViewSpec where
  name := claimScopeView
  version := 1
  key := [⟨"scope", .text⟩]
  indexes := []
  pageBound := 1

namespace ClaimScopeProjector

def keys (event : Event) : List DocKey :=
  match (event.payload.get? "scope").bind Value.asArray with
  | some tokens => (tokens.filterMap Value.asStr).map fun token => [.text token]
  | none => []

/-- The document that says which claim holds a token. -/
def holder (token : String) (seq : Nat) (kind requestId : String) : Value :=
  .ofEntries
    [("scope", .string token),
      ("claim", .ofEntries
        [("seq", .ofNat seq), ("kind", .string kind), ("request_id", .string requestId)])]

/-- Whether a token's document names this request. -/
def names (body : Value) (kind requestId : String) : Bool :=
  let claim := body.get? "claim"
  (claim.bind fun claim => (claim.get? "kind").bind Value.asStr) = some kind &&
    (claim.bind fun claim => (claim.get? "request_id").bind Value.asStr) = some requestId

/-- What one token of the event changes. -/
def change (event : Event) (documents : List (DocKey × Value)) (kind requestId : String)
    (token : Value) : Except String (Option Change) :=
  match token.asStr with
  | none => .error "a scope token is not text"
  | some token =>
      let key : DocKey := [.text token]
      if event.typeName = commandClaimed then
        .ok (some (.put key (holder token event.seq kind requestId)))
      else if documents.any fun found => found.1 = key && names found.2 kind requestId then
        .ok (some (.delete key))
      else .ok none

def apply (event : Event) (documents : List (DocKey × Value)) : Except String (List Change) := do
  let some tokens := (event.payload.get? "scope").bind Value.asArray
    | .error "a command event without scope"
  let some kind := (event.payload.get? "kind").bind Value.asStr
    | .error "a command event without kind"
  let some requestId := (event.payload.get? "request_id").bind Value.asStr
    | .error "a command event without request id"
  let changes ← tokens.mapM (change event documents kind requestId)
  .ok (changes.filterMap id)

end ClaimScopeProjector

/-- Projects each open claim's exact tokens. -/
def claimScopeProjector : Projector where
  spec := claimScopeSpec
  handles := [commandClaimed, commandCompleted]
  keys := ClaimScopeProjector.keys
  apply := ClaimScopeProjector.apply

end Baley
