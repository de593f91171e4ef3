import Baley.Ledger.Recorded
import Baley.Store.Effects

/-!
# Commands around an external effect

A claim is recorded before the effect and closed after it, by its own owner or by a reconciliation.
Its lease is no part of the project: a reconciliation may find any open claim interrupted.
-/

namespace Baley

open Json

/-- The claim a document holds, with the lease that was found for it. -/
def ClaimDoc.claim (doc : ClaimDoc) (held : Option Nat) (leaseRenewedAt : Option String) :
    Claim where
  id := doc.id
  seq := doc.seq
  claimedAt := doc.claimedAt
  intent := doc.intent
  scope := doc.scope
  owner := doc.owner
  leaseRenewedAt
  awaitingOwner := held

namespace Ledger

/-- The request document under a command kind and request id. -/
def requestOf (ledger : Ledger) (id : ClaimId) : Option Document :=
  ledger.document requestView [.text id.kind, .text id.requestId]

/-- An open claim, and the event it is held at for the owner. -/
structure Open (ledger : Ledger) (id : ClaimId) (doc : ClaimDoc) (held : Option Nat) : Prop where
  id_eq : doc.id = id
  document : ∃ document, ledger.requestOf id = some document ∧ Work.HoldsOpen document doc held

/-- No token of the command's scope is held, but by the claim it may overlap. -/
def Unblocked (ledger : Ledger) (command : Command) (excluded : Option ClaimId) : Prop :=
  ∀ token ∈ command.scope, ∀ document,
    ledger.document claimScopeView [.text token] = some document →
      ∃ id ∈ excluded, ClaimScopeProjector.names document.body id.kind id.requestId = true

/-- The event of a claim that was taken. -/
def claimedEvent (command : Command) (intent : Value) (owner : ClaimOwner) (git : Option GitFacts) :
    NewEvent where
  stream := commandStream command.kind
  typeName := commandClaimed
  typeVersion := commandClaimedVersion
  git
  payload := ClaimedPayload.toValue
    { kind := command.kind, requestId := command.requestId, digest := command.digest, intent
      scope := command.scope, owner }
  attachments := []

/-- The completion of a claim that was closed. -/
def closedEvent (id : ClaimId) (digest : Hash) (scope : List String) (outcome : Outcome)
    (git : Option GitFacts) : NewEvent where
  stream := commandStream id.kind
  typeName := commandCompleted
  typeVersion := commandCompletedVersion
  git
  payload := completedPayloadFor id.kind id.requestId digest scope outcome
  attachments := outcome.answer.attachments

/-- The finding of a reconciliation. -/
def reconciledEvent (id : ClaimId) (claimSeq : Nat) (result : Reconciliation) : NewEvent where
  stream := commandStream id.kind
  typeName := commandReconciled
  typeVersion := commandReconciledVersion
  git := none
  payload := ReconciledPayload.toValue
    { claim := id, claimSeq, finding := result.finding
      resolution := Work.Resolution.recorded result.resolution }
  attachments := []

variable (port : Port) {γ : Type}

/-- An event of the command was recorded, and nothing else. -/
structure Records (command : Command) (new : NewEvent) (before : Ledger) (event : Event)
    (after : Ledger) : Prop where
  stamps : Stamps command new before event
  appended : before.append port.allProjectors event = .ok after

/-- A decision that was asked and did not fail. -/
def Decides {α : Type} (command : Command) (decide : Noting γ α) (before : Ledger) (value : α)
    (noted : γ) (drafted : Ledger) : Prop :=
  Script.Runs (Draft.Performs port command) decide ⟨before, false⟩ (.ok value, noted)
    ⟨drafted, false⟩

/-- What asking for a claim may do. -/
inductive Claims (command : Command) (decide : Noting γ ClaimDecision) (ledger : Ledger) :
    Except StoreError Claimed × Option γ → Ledger → Prop
  | refused (error : StoreError) : Claims command decide ledger (.error error, none) ledger
  | failed (error : StoreError) {result : Except StoreError ClaimDecision} {noted : γ}
      {drafted : Draft} (fresh : ledger.request command = none)
      (decided : Script.Runs (Draft.Performs port command) decide ⟨ledger, false⟩
        (result, noted) drafted) :
      Claims command decide ledger (.error error, some noted) ledger
  /-- The request was completed before. -/
  | replayed {document : Document} {digest : Hash} {outcome replayed : Outcome}
      (found : ledger.request command = some document)
      (state_eq : requestState document.body = some (.completed digest outcome))
      (digest_eq : digest = command.digest) (replays : Replays outcome replayed) :
      Claims command decide ledger (.ok (.replayed replayed), none) ledger
  /-- The request holds a claim that is open. -/
  | inProgress {document : Document} {doc : ClaimDoc} {held : Option Nat}
      (leaseRenewedAt : Option String) (found : ledger.request command = some document)
      (holdsOpen : Work.HoldsOpen document doc held) (digest_eq : doc.digest = command.digest) :
      Claims command decide ledger (.ok (.inProgress (doc.claim held leaseRenewedAt)), none) ledger
  /-- The claim was taken. -/
  | taken {intent : Value} {wellFormed : intent.WellFormed} {owner : ClaimOwner}
      {git : Option GitFacts} {observed : Observed} {noted : γ} {drafted after : Ledger}
      {event : Event} (fresh : ledger.request command = none)
      (unblocked : ledger.Unblocked command none)
      (decided : Decides port command decide ledger (.claim intent wellFormed owner git observed)
        noted drafted) (unmoved : ledger.Unmoved port observed)
      (claimed : Records port command (claimedEvent command intent owner git) drafted event after) :
      Claims command decide ledger (.ok (.new event.seq), some noted) after
  /-- The decision refused the claim, which completes the request. -/
  | declined {decision : Decision} {noted : γ} {drafted after : Ledger} {outcome : Outcome}
      {event : Event} (head : Head) (head_eq : head.seq = after.events.length)
      (fresh : ledger.request command = none) (unblocked : ledger.Unblocked command none)
      (decided : Decides port command decide ledger (.refuse decision) noted drafted)
      (unmoved : ledger.Unmoved port decision.observed) (delivers : Delivers decision outcome)
      (completed : Records port command (completedEvent command outcome decision.git) drafted event
        after) :
      Claims command decide ledger (.ok (.refused outcome head), some noted) after

/-- What the owner of a claim may do with its result. -/
inductive Completes (command : Command) (owner : ClaimOwner) (decide : Noting γ Decision)
    (ledger : Ledger) : Except StoreError Recorded × Option γ → Ledger → Prop
  | refused (error : StoreError) : Completes command owner decide ledger (.error error, none) ledger
  | failed (error : StoreError) {result : Except StoreError Decision} {noted : γ} {drafted : Draft}
      (decided : Script.Runs (Draft.Performs port command) decide ⟨ledger, false⟩
        (result, noted) drafted) :
      Completes command owner decide ledger (.error error, some noted) ledger
  | replayed {document : Document} {digest : Hash} {outcome replayed : Outcome}
      (found : ledger.request command = some document)
      (state_eq : requestState document.body = some (.completed digest outcome))
      (digest_eq : digest = command.digest) (replays : Replays outcome replayed) :
      Completes command owner decide ledger (.ok (.replayed replayed), none) ledger
  /-- The claim of the command's own request was closed. -/
  | closed {document : Document} {doc : ClaimDoc} {decision : Decision} {noted : γ}
      {drafted after : Ledger} {outcome : Outcome} {event : Event} (head : Head)
      (head_eq : head.seq = after.events.length)
      (found : ledger.request command = some document)
      (claimed : requestState document.body = some (.claimed doc)) (owner_eq : doc.owner = owner)
      (scope_eq : doc.scope = command.scope) (digest_eq : doc.digest = command.digest)
      (decided : Decides port command decide ledger decision noted drafted)
      (unmoved : ledger.Unmoved port decision.observed) (delivers : Delivers decision outcome)
      (completed : Records port command
        (closedEvent doc.id command.digest doc.scope outcome decision.git) drafted event after) :
      Completes command owner decide ledger (.ok (.new outcome head), some noted) after

/-- Closing or holding the claim a reconciliation found. -/
def Resolves (command : Command) (doc : ClaimDoc) (ledger : Ledger) :
    Resolution → (before after : Ledger) → Prop
  | .resolved decision, before, after =>
      ledger.Unmoved port decision.observed ∧ ∃ outcome event, Delivers decision outcome ∧
        Records port command (closedEvent doc.id doc.digest doc.scope outcome decision.git) before
          event after
  | .awaitingOwner, before, after => after = before

/-- What a reconciliation may do. -/
inductive Reconciles (command : Command) (id : ClaimId) (authority : ReconcileAuthority)
    (decide : Claim → Noting γ Reconciliation) (ledger : Ledger) :
    Except StoreError Recorded × Option γ → Ledger → Prop
  | refused (error : StoreError) :
      Reconciles command id authority decide ledger (.error error, none) ledger
  | failed (error : StoreError) {claim : Claim} {result : Except StoreError Reconciliation}
      {noted : γ} {drafted : Draft}
      (decided : Script.Runs (Draft.Performs port command) (decide claim) ⟨ledger, false⟩
        (result, noted) drafted) :
      Reconciles command id authority decide ledger (.error error, some noted) ledger
  | replayed {document : Document} {digest : Hash} {outcome replayed : Outcome}
      (found : ledger.request command = some document)
      (state_eq : requestState document.body = some (.completed digest outcome))
      (digest_eq : digest = command.digest) (replays : Replays outcome replayed) :
      Reconciles command id authority decide ledger (.ok (.replayed replayed), none) ledger
  /-- An open claim was found, which only the owner may close once it is held. -/
  | reconciled {doc : ClaimDoc} {held : Option Nat} (leaseRenewedAt : Option String)
      {result : Reconciliation} {noted : γ} {drafted found closed after : Ledger}
      {finding own : Event} {outcome : Outcome} (head : Head)
      (head_eq : head.seq = after.events.length) (fresh : ledger.request command = none)
      (claimed : ledger.Open id doc held) (may : held.isSome = true → authority = .owner)
      (decided : Decides port command (decide (doc.claim held leaseRenewedAt)) ledger result noted
        drafted) (unmoved : ledger.Unmoved port result.observed)
      (noted_finding : Records port command (reconciledEvent id doc.seq result) drafted finding
        found)
      (resolves : Resolves port command doc ledger result.resolution found closed)
      (completed : Records port command (completedEvent command outcome none) closed own after) :
      Reconciles command id authority decide ledger (.ok (.new outcome head), some noted) after

end Ledger

/-- One call of the port, those around an external effect included. -/
inductive EffectCall (γ : Type) where
  | ledger (call : LedgerCall γ)
  | claim (command : Command) (decide : Noting γ ClaimDecision)
  | complete (command : Command) (owner : ClaimOwner) (decide : Noting γ Decision)
  | reconcile (command : Command) (id : ClaimId) (authority : ReconcileAuthority)
      (decide : Claim → Noting γ Reconciliation)
  | openClaims
  | renewLease (id : ClaimId) (owner : ClaimOwner) (renewedAt : String)

namespace EffectCall

variable {γ : Type}

def Reply : EffectCall γ → Type
  | .ledger call => call.Reply
  | .claim .. => Except StoreError Claimed × Option γ
  | .complete .. => Except StoreError Recorded × Option γ
  | .reconcile .. => Except StoreError Recorded × Option γ
  | .openClaims => Except StoreError (List Claim)
  | .renewLease .. => Except StoreError Unit

/-- What a call may do to the project. -/
def Performs (port : Port) : Script.Acts (EffectCall γ) Reply Ledger
  | .ledger call, before, reply, after => call.Performs port before reply after
  | .claim command decide, before, reply, after => before.Claims port command decide reply after
  | .complete command owner decide, before, reply, after =>
      before.Completes port command owner decide reply after
  | .reconcile command id authority decide, before, reply, after =>
      before.Reconciles port command id authority decide reply after
  | .openClaims, before, reply, after =>
      after = before ∧ ∀ claims, reply = .ok claims →
        (∀ claim ∈ claims, ∃ doc held lease, before.Open claim.id doc held ∧
          claim = doc.claim held lease) ∧
        ∀ id doc held, before.Open id doc held → ∃ claim ∈ claims, claim.id = id
  | .renewLease .., before, _, after => after = before

end EffectCall

end Baley
