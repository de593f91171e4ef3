import Baley.Checkout.Admit

/-!
# The policy step's recorder

One `policy.effective` as Baley's own command, only when the policy differs from the one stored for
its checkout and host.
-/

namespace Baley

open Json Script

/-- The command kind the policy step records under. -/
def recordCommand : CommandKind := "policy.record"

/-- One policy record as it is called. -/
structure PolicyRecord where
  project : ProjectId
  recorded : RecordedPolicy
  catalogVersion : Nat
  requestId : RequestId
  recordedAt : String
  caller : Option Caller
  sha256 : List UInt8 → Hash

namespace PolicyRecord

variable (record : PolicyRecord)

def payload : Value :=
  effectivePayload record.recorded record.project record.catalogVersion

def key : DocKey := policyKey record.recorded.checkout record.recorded.host

/-- The payload is in the digest, so two policies never share an identity. -/
def digestOf (policyVersion : Nat) : Value :=
  .ofEntries
    [("kind", .string recordCommand), ("project", .string record.project),
      ("actor", .string Actor.baley.asStr), ("policy_version", .ofNat policyVersion),
      ("payload", record.payload), ("scope", .array [])]

def command (policyVersion : Nat) : Except StoreError Command := do
  let digest ← (requestDigest record.sha256 (record.digestOf policyVersion)).mapError
    fun error => StoreError.invalidEvent error.message
  .ok
    { project := record.project, kind := recordCommand, requestId := record.requestId, digest
      scope := [], policyVersion, recordedAt := record.recordedAt, actor := .baley
      caller := record.caller }

/-- What a record decided: whether it appended. -/
def decision (observed : Observed) (appended : Bool) : Decision where
  kind := .done
  answer := .ofEntries [("recorded", .bool appended)]
  answer_wellFormed := Value.wellFormed_ofEntries (by simp [Value.WellFormed.bool])
  sensitive := false
  observed
  git := none

/-- The event of one policy in force. -/
def effectiveEvent : NewEvent where
  stream := projectStream
  typeName := policyEffective
  typeVersion := policyEffectiveVersion
  git := none
  payload := record.payload
  attachments := []

/-- The decision: the payload is judged again against the document as it stands. -/
def decide (observed : Observed) : Noting Noted Decision :=
  .call (.get policyView record.key) fun
    | .error error => .done (.error error, .nothing)
    | .ok now =>
        match judgePolicy record.payload (now.map Document.body) with
        | .unchanged version => .done (.ok (decision observed false), .inForce version)
        | .record =>
            .call (.append record.effectiveEvent (wellFormed_effectivePayload _ _ _)) fun
              | .error error => .done (.error error, .nothing)
              | .ok seq => .done (.ok (decision observed true), .inForce seq)

/-- The policy document the command's version was read from. -/
def observed (stored : Option Document) : Observed where
  documents :=
    [{ view := policyView, key := record.key, producedSeq := stored.map Document.producedSeq }]
  absences := []
  git := []

/-- The version in force after the command, read again when the request had already run. -/
def inForce : Except StoreError Recorded × Option Noted →
    Script (LedgerCall Noted) LedgerCall.Reply (Except StoreError Nat)
  | (.error error, _) => .done (.error error)
  | (.ok (.new ..), some (.inForce version)) => .done (.ok version)
  | (.ok _, _) =>
      .call (.get policyView record.key) fun
        | .error error => .done (.error error)
        | .ok found => .done (.ok (found.elim 0 fun document => storedVersion document.body))

def recordOnce : Script (LedgerCall Noted) LedgerCall.Reply (Except StoreError Nat) :=
  .call (.get policyView record.key) fun
    | .error error => .done (.error error)
    | .ok stored =>
        match judgePolicy record.payload (stored.map Document.body) with
        | .unchanged version => .done (.ok version)
        | .record =>
            match record.command ((stored.map Document.body).elim 0 storedVersion) with
            | .error error => .done (.error error)
            | .ok command =>
                .call (.transact command (record.decide (record.observed stored))) record.inForce

/-- Whether a record is to be tried again. -/
def again : Except StoreError Nat → Bool
  | .error error => error.isStale
  | .ok _ => false

/-- Record the policy when it differs from the stored one, and return the version in force. -/
def recordPolicy : Script (LedgerCall Noted) LedgerCall.Reply (Except StoreError Nat) :=
  retry again record.recordOnce retries

end PolicyRecord

end Baley
