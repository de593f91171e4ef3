import Baley.Store.Path

/-!
# Commands, claims, lease renewals and reconciliation

What each entry of the command path answers a retry and what it appends for a new request.
-/

namespace Baley

open Json

/-- The command's result whether it was answered or written. -/
def CommandResult.value {α : Type} : CommandResult α → α
  | .replayed value => value
  | .new value _ => value

def CommandResult.recorded : CommandResult Outcome → Recorded
  | .replayed outcome => .replayed outcome
  | .new outcome head => .new outcome head

/-- Map the value of a result, keeping the rows beside it. -/
def resultOf {α β : Type} (change : α → β) (result : Except StoreError α × Db) :
    Except StoreError β × Db :=
  (result.1.map change, result.2)

namespace Work

/-- Take or renew the lease of a claim. -/
def setLease (id : ClaimId) (seq : Nat) (renewedAt : String) : Turn Unit := fun work => do
  let claimSeq ← sqlInt seq
  .ok ((), work.setRows
    { work.rows with leases := work.rows.leases.insert id { claimSeq, renewedAt } })

/-- Drop the lease of a claim that was closed. -/
def dropLease (id : ClaimId) : Turn Unit := fun work =>
  .ok ((), work.setRows { work.rows with leases := work.rows.leases.erase id })

variable (store : Store)

/-- The turn of a database-only command. -/
def transactTurn (engine : Engine) (script : Decide Decision) :
    Turn (Outcome × Outcome × Option GitFacts × Option Observed) := do
  let decision ← decide store engine script
  let outcome ← outcome store decision
  pure (outcome, outcome, decision.git, some decision.observed)

/-- Record `command.claimed` and take the lease. -/
def takeClaim (command : Command) (intent : Value) (owner : ClaimOwner) (git : Option GitFacts)
    (observed : Observed) : Turn Nat := do
  let _ ← (Except.ofOption (StoreError.invalidEvent "claim owner started_at is not a UTC instant")
    (UtcInstant.parse owner.startedAt)).attempt
  recheck store observed
  let seq ← push store
    { stream := commandStream command.kind, typeName := commandClaimed
      typeVersion := commandClaimedVersion, git
      payload := ClaimedPayload.toValue
        { kind := command.kind, requestId := command.requestId, digest := command.digest, intent
          scope := command.scope, owner }
      attachments := [] }
  setLease ⟨command.kind, command.requestId⟩ seq command.recordedAt
  pure seq

/-- Take or refuse a claim as its decision says. -/
def claimedAs (command : Command) (decision : ClaimDecision) : Turn Claimed := do
  match decision with
  | .refuse decision => do
      let outcome ← outcome store decision
      let _ ← finish store outcome decision.git (some decision.observed)
      let work ← get
      let head ← (Except.ofOption (.unavailable "completion appended") work.head).attempt
      pure (.refused outcome head)
  | .claim intent _ owner git observed => do
      let seq ← takeClaim store command intent owner git observed
      pure (.new seq)

/-- The turn of a claim: it is taken or refused. -/
def claimTurn (engine : Engine) (command : Command) (script : Decide ClaimDecision) :
    Turn Claimed := do
  let decision ← decide store engine script
  claimedAs store command decision

/-- Close a claim with the outcome of a decision and drop its lease. -/
def closeClaim (id : ClaimId) (digest : Hash) (scope : List String) (decision : Decision) :
    Turn Outcome := do
  let outcome ← outcome store decision
  recheck store decision.observed
  let _ ← completeFor store id.kind id.requestId digest scope outcome decision.git
  dropLease id
  pure outcome

/-- The turn of a completion: the claim that was looked up is closed. -/
def completeTurn (engine : Engine) (command : Command) (script : Decide Decision)
    (own : Option Claim) : Turn Outcome := do
  let claim ← (Except.ofOption (.unavailable "complete looked up its claim") own).attempt
  let decision ← decide store engine script
  closeClaim store claim.id command.digest claim.scope decision

/-- The open claim a request document holds, and the sequence it is held at. -/
def openClaimOf (id : ClaimId) (document : Document) :
    Except StoreError (ClaimDoc × Option Nat) :=
  match requestState document.body with
  | none => .error (.unavailable "a request document that holds no state")
  | some (.claimed doc) => .ok (doc, none)
  | some (.awaitingOwner doc seq) => .ok (doc, some seq)
  | some (.completed ..) => .error (.stale (.claim id))

/-- The open claim a reconciliation names, when its authority may reconcile it now. -/
def reconcilable (command : Command) (id : ClaimId) (authority : ReconcileAuthority) :
    Turn (ClaimDoc × Claim) := fun work => do
  let found ← work.getDocument store requestView [.text id.kind, .text id.requestId]
  let document ← Except.ofOption (.refused (.unknownClaim id)) found
  let (doc, held) ← openClaimOf id document
  .require (doc.id = id) (.unavailable "a request document names another claim")
  let claim := claimFromDoc work.rows doc held
  match claimState claim command.recordedAt with
  | none => .error (.unavailable "an invalid lease time")
  | some .active => .error (.stale (.claimActive id))
  | some .awaitingOwner =>
      if authority = .automatic then .error (.refused (.awaitingOwner id))
      else .ok ((doc, claim), work)
  | some .interrupted => .ok ((doc, claim), work)

/-- The receipt of a reconciliation. -/
def reconcileAnswer (id : ClaimId) (seq : Nat) (resolution : ReconciledResolution) : Value :=
  .ofEntries
    [("claim", .ofEntries [("kind", .string id.kind), ("request_id", .string id.requestId)]),
      ("reconciled", .ofNat seq), ("resolution", .string resolution.name)]

def Resolution.recorded : Resolution → ReconciledResolution
  | .resolved _ => .resolved
  | .awaitingOwner => .awaitingOwner

/-- Record a finding for an interrupted claim, close or hold it, and complete the reconciler's own
request. -/
def reconciledAs (id : ClaimId) (doc : ClaimDoc) (claim : Claim) (result : Reconciliation) :
    Turn Outcome := do
  recheck store result.observed
  let resolution := Resolution.recorded result.resolution
  let seq ← push store
    { stream := commandStream id.kind, typeName := commandReconciled
      typeVersion := commandReconciledVersion, git := none
      payload := ReconciledPayload.toValue
        { claim := id, claimSeq := claim.seq, finding := result.finding, resolution }
      attachments := [] }
  match result.resolution with
  | .resolved decision => do
      let _ ← closeClaim store id doc.digest doc.scope decision
  | .awaitingOwner => pure ()
  let outcome : Outcome :=
    { kind := .done, answer := .inline (reconcileAnswer id seq resolution) }
  let _ ← finish store outcome none none
  pure outcome

/-- The turn of a reconciliation: it finds the claim and acts as its decision says. -/
def reconcileClaim (engine : Engine) (command : Command) (id : ClaimId)
    (authority : ReconcileAuthority) (script : Claim → Decide Reconciliation) : Turn Outcome := do
  let (doc, claim) ← reconcilable store command id authority
  let result ← decide store engine (script claim)
  reconciledAs store id doc claim result

end Work

namespace Store

variable (store : Store)

/-- One database-only command. -/
def transact (engine : Engine) (command : Command) (script : Decide Decision) (db : Db) :
    Except StoreError Recorded × Db :=
  resultOf CommandResult.recorded <|
    store.commandPath engine command (fun _ outcome _ => .ok outcome)
      (Work.transactTurn store engine script)
      db

/-- Take a claim or record a refusal before any external effect. -/
def claim (engine : Engine) (command : Command) (script : Decide ClaimDecision) (db : Db) :
    Except StoreError Claimed × Db :=
  resultOf CommandResult.value <|
    store.commandPathFor engine command .claim
      (fun db state _ =>
        let rows := db.rows command.project
        match state with
        | .completed _ outcome => .ok (.replayed outcome)
        | .claimed doc => .ok (.inProgress (claimFromDoc rows doc none))
        | .awaitingOwner doc seq => .ok (.inProgress (claimFromDoc rows doc (some seq))))
      (fun _ => Work.claimTurn store engine command script)
      db

/-- Record the acting owner's result, even when its lease expired. -/
def complete (engine : Engine) (command : Command) (owner : ClaimOwner) (script : Decide Decision)
    (db : Db) : Except StoreError Recorded × Db :=
  resultOf CommandResult.recorded <|
    store.commandPathFor engine command (.complete owner)
      (fun _ state _ =>
        match state with
        | .completed _ outcome => .ok outcome
        | _ => .error (.unavailable "a claim that cannot replay"))
      (Work.completeTurn store engine command script)
      db

/-- Record a finding for an interrupted claim and close or hold it. -/
def reconcile (engine : Engine) (command : Command) (id : ClaimId) (authority : ReconcileAuthority)
    (script : Claim → Decide Reconciliation) (db : Db) : Except StoreError Recorded × Db :=
  if authority = .owner ∧ command.actor ≠ .owner then (.error (.refused .notOwner), db)
  else if command.caller.isSome then
    (.error (.invalidEvent "a reconciliation records no caller"), db)
  else
    resultOf CommandResult.recorded <|
      store.commandPathFor engine command (.reconcile id)
        (fun _ state _ =>
          match state with
          | .completed _ outcome => .ok outcome
          | _ => .error (.unavailable "a reconciliation that cannot replay"))
        (fun _ => Work.reconcileClaim store engine command id authority script)
        db

/-- The claim a request document holds, when it is neither completed nor held for the owner. -/
def claimedDocOf (id : ClaimId) (document : Document) : Except StoreError ClaimDoc :=
  match requestState document.body with
  | none => .error (.unavailable "a request document that holds no state")
  | some (.claimed doc) => .ok doc
  | some _ => .error (.stale (.claim id))

/-- The rows after a lease renewal. -/
def renewedLease (project : ProjectId) (id : ClaimId) (owner : ClaimOwner) (renewedAt : String)
    (db : Db) : Except StoreError (Unit × Db) := do
  .require ((db.projects.lookup project).isSome = true) (.refused (.unknownProject project))
  let rows := db.rows project
  let document ← .ofOption (.refused (.unknownClaim id)) (← store.lookupRequest rows id)
  let doc ← claimedDocOf id document
  .require (doc.id = id) (.unavailable "a request document names another claim")
  .require (doc.owner = owner) (.refused (.notClaimOwner id))
  let floor := (claimFromDoc rows doc none).leaseRenewedAt.getD doc.claimedAt
  let refused : StoreError := .refused (.leaseTime id renewedAt floor)
  let renewed ← .ofOption refused (UtcInstant.parse renewedAt)
  let earliest ← .ofOption (.unavailable "an invalid lease floor") (UtcInstant.parse floor)
  .require (earliest ≤ renewed) refused
  let claimSeq ← sqlInt doc.seq
  .ok ((), db.setRows project { rows with leases := rows.leases.insert id { claimSeq, renewedAt } })

/-- Renew a claimed request's lease without recording an event. -/
def renewLease (engine : Engine) (project : ProjectId) (id : ClaimId) (owner : ClaimOwner)
    (renewedAt : String) (db : Db) : Except StoreError Unit × Db :=
  transaction engine (store.renewedLease project id owner renewedAt) db

end Store

end Baley
