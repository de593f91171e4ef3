import Baley.Store.Command

/-!
# Entries of the command path

`transact`, `claim`, `complete` and `reconcile` share one lookup of the request and one scope check,
and differ in what an open or completed request answers and in what they append.
-/

namespace Baley

open Json

/-- Which request lookup rules and scope exclusion apply. -/
inductive Entry where
  | ordinary
  | claim
  | complete (owner : ClaimOwner)
  | reconcile (id : ClaimId)

/-- The open claim whose tokens do not block the command. -/
def Entry.excluded (entry : Entry) (own : Option Claim) : Option ClaimId :=
  match entry with
  | .complete _ => own.map Claim.id
  | .reconcile id => some id
  | _ => none

/-- Whether a command was answered from its request or wrote a new head. -/
inductive CommandResult (α : Type) where
  | replayed (value : α)
  | new (value : α) (head : Head)

/-- The project's stored head, nothing for an empty chain. -/
def storedHead (db : Db) (project : ProjectId) : Except StoreError (Option Head) :=
  match db.projects.lookup project with
  | none => .error (.refused (.unknownProject project))
  | some rows =>
      match rows.headHash with
      | none =>
          if rows.headSeq = 0 then .ok none
          else .error (.unavailable "the project's head does not agree with its head hash")
      | some hash =>
          if rows.headSeq = 0 then
            .error (.unavailable "the project's head does not agree with its head hash")
          else .ok (some ⟨rows.headSeq, hash⟩)

/-- The state of a stored body. -/
def payloadStatus (db : Db) (hash : Hash) : Except StoreError PayloadStatus :=
  match db.payloads.lookup hash with
  | none => .error (.refused (.unknownPayload hash))
  | some row =>
      match row.body with
      | .present _ => .ok (.present row.bytes)
      | .reduced excerpt retention kept =>
          match db.payloads.lookup excerpt with
          | none => .error (.unavailable "reduced without a stored excerpt")
          | some stored =>
              .ok (.reduced { hash := excerpt, bytes := stored.bytes, retention } [kept.1, kept.2])
      | .purged reason => .ok (.purged reason)

/-- The state of one answer's own reference, including its releasing event. -/
def referenceStatus (db : Db) (project : ProjectId) (seq : Nat) (hash : Hash) :
    Except StoreError PayloadStatus :=
  match (db.rows project).refs.lookup (seq, hash) with
  | none => .error (.unavailable "answer reference is missing")
  | some reference =>
      match reference.releasedSeq with
      | none => payloadStatus db hash
      | some released =>
          match (db.rows project).event? released with
          | none => .error (.unavailable "a release event")
          | some row =>
              match row.payload? with
              | none => .error (.unavailable "a release event")
              | some value =>
                  if row.typeName = payloadPurged then
                    match PurgedEvent.fromValue value with
                    | some purged => .ok (.purged purged.reason)
                    | none => .error (.unavailable "a malformed purge event")
                  else if row.typeName = payloadReduced then
                    match ReducedEvent.fromValue value with
                    | some reduced => .ok (.reduced reduced.excerpt [reduced.kept.1, reduced.kept.2])
                    | none => .error (.unavailable "a malformed reduction event")
                  else .error (.unavailable "a reference released by another event")

/-- A recorded outcome as a retry receives it: a stored answer whose own reference was released is
replaced by the state of its body. -/
def replayedOutcome (db : Db) (project : ProjectId) (seq : Nat) (outcome : Outcome) :
    Except StoreError Outcome :=
  match outcome.answer with
  | .stored reference => do
      match ← referenceStatus db project seq reference.hash with
      | .present _ => .ok outcome
      | status => .ok { outcome with answer := .tombstone reference status }
  | _ => .ok outcome

namespace Store

variable (store : Store)

/-- The project's live `request` document of a claim or command. -/
def lookupRequest (rows : ProjectRows) (id : ClaimId) : Except StoreError (Option Document) := do
  let spec ← store.table requestView
  getDocument spec rows.documents rows.liveGen [.text id.kind, .text id.requestId]

/-- Refuse a project holding an event this binary cannot read. -/
def checkReadable (project : ProjectId) (rows : ProjectRows) : Except StoreError Unit :=
  match rows.events.find? fun row => !store.reads row.typeName row.typeVersion with
  | none => .ok ()
  | some row =>
      .error (.refused (.projectReadOnly project (notReadable row.typeName row.typeVersion)))

/-- Why a token's document cannot be followed to its claim. -/
def invalidHolder : StoreError :=
  .unavailable "a claim_scope document names a claim that does not hold it"

/-- The open claim that holds a token, unless it is the one the command may overlap. -/
def scopeHolder (rows : ProjectRows) (excluded : Option ClaimId) (token : String) :
    Except StoreError (Option Claim) := do
  let scopes ← store.table claimScopeView
  match ← getDocument scopes rows.documents rows.liveGen [.text token] with
  | none => .ok none
  | some tokenDoc => do
      let named ← .ofOption invalidHolder (tokenDoc.body.get? "claim")
      let kind ← .ofOption invalidHolder ((named.get? "kind").bind Value.asStr)
      let requestId ← .ofOption invalidHolder ((named.get? "request_id").bind Value.asStr)
      let seq ← .ofOption invalidHolder ((named.get? "seq").bind Value.asU64)
      .require ((tokenDoc.body.get? "scope").bind Value.asStr = some token) invalidHolder
      let requestDoc ← .ofOption invalidHolder (← store.lookupRequest rows { kind, requestId })
      let doc ←
        match requestState requestDoc.body with
        | some (.claimed doc) => .ok doc
        | some (.awaitingOwner doc _) => .ok doc
        | _ => .error invalidHolder
      .require (doc.id.kind = kind ∧ doc.id.requestId = requestId ∧ doc.seq = seq ∧
        token ∈ doc.scope) invalidHolder
      if excluded = some doc.id then .ok none
      else .ok (some (claimFromDoc rows doc (heldSeq requestDoc.body)))

/-- Refuse a command whose scope an open claim holds a token of. -/
def checkScope (rows : ProjectRows) (command : Command) (excluded : Option ClaimId) :
    Except StoreError Unit :=
  if command.scope = [] then .ok ()
  else do
    let holders ← command.scope.mapM (store.scopeHolder rows excluded)
    match blocking command.scope (holders.filterMap id) command.recordedAt with
    | none => .error (.unavailable "an invalid lease time")
    | some (some block) => .error (.blocked block)
    | some none => .ok ()

variable {α : Type}

/-- Run the decision of a new request and write what it did. -/
def runNew (command : Command) (head : Option Head) (entry : Entry) (own : Option Claim)
    (new : Option Claim → Turn α) (db : Db) : Except StoreError (CommandResult α × Db) := do
  let rows := db.rows command.project
  store.checkReadable command.project rows
  store.checkScope rows command (entry.excluded own)
  let (value, work) ← new own (Work.new command db head rows.liveGen)
  -- An operation that failed fails the command, even when the decision went on past the error.
  match work.failed with
  | some error => .error error
  | none => do
      work.checkPayloadsAttached
      let (head, db) ← work.write store
      .ok (.new value head, db)

/-- What an open request answers: its owner may complete it, a claim finds it in progress, and it
blocks every other command. -/
def openRequest (command : Command) (entry : Entry) (document : Document) (doc : ClaimDoc)
    (state : RequestState) (replay : Db → RequestState → Nat → Except StoreError α)
    (run : Option Claim → Db → Except StoreError (CommandResult α × Db)) (db : Db) :
    Except StoreError (CommandResult α × Db) := do
  let rows := db.rows command.project
  match entry with
  | .complete owner => do
      .require ((document.body.get? "state").bind Value.asStr ≠ some "awaiting_owner")
        (.refused (.awaitingOwner doc.id))
      .require (doc.owner = owner) (.refused (.notClaimOwner doc.id))
      .require (doc.scope = command.scope)
        (.refused (.scopeMismatch doc.id command.scope doc.scope))
      run (some (claimFromDoc rows doc none)) db
  | .claim => do
      let value ← replay db state document.producedSeq
      .ok (.replayed value, db)
  | _ =>
      match claimState (claimFromDoc rows doc (heldSeq document.body)) command.recordedAt with
      | none => .error (.unavailable "an invalid lease time")
      | some state => .error (.blocked { claim := doc.id, state })

/-- One command inside the write transaction: the project, the request and then the decision. -/
def commandTurn (command : Command) (entry : Entry)
    (replay : Db → RequestState → Nat → Except StoreError α) (new : Option Claim → Turn α)
    (db : Db) : Except StoreError (CommandResult α × Db) := do
  let head ← storedHead db command.project
  let run := fun own => store.runNew command head entry own new
  match ← store.lookupRequest (db.rows command.project) ⟨command.kind, command.requestId⟩ with
  | some document =>
      match requestState document.body with
      | none => .error (.unavailable "a request document that holds no state")
      | some state => do
          .require (state.digest = command.digest)
            (.refused (.requestDigestMismatch command.requestId))
          match state with
          | .completed digest outcome => do
              let outcome ← replayedOutcome db command.project document.producedSeq outcome
              let value ← replay db (.completed digest outcome) document.producedSeq
              .ok (.replayed value, db)
          | .claimed doc => openRequest command entry document doc state replay run db
          | .awaitingOwner doc _ => openRequest command entry document doc state replay run db
  | none =>
      match entry with
      | .complete _ =>
          .error (.refused (.unknownClaim ⟨command.kind, command.requestId⟩))
      | _ => run none db

end Store

/-- Run the turn of a command and complete the command's own request with its outcome. -/
def Work.completing {α : Type} (store : Store)
    (new : Turn (α × Outcome × Option GitFacts × Option Observed)) : Turn α := do
  let (result, outcome, git, observed) ← new
  let _ ← Work.finish store outcome git observed
  pure result

/-- A write transaction: everything the body did is committed, or nothing is. -/
def transaction {α : Type} (engine : Engine) (body : Db → Except StoreError (α × Db)) (db : Db) :
    Except StoreError α × Db :=
  match body db with
  | .error error => (.error error, db)
  | .ok (value, written) =>
      match engine.commit with
      | some error => (.error error, db)
      | none => (.ok value, written)

namespace Store

variable (store : Store) {α : Type}

/-- The common path of all command entries. -/
def commandPathFor (engine : Engine) (command : Command) (entry : Entry)
    (replay : Db → RequestState → Nat → Except StoreError α) (new : Option Claim → Turn α)
    (db : Db) : Except StoreError (CommandResult α) × Db :=
  match UtcInstant.parse command.recordedAt with
  | none => (.error (.invalidEvent "recorded_at is not a UTC instant"), db)
  | some _ => transaction engine (store.commandTurn command entry replay new) db

/-- The path of commands that complete their own request. -/
def commandPath (engine : Engine) (command : Command)
    (replay : Db → Outcome → Nat → Except StoreError α)
    (new : Turn (α × Outcome × Option GitFacts × Option Observed)) (db : Db) :
    Except StoreError (CommandResult α) × Db :=
  store.commandPathFor engine command .ordinary
    (fun db state seq =>
      match state with
      | .completed _ outcome => replay db outcome seq
      | _ => .error (.unavailable "a request that cannot replay"))
    (fun _ => Work.completing store new)
    db

end Store

end Baley
