import Baley.Store.Work

/-!
# The shared command write path

Before the request lookup nothing is written; after it the decision runs, what it observed is
re-checked against the store as the command found it, and everything is written in one transaction
or not at all.
-/

namespace Baley

open Json

/-- What a decision can ask of its transaction. -/
inductive Operation where
  | get (view : String) (key : DocKey)
  | find (view : String) (query : IndexQuery)
  | eventExists (matching : EventMatch)
  | expect (stream : StreamName) (version : Nat)
  | append (event : NewEvent) (wellFormed : event.payload.WellFormed)
  | putPayload (bytes : List UInt8) (retention : RetentionClass)
  | openClaims
  | head
  | recordAnchor (anchor : Anchor) (tag remote observedAt : String)

/-- What each operation returns to the decision. -/
def Operation.Reply : Operation → Type
  | .get .. => Except StoreError (Option Document)
  | .find .. => Except StoreError (Page Document)
  | .eventExists _ => Except StoreError Bool
  | .expect .. => Except StoreError Unit
  | .append .. => Except StoreError Nat
  | .putPayload .. => Except StoreError PayloadRef
  | .openClaims => Except StoreError (List Claim)
  | .head => Option Head
  | .recordAnchor .. => Except StoreError Unit

/-- A decision: it acts on the store through its operations only. -/
abbrev Decide (α : Type) := Script Operation Operation.Reply (Except StoreError α)

/-- Where the engine fails: at an operation of the decision, or at any point after it up to the
commit. -/
structure Engine where
  operation : Operation → Work → Option StoreError
  commit : Option StoreError

/-- An engine that does not fail. -/
def Engine.sound : Engine where
  operation := fun _ _ => none
  commit := none

namespace Work

/-- The turn, unless the engine fails in it. -/
def under {α : Type} (fault : Option StoreError) (turn : Turn α) : Turn α :=
  match fault with
  | some error => fun _ => .error error
  | none => turn

/-- Pass an operation's result through, keeping its error, or the engine's, to fail the command. -/
def noted {α : Type} (fault : Option StoreError) (turn : Turn α) (work : Work) :
    Except StoreError α × Work :=
  match under fault turn work with
  | .ok (value, work) => (.ok value, work)
  | .error error => (.error error, { work with failed := work.failed.or (some error) })

/-- A read of the work as it stands. -/
def reading {α : Type} (read : Work → Except StoreError α) : Turn α := fun work =>
  (read work).map fun value => (value, work)

variable (store : Store) (engine : Engine)

/-- Every operation's error is noted, so a decision that goes on past one still fails the
command. -/
def handle : (operation : Operation) → Work → operation.Reply × Work
  | .get view key, work =>
      noted (engine.operation (.get view key) work) (reading fun work => work.getDocument store view key)
        work
  | .find view query, work =>
      noted (engine.operation (.find view query) work) (reading fun work => work.find store view query)
        work
  | .eventExists matching, work =>
      noted (engine.operation (.eventExists matching) work)
        (reading fun work => work.eventExists matching) work
  | .expect stream version, work =>
      noted (engine.operation (.expect stream version) work)
        (reading fun work => work.expectVersion stream version) work
  | .append event wellFormed, work =>
      noted (engine.operation (.append event wellFormed) work) (appendDomain store event) work
  | .putPayload bytes retention, work =>
      noted (engine.operation (.putPayload bytes retention) work) (putBody store bytes retention) work
  | .openClaims, work => noted (engine.operation .openClaims work) (reading openClaims) work
  | .head, work => (work.head, work)
  | .recordAnchor anchor tag remote observedAt, work =>
      noted (engine.operation (.recordAnchor anchor tag remote observedAt) work)
        (stageAnchor anchor tag remote observedAt) work

/-- Run a decision; its own error fails the command. -/
def decide {α : Type} (script : Decide α) : Turn α := fun work =>
  let (result, work) := script.run (handle store engine) work
  result.map fun value => (value, work)

/-- The outcome the caller receives: the answer inline when it is small and not sensitive, otherwise
stored as a payload. -/
def outcome (decision : Decision) : Turn Outcome := fun work =>
  match canonicalJson decision.answer with
  | .error error => .error (.invalidEvent error.message)
  | .ok bytes =>
      if decision.sensitive = false ∧ bytes.length ≤ inlineAnswerLimit then
        .ok ({ kind := decision.kind, answer := .inline decision.answer }, work)
      else
        (putPayload store work.db bytes .record).map fun stored =>
          ({ kind := decision.kind, answer := .stored stored.1 }, { work with db := stored.2 })

/-! ## The re-check of what was observed -/

def recheckGit (git : GitObservation) : Except StoreError Unit := do
  .require (git.headSeen = git.headNow)
    (.stale (.git git.checkout .head git.headSeen git.headNow))
  .require (git.indexSeen = git.indexNow)
    (.stale (.git git.checkout .index git.indexSeen git.indexNow))

def recheckDocument (work : Work) (seen : ObservedDocument) : Except StoreError Unit := do
  let spec ← store.table seen.view
  let found ← Baley.getDocument spec work.rows.documents work.generation seen.key
  let now := found.map Document.producedSeq
  .require (now = seen.producedSeq) (.stale (.document seen.view seen.key seen.producedSeq now))

/-- Whether a document of the view has these values for a leading prefix of the index. -/
def documentsExist (work : Work) (view index : String) (equals : List KeyValue) :
    Except StoreError Bool := do
  let spec ← store.table view
  match spec.indexes.find? fun declared => declared.name = index with
  | none => .error (.refused (.undeclaredIndex view index))
  | some declared => do
      let fields := declared.columns.take equals.length
      .require (equals.map KeyValue.kind = fields.map FieldSpec.kind)
        (malformed view (equals.length.repr ++ " equality values do not fit a prefix of the index " ++
          index))
      .ok (work.rows.documents.rows.any fun row =>
        row.1.1 = work.generation && row.1.2.1 = view &&
          (fields.zip equals).all fun field => row.2.columns.contains (field.1.name, field.2))

def recheckAbsence (work : Work) (absence : Absence) : Except StoreError Unit := do
  let present ←
    match absence with
    | .event matching => storedEventExists work.rows matching
    | .documents view index equals => work.documentsExist store view index equals
  .require (present = false) (.stale (.absence absence))

/-- Refuse the command as stale if anything its caller observed moved. -/
def recheck (observed : Observed) : Turn Unit := fun work => do
  observed.git.forM recheckGit
  observed.documents.forM (work.recheckDocument store)
  observed.absences.forM (work.recheckAbsence store)
  .ok ((), work)

/-! ## Completion and writing -/

/-- Append `command.completed` for a request. -/
def completeFor (kind : CommandKind) (requestId : RequestId) (digest : Hash) (scope : List String)
    (outcome : Outcome) (git : Option GitFacts) : Turn Nat :=
  push store
    { stream := commandStream kind, typeName := commandCompleted
      typeVersion := commandCompletedVersion, git
      payload := completedPayloadFor kind requestId digest scope outcome
      attachments := outcome.answer.attachments }

/-- Re-check what was observed and complete the command's own request. -/
def finish (outcome : Outcome) (git : Option GitFacts) (observed : Option Observed) :
    Turn Nat := do
  match observed with
  | some observed => recheck store observed
  | none => pure ()
  let work ← get
  completeFor store work.command.kind work.command.requestId work.command.digest [] outcome git

end Work

/-! ## Rows as they are written -/

/-- The caller's canonical text, or nothing for no caller. -/
def callerText (caller : Option Caller) : Except CanonicalError (Option String) :=
  match caller with
  | none => .ok none
  | some caller => (canonicalText caller.toValue).map some

/-- One event row, its payload as canonical text. -/
def EventRow.ofEvent (event : Event) : Except StoreError EventRow := do
  let payloadJson ← (canonicalText event.payload).mapError fun error =>
    StoreError.invalidEvent error.message
  let caller ← (callerText event.caller).mapError fun error =>
    StoreError.invalidEvent error.message
  let seq ← sqlInt event.seq
  let streamVersion ← sqlInt event.streamVersion
  let policyVersion ← sqlInt event.policyVersion
  .ok
    { seq, stream := event.stream, streamVersion, typeName := event.typeName
      typeVersion := event.typeVersion, actor := event.actor.asStr, caller
      recordedAt := event.recordedAt, requestId := event.requestId
      gitCommit := event.git.map GitFacts.commit, gitTree := event.git.map GitFacts.tree
      gitCheckout := event.git.map GitFacts.checkout, policyVersion, payloadJson
      prevHash := event.prevHash, hash := event.hash }

/-- Insert an event row; a sequence or a stream version that is taken is a conflict. -/
def insertEvent (rows : ProjectRows) (event : Event) : Except StoreError ProjectRows := do
  let row ← EventRow.ofEvent event
  .require (∀ other ∈ rows.events, other.seq ≠ row.seq ∧
      ¬ (other.stream = row.stream ∧ other.streamVersion = row.streamVersion))
    (.unavailable "a stored event conflicts")
  .ok { rows with events := rows.events ++ [row] }

/-- Record that an event uses a payload under its class. -/
def putReference (seq : Nat) (rows : ProjectRows) (reference : PayloadRef) :
    Except StoreError ProjectRows := do
  let row : RefRow := { retention := reference.retention, releasedSeq := none }
  let refs ← Except.ofOption (.unavailable "a stored reference conflicts")
    (rows.refs.create (seq, reference.hash) row)
  .ok { rows with refs }

/-- Insert an event with its references. -/
def insertWithReferences (rows : ProjectRows) (event : Event × List PayloadRef) :
    Except StoreError ProjectRows := do
  let rows ← insertEvent rows event.1
  event.2.foldlM (putReference event.1.seq) rows

def insertAnchor (rows : ProjectRows) (anchor : Nat × AnchorRow) :
    Except StoreError ProjectRows := do
  let anchors ← Except.ofOption (.unavailable "a stored anchor conflicts")
    (rows.anchors.create anchor.1 anchor.2)
  .ok { rows with anchors }

/-- Write the events, their references, each staged document once, the anchor rows and the new
head. -/
def Work.write (store : Store) (work : Work) : Except StoreError (Head × Db) := do
  let head ← Except.ofOption (.unavailable "a command that recorded no event") work.head
  let rows ← work.events.foldlM insertWithReferences work.rows
  let documents ← store.writeStaged work.generation work.staged rows.documents
  let rows ← work.anchors.foldlM insertAnchor { rows with documents }
  let headSeq ← sqlInt head.seq
  .ok (head,
    work.db.setRows work.command.project { rows with headSeq, headHash := some head.hash })

end Baley
