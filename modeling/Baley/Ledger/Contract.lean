import Baley.Interleaving
import Baley.Store.Command

/-!
# What the store's port promises

One project as a caller of the port sees it.  A read may fail at any time and changes nothing; a
command's decision works on the project as it stands in its own transaction, and everything it
appended is recorded, or nothing is.
-/

namespace Baley

open Json

/-- The documents of all views, by view and key. -/
abbrev ViewDocuments := Table (String × DocKey) Document

/-- One project: its events in order and the documents of its views. -/
structure Ledger where
  events : List Event
  documents : ViewDocuments

namespace Ledger

/-- A project that was just created. -/
def empty : Ledger := ⟨[], ∅⟩

/-- The document of a view at a key. -/
def document (ledger : Ledger) (view : String) (key : DocKey) : Option Document :=
  ledger.documents.lookup (view, key)

/-- Put or delete the document of one change, stamped with the event that made it. -/
def change (spec : ViewSpec) (seq : Nat) (documents : ViewDocuments) : Change → ViewDocuments
  | .put key body =>
      documents.insert (spec.name, key)
        { key, producedSeq := seq, projectorVersion := spec.version, body }
  | .delete key => documents.erase (spec.name, key)

/-- Fold an event into the documents of one view. -/
def project (event : Event) (documents : ViewDocuments) (projector : Projector) :
    Except String ViewDocuments :=
  if projector.handles.contains event.typeName then do
    let given := (projector.keys event).filterMap fun key =>
      (documents.lookup (projector.spec.name, key)).map fun document => (key, document.body)
    let changes ← projector.apply event given
    .ok (changes.foldl (change projector.spec event.seq) documents)
  else .ok documents

/-- Record an event and fold it into every view. -/
def append (projectors : List Projector) (ledger : Ledger) (event : Event) :
    Except String Ledger := do
  let documents ← projectors.foldlM (project event) ledger.documents
  .ok { events := ledger.events ++ [event], documents }

/-- Whether a recorded event matches. -/
def holdsEvent (ledger : Ledger) (matching : EventMatch) : Bool :=
  ledger.events.any fun event =>
    event.typeName = matching.typeName &&
      (matching.stream.all fun stream => stream = event.stream) &&
      fieldsMatch event.payload matching

/-- Whether a document of the view has these values for a leading prefix of the index. -/
def holdsDocument (ledger : Ledger) (view : String) (fields : List FieldSpec)
    (equals : List KeyValue) : Bool :=
  ledger.documents.rows.any fun row =>
    row.1.1 = view && (fields.zip equals).all fun field => field.1.read row.2.body = some field.2

/-- The event a command records for one of its decision's: placed after the last one, under the
command's own stamp. -/
structure Stamps (command : Command) (new : NewEvent) (ledger : Ledger) (event : Event) : Prop where
  projectId_eq : event.projectId = command.project
  seq_eq : event.seq = ledger.events.length + 1
  seq_le : event.seq ≤ maxSqlInt
  stream_eq : event.stream = new.stream
  typeName_eq : event.typeName = new.typeName
  typeVersion_eq : event.typeVersion = new.typeVersion
  actor_eq : event.actor = command.actor
  caller_eq : event.caller = command.caller
  recordedAt_eq : event.recordedAt = command.recordedAt
  requestId_eq : event.requestId = command.requestId
  git_eq : event.git = new.git
  policyVersion_eq : event.policyVersion = command.policyVersion
  payload_eq : event.payload = new.payload

end Ledger

/-- What a ledger is opened with: the store's own projectors and the core's, and which documents of
a view lie after a cursor it issued. -/
structure Port where
  projectors : List Projector
  /-- No view is declared twice. -/
  views_nodup :
    ((claimScopeProjector :: requestProjector :: projectors).map fun projector =>
      projector.spec.name).Nodup
  beyond : String → Document → Prop

namespace Port

variable (port : Port)

/-- The projectors, the store's own first. -/
def allProjectors : List Projector :=
  claimScopeProjector :: requestProjector :: port.projectors

/-- The declared index of a view. -/
def index? (view index : String) : Option IndexSpec := do
  let projector ← port.allProjectors.find? fun projector => projector.spec.name = view
  projector.spec.indexes.find? fun declared => declared.name = index

/-- Whether a document answers a query: it has the values asked for and lies after its cursor. -/
def Answers (fields : List FieldSpec) (query : IndexQuery) (document : Document) : Prop :=
  (∀ field ∈ fields.zip query.equals, field.1.read document.body = some field.2) ∧
    ∀ cursor ∈ query.after, port.beyond cursor document

/-- A page of a query: documents that answer it, and every such document unless it lies after the
page's own cursor. -/
structure Pages (ledger : Ledger) (view : String) (query : IndexQuery) (page : Page Document) :
    Prop where
  declared : ∃ index, port.index? view query.index = some index
  held : ∀ document ∈ page.items, ledger.document view document.key = some document
  complete : ∀ index, port.index? view query.index = some index → ∀ key document,
    ledger.document view key = some document → port.Answers index.columns query document →
      document ∈ page.items ∨ ∃ cursor ∈ page.next, port.beyond cursor document

end Port

/-! ## One decision at work -/

/-- A command's decision at work: the project with what it appended so far, and whether one of its
operations failed, which fails the command. -/
structure Draft where
  ledger : Ledger
  failed : Bool

namespace Draft

/-- A read returns what holds, or fails the command. -/
def Reads {α : Type} (draft after : Draft) (reply : Except StoreError α) (holds : α → Prop) : Prop :=
  match reply with
  | .ok value => after = draft ∧ holds value
  | .error _ => after = { draft with failed := true }

/-- What an operation of a decision may do. -/
def Performs (port : Port) (command : Command) :
    Script.Acts Operation Operation.Reply Draft
  | .get view key, draft, reply, after =>
      Reads draft after reply fun found => found = draft.ledger.document view key
  | .find view query, draft, reply, after =>
      Reads draft after reply (port.Pages draft.ledger view query)
  | .eventExists matching, draft, reply, after =>
      Reads draft after reply fun found => found = draft.ledger.holdsEvent matching
  | .append new _, draft, reply, after =>
      match reply with
      | .ok seq =>
          storeOwned new.typeName = false ∧ ∃ event ledger,
            Ledger.Stamps command new draft.ledger event ∧ seq = event.seq ∧
            draft.ledger.append port.allProjectors event = .ok ledger ∧
            after = { draft with ledger }
      | .error _ => after = { draft with failed := true }
  | .head, draft, _, after => after = draft
  | .expect _ _, draft, reply, after => Reads draft after reply fun _ => True
  | .putPayload _ _, draft, reply, after => Reads draft after reply fun _ => True
  | .openClaims, draft, reply, after => Reads draft after reply fun _ => True
  | .recordAnchor _ _ _ _, draft, reply, after => Reads draft after reply fun _ => True

end Draft

/-! ## Commands -/

/-- A decision and what it noted for its caller, which it keeps even when it fails. -/
abbrev Noting (γ α : Type) := Script Operation Operation.Reply (Except StoreError α × γ)

namespace Ledger

variable (port : Port)

/-- What the caller observed is still so. -/
structure Unmoved (ledger : Ledger) (observed : Observed) : Prop where
  documents : ∀ seen ∈ observed.documents,
    (ledger.document seen.view seen.key).map Document.producedSeq = seen.producedSeq
  events : ∀ matching, Absence.event matching ∈ observed.absences →
    ledger.holdsEvent matching = false
  absent : ∀ view index equals, Absence.documents view index equals ∈ observed.absences →
    ∃ declared, port.index? view index = some declared ∧
      ledger.holdsDocument view declared.columns equals = false
  git : ∀ seen ∈ observed.git, seen.headSeen = seen.headNow ∧ seen.indexSeen = seen.indexNow

/-- The `command.completed` a command's own request ends with. -/
def completedEvent (command : Command) (outcome : Outcome) (git : Option GitFacts) : NewEvent :=
  { stream := commandStream command.kind, typeName := commandCompleted
    typeVersion := commandCompletedVersion, git
    payload := completedPayloadFor command.kind command.requestId command.digest [] outcome
    attachments := outcome.answer.attachments }

/-- An outcome carries its decision's answer, or a reference to it. -/
def Delivers (decision : Decision) (outcome : Outcome) : Prop :=
  outcome.kind = decision.kind ∧
    (outcome.answer = .inline decision.answer ∨ ∃ reference, outcome.answer = .stored reference)

/-- A recorded outcome as a retry receives it: a stored answer that was released is replaced by what
became of it. -/
def Replays (recorded replayed : Outcome) : Prop :=
  replayed.kind = recorded.kind ∧
    (replayed.answer = recorded.answer ∨ ∃ reference status, recorded.answer = .stored reference ∧
      replayed.answer = .tombstone reference status)

/-- The request document of a command. -/
def request (ledger : Ledger) (command : Command) : Option Document :=
  ledger.document requestView (requestKey command)

/-- A command of a new request that ran: its decision ended in a draft, what was observed is as it
was in the project the command found, and the request was completed. -/
structure Commits {γ : Type} (command : Command) (decide : Noting γ Decision)
    (before : Ledger) (decision : Decision) (noted : γ) (drafted : Ledger) (outcome : Outcome)
    (after : Ledger) : Prop where
  fresh : before.request command = none
  decided : Script.Runs (Draft.Performs port command) decide ⟨before, false⟩
    (.ok decision, noted) ⟨drafted, false⟩
  unmoved : before.Unmoved port decision.observed
  delivers : Delivers decision outcome
  completed : ∃ event, Stamps command (completedEvent command outcome decision.git) drafted event ∧
    drafted.append port.allProjectors event = .ok after

/-- What a database-only command may do. -/
inductive Transacts {γ : Type} (command : Command) (decide : Noting γ Decision) (ledger : Ledger) :
    Except StoreError Recorded × Option γ → Ledger → Prop
  /-- It failed before its decision was asked. -/
  | refused (error : StoreError) : Transacts command decide ledger (.error error, none) ledger
  /-- It failed after its decision was asked, whatever the decision said. -/
  | failed (error : StoreError) {result : Except StoreError Decision} {noted : γ} {drafted : Draft}
      (fresh : ledger.request command = none)
      (decided : Script.Runs (Draft.Performs port command) decide ⟨ledger, false⟩
        (result, noted) drafted) :
      Transacts command decide ledger (.error error, some noted) ledger
  /-- It was answered from its request. -/
  | replayed {document : Document} {digest : Hash} {outcome replayed : Outcome}
      (found : ledger.request command = some document)
      (state_eq : requestState document.body = some (.completed digest outcome))
      (digest_eq : digest = command.digest) (replays : Replays outcome replayed) :
      Transacts command decide ledger (.ok (.replayed replayed), none) ledger
  /-- It was recorded. -/
  | recorded {decision : Decision} {noted : γ} {drafted after : Ledger} {outcome : Outcome}
      (head : Head) (head_eq : head.seq = after.events.length)
      (commits : Commits port command decide ledger decision noted drafted outcome after) :
      Transacts command decide ledger (.ok (.new outcome head), some noted) after

end Ledger

/-- One call of the port by a caller that notes `γ` in its decisions. -/
inductive LedgerCall (γ : Type) where
  | get (view : String) (key : DocKey)
  | find (view : String) (query : IndexQuery)
  | transact (command : Command) (decide : Noting γ Decision)

namespace LedgerCall

variable {γ : Type}

/-- What a call returns; a command also returns what its decision noted, once it was asked. -/
def Reply : LedgerCall γ → Type
  | .get .. => Except StoreError (Option Document)
  | .find .. => Except StoreError (Page Document)
  | .transact .. => Except StoreError Recorded × Option γ

/-- What a call may do to the project. -/
def Performs (port : Port) : Script.Acts (LedgerCall γ) Reply Ledger
  | .get view key, before, reply, after =>
      after = before ∧ ∀ found, reply = .ok found → found = before.document view key
  | .find view query, before, reply, after =>
      after = before ∧ ∀ page, reply = .ok page → port.Pages before view query page
  | .transact command decide, before, reply, after =>
      before.Transacts port command decide reply after

end LedgerCall

end Baley
