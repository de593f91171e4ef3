import Baley.Script
import Baley.Store.Documents

/-!
# One command's decision at work

A decision's events, document changes and anchor rows are held in memory until it returns; bodies,
leases and released references are written as it goes.  Every error an operation returns to the
decision is noted and fails the command, whatever the decision does next.
-/

namespace Baley

open Json

/-- One command's decision at work inside the write transaction. -/
structure Work where
  command : Command
  /-- The rows as the transaction has them. -/
  db : Db
  /-- The head after the events appended so far. -/
  head : Option Head
  /-- The live generation, the only one a command reads or writes. -/
  generation : Nat
  events : List (Event × List PayloadRef)
  /-- Each stream's version after the events appended so far. -/
  streams : Table StreamName Nat
  staged : Staging
  /-- Every payload the decision stored, each of which an event must attach. -/
  put : List Hash
  /-- Anchor rows the decision recorded, written with the events. -/
  anchors : List (Nat × AnchorRow)
  /-- The first error any operation returned, which fails the command. -/
  failed : Option StoreError

/-- A step of a command: it changes the work or fails the command. -/
abbrev Turn (α : Type) := Attempt Work StoreError α

/-- The first row of an event of a project at a sequence. -/
def ProjectRows.event? (rows : ProjectRows) (seq : Nat) : Option EventRow :=
  rows.events.find? fun row => row.seq = seq

/-- The payload of an event row, as the store reads it back. -/
def EventRow.payload? (row : EventRow) : Option Value :=
  readDocument recursionLimit row.payloadJson

/-- The highest version of a stream among the stored events. -/
def ProjectRows.streamVersion (rows : ProjectRows) (stream : StreamName) : Nat :=
  ((rows.events.filter fun row => row.stream = stream).map EventRow.streamVersion).foldr max 0

def fieldsMatch (payload : Value) (matching : EventMatch) : Bool :=
  matching.fields.all fun field =>
    match payload.get? field.1 with
    | some value => value == field.2
    | none => false

/-- Whether a stored event of the project matches; a candidate that does not parse is an error. -/
def storedEventExists (rows : ProjectRows) (matching : EventMatch) : Except StoreError Bool :=
  (rows.events.filter fun row =>
      row.typeName = matching.typeName && matching.stream.all fun stream => row.stream = stream).foldlM
    (fun found row =>
      if found then .ok true
      else
        match row.payload? with
        | some payload => .ok (fieldsMatch payload matching)
        | none => .error (.unavailable "a stored payload"))
    false

/-- A claim from a request document and its matching lease row. -/
def claimFromDoc (rows : ProjectRows) (doc : ClaimDoc) (heldSeq : Option Nat) : Claim where
  id := doc.id
  seq := doc.seq
  claimedAt := doc.claimedAt
  intent := doc.intent
  scope := doc.scope
  owner := doc.owner
  leaseRenewedAt :=
    match rows.leases.lookup doc.id with
    | some lease => if lease.claimSeq = doc.seq then some lease.renewedAt else none
    | none => none
  awaitingOwner := heldSeq

/-- Store bytes once under their hash.  A body that was reduced or purged is refused. -/
def putPayload (store : Store) (db : Db) (bytes : List UInt8) (retention : RetentionClass) :
    Except StoreError (PayloadRef × Db) := do
  let hash := store.sha256 bytes
  let reference : PayloadRef := { hash, bytes := bytes.length, retention }
  match db.payloads.lookup hash with
  | some row =>
      if row.isPresent then .ok (reference, db) else .error (.refused (.payloadTombstoned hash))
  | none => do
      let length ← sqlInt bytes.length
      let row : PayloadRow := { bytes := length, body := .present bytes }
      .ok (reference, { db with payloads := db.payloads.insert hash row })

namespace Work

/-- The rows of the command's own project. -/
def rows (work : Work) : ProjectRows :=
  work.db.rows work.command.project

def setRows (work : Work) (rows : ProjectRows) : Work :=
  { work with db := work.db.setRows work.command.project rows }

@[simp]
theorem rows_setRows (work : Work) (rows : ProjectRows) : (work.setRows rows).rows = rows := by
  simp [Work.rows, setRows]

/-- A decision about to run. -/
def new (command : Command) (db : Db) (head : Option Head) (generation : Nat) : Work where
  command
  db
  head
  generation
  events := []
  streams := ∅
  staged := ∅
  put := []
  anchors := []
  failed := none

/-- The sequence the next event will take. -/
def nextSeq (work : Work) : Nat :=
  work.head.elim 1 fun head => head.seq + 1

/-- The stream's version after the events appended so far. -/
def streamVersion (work : Work) (stream : StreamName) : Nat :=
  (work.streams.lookup stream).getD (work.rows.streamVersion stream)

/-- Refuse an attachment that is listed before, not carried, or not stored whole under its
length. -/
def checkAttachment (work : Work) (carried earlier : List PayloadRef) (attachment : PayloadRef) :
    Except StoreError Unit := do
  .require (∀ other ∈ earlier, other.hash ≠ attachment.hash)
    (.invalidEvent "an attachment is listed twice")
  .require (attachment ∈ carried)
    (.invalidEvent "an attachment is not carried in the event's payload")
  match work.db.payloads.lookup attachment.hash with
  | none => .error (.refused (.unknownPayload attachment.hash))
  | some row => do
      .require (row.isPresent = true) (.refused (.payloadTombstoned attachment.hash))
      .require (row.bytes = attachment.bytes)
        (.invalidEvent "an attachment's length is not its body's")

/-- Check the attachments from the one after `earlier` on. -/
def checkEach (work : Work) (carried : List PayloadRef) :
    List PayloadRef → List PayloadRef → Except StoreError Unit
  | _, [] => .ok ()
  | earlier, attachment :: attachments => do
      work.checkAttachment carried earlier attachment
      checkEach work carried (earlier ++ [attachment]) attachments

/-- Refuse an attachment the payload does not carry, a carried reference that is not attached, and
a reference to a body that is not stored whole. -/
def checkAttachments (work : Work) (event : NewEvent) : Except StoreError Unit := do
  match referencesIn event.payload with
  | none =>
      .error (.invalidEvent "an object with a payload reference's fields is not a reference")
  | some carried => do
      work.checkEach carried [] event.attachments
      .require (∀ reference ∈ carried, reference ∈ event.attachments)
        (.invalidEvent "the payload carries a reference that is not listed as an attachment")

variable (store : Store)

/-- Place an event after the head, run the projectors over it, and hold both until the command
writes. -/
def push (event : NewEvent) : Turn Nat := fun work => do
  .require (store.reads event.typeName event.typeVersion = true)
    (.refused (.unreadableType event.typeName event.typeVersion))
  work.checkAttachments event
  let streamVersion := work.streamVersion event.stream + 1
  let seq := work.nextSeq
  let draft : EventDraft :=
    { stream := event.stream, streamVersion, typeName := event.typeName
      typeVersion := event.typeVersion, actor := work.command.actor, caller := work.command.caller
      recordedAt := work.command.recordedAt, requestId := work.command.requestId, git := event.git
      policyVersion := work.command.policyVersion, payload := event.payload }
  let sealed ←
    (Event.seal store.sha256 work.command.project seq (work.head.map Head.hash) draft).mapError
      fun error => StoreError.invalidEvent error.message
  let copy ← (store.projectionCopy sealed).mapError StoreError.invalidEvent
  let staged ← store.fold work.rows.documents work.generation copy work.staged
  .ok (seq,
    { work with
      head := some ⟨seq, sealed.hash⟩, staged
      streams := work.streams.insert event.stream streamVersion
      events := work.events ++ [(sealed, event.attachments)] })

/-- Append one of the decision's own events. -/
def appendDomain (event : NewEvent) : Turn Nat := fun work =>
  if storeOwned event.typeName then
    .error (.invalidEvent
      (event.typeName ++ " is recorded by the store, not by a decision"))
  else push store event work

/-- Store a body that an event of the command must attach. -/
def putBody (bytes : List UInt8) (retention : RetentionClass) : Turn PayloadRef := fun work => do
  let (reference, db) ← putPayload store work.db bytes retention
  .ok (reference, { work with db, put := work.put ++ [reference.hash] })

/-- Refuse a payload the decision stored that no event attaches. -/
def checkPayloadsAttached (work : Work) : Except StoreError Unit :=
  work.put.forM fun hash =>
    .require (∃ event ∈ work.events, ∃ attachment ∈ event.2, attachment.hash = hash)
      (.refused (.unattachedPayload hash))

def getDocument (work : Work) (view : String) (key : DocKey) :
    Except StoreError (Option Document) := do
  let spec ← store.table view
  getStaged spec work.rows.documents work.generation work.staged key

def find (work : Work) (view : String) (query : IndexQuery) :
    Except StoreError (Page Document) := do
  let spec ← store.table view
  store.page work.db work.command.project work.generation work.staged spec query

def eventExists (work : Work) (matching : EventMatch) : Except StoreError Bool := do
  let appended := work.events.any fun event =>
    event.1.typeName = matching.typeName &&
      (matching.stream.all fun stream => stream = event.1.stream) &&
      fieldsMatch event.1.payload matching
  let stored ← storedEventExists work.rows matching
  .ok (appended || stored)

def expectVersion (work : Work) (stream : StreamName) (version : Nat) :
    Except StoreError Unit :=
  .require (work.streamVersion stream = version)
    (.stale (.streamVersion stream version (work.streamVersion stream)))

/-- Insert a claim among claims in sequence order. -/
def insertBySeq (claim : Claim) : List Claim → List Claim
  | [] => [claim]
  | head :: tail =>
      if claim.seq ≤ head.seq then claim :: head :: tail else head :: insertBySeq claim tail

/-- The open claim of a document of the `request` view. -/
def openClaim (rows : ProjectRows) (document : Document) : Except StoreError Claim :=
  match requestState document.body with
  | some (.claimed doc) => .ok (claimFromDoc rows doc none)
  | some (.awaitingOwner doc seq) => .ok (claimFromDoc rows doc (some seq))
  | some (.completed ..) => .error (.unavailable "an open request index names a completion")
  | none => .error (.unavailable "a request document that holds no state")

/-- Every document of the `request` view in one of the two open states, staged over stored. -/
def openDocuments (work : Work) : Except StoreError (List Document) := do
  let stored ← (work.rows.documents.rows.filter fun row =>
      row.1.1 = work.generation && row.1.2.1 = requestView &&
        (work.staged.lookup (requestView, row.1.2.2)).isNone &&
        ((row.2.columns.contains ("state", .text "claimed")) ||
          row.2.columns.contains ("state", .text "awaiting_owner"))).mapM
    fun row => row.2.document row.1.2.2
  let staged := work.staged.rows.filterMap fun row =>
    if row.1.1 = requestView then (row.2.document requestSpec row.1.2).filter fun document =>
      ["claimed", "awaiting_owner"].any fun state =>
        ((document.body.get? "state").bind Value.asStr) = some state
    else none
  .ok (stored ++ staged)

/-- Every open claim in sequence order with matching lease rows. -/
def openClaims (work : Work) : Except StoreError (List Claim) := do
  let claims ← (← work.openDocuments).mapM (openClaim work.rows)
  .ok (claims.foldr insertBySeq [])

/-- Stage an anchor row after checking it against the command's own `anchor.pushed` event and any
row already recorded for its sequence. -/
def stageAnchor (anchor : Anchor) (tag remote observedAt : String) : Turn Unit := fun work => do
  .require (tag = anchorTag work.command.project anchor.seq)
    (.invalidEvent (tag ++ " is not the anchor tag of sequence " ++ anchor.seq.repr ++
      " in this project"))
  let expected : AnchorPushedPayload :=
    { tag, seq := anchor.seq, head := anchor.hash, remote, observedAt }
  .require
    (∃ event ∈ work.events, event.1.typeName = anchorPushed ∧
      event.1.typeVersion = anchorPushedVersion ∧ event.1.stream = anchorStream ∧
      AnchorPushedPayload.fromValue event.1.payload = some expected)
    (.invalidEvent "an anchor row needs a matching anchor.pushed event in the same command")
  let row : AnchorRow := { headHash := anchor.hash, tag, pushedAt := observedAt }
  let earlier := (work.rows.anchors.lookup anchor.seq).or
    ((work.anchors.find? fun staged => staged.1 = anchor.seq).map Prod.snd)
  match earlier with
  | some earlier => do
      -- The same row again changes nothing.
      .require (earlier = row)
        (.invalidEvent ("an anchor row for sequence " ++ anchor.seq.repr ++
          " already records another hash, tag or time"))
      .ok ((), work)
  | none => .ok ((), { work with anchors := work.anchors ++ [(anchor.seq, row)] })

end Work

end Baley
