import Mathlib.Data.List.Dedup
import Baley.Store.Claims

/-!
# Reduction and purge

A reduction releases one output reference and keeps an excerpt in its place; a purge releases a
project's references to the named bodies and removes every body no reference requires.
-/

namespace Baley

open Json

/-! ## Sets as the events list them -/

/-- The hashes as a sorted list without repetition. -/
def sortedHashes (hashes : List Hash) : List Hash :=
  hashes.dedup.insertionSort fun first second => first.bytes ≤ second.bytes

/-- The released pairs as a sorted list without repetition. -/
def sortedPairs (pairs : List (Nat × Hash)) : List (Nat × Hash) :=
  pairs.dedup.insertionSort fun first second =>
    first.1 < second.1 ∨ first.1 = second.1 ∧ first.2.bytes ≤ second.2.bytes

@[simp]
theorem mem_sortedHashes {hashes : List Hash} {hash : Hash} :
    hash ∈ sortedHashes hashes ↔ hash ∈ hashes := by
  unfold sortedHashes
  rw [(List.perm_insertionSort _ _).mem_iff, List.mem_dedup]

@[simp]
theorem mem_sortedPairs {pairs : List (Nat × Hash)} {pair : Nat × Hash} :
    pair ∈ sortedPairs pairs ↔ pair ∈ pairs := by
  unfold sortedPairs
  rw [(List.perm_insertionSort _ _).mem_iff, List.mem_dedup]

/-! ## Answers of retention commands -/

def malformedData (what : String) : StoreError :=
  .unavailable ("a malformed " ++ what)

def inlineEvent (seq : Nat) : Outcome where
  kind := .done
  answer := .inline (.ofEntries [("event", .ofNat seq)])

def eventAnswer (outcome : Outcome) : Except StoreError Nat :=
  match outcome.answer with
  | .inline value => .ofOption (malformedData "retention answer") ((value.get? "event").bind Value.asU64)
  | _ => .error (malformedData "retention answer")

/-- The payload of the project's event at a sequence, which must have the expected type. -/
def retentionEvent (rows : ProjectRows) (seq : Nat) (expected : String) : Except StoreError Value := do
  let row ← .ofOption (.unavailable "Query returned no rows") (rows.event? seq)
  .require (row.typeName = expected) (malformedData "retention event type")
  .ofOption (malformedData "retention event") row.payload?

/-! ## Reduction -/

/-- The bytes an excerpt keeps: both edges of the body. -/
def excerptOf (body : List UInt8) : List UInt8 :=
  body.take excerptEdge ++ body.drop (body.length - excerptEdge)

/-- A reduction's reading of the reference it releases: the whole body and the ranges to keep. -/
def reducibleBody (store : Store) (command : Command) (reference : PayloadReference)
    (work : Work) : Except StoreError (List UInt8 × ((Nat × Nat) × (Nat × Nat))) := do
  let invalid : StoreError := .refused (.notReducible reference)
  .require (reference.project = command.project) invalid
  let row ← .ofOption invalid (work.rows.refs.lookup (reference.seq, reference.hash))
  let stored ← .ofOption invalid (work.db.payloads.lookup reference.hash)
  let event ← .ofOption invalid (work.rows.event? reference.seq)
  let ranges ← .ofOption invalid (keptRanges stored.bytes)
  .require (row.retention = .output ∧ row.releasedSeq = none) invalid
  match stored.body with
  | .present body => do
      let payload ← .ofOption (malformedData "reference event") event.payload?
      let carried ← .ofOption (malformedData "reference event")
        (referenceBytes reference.hash payload)
      .require (body.length = stored.bytes ∧ body.length = carried ∧
          store.sha256 body = reference.hash)
        (.unavailable "its body does not match its hash or length")
      .ok (body, ranges)
  | _ => .error invalid

namespace Work

/-- Release one reference of the command's project, unless it was released before. -/
def release (releasedSeq : Nat) (pair : Nat × Hash) : Turn Unit := fun work => do
  let releasedSeq ← sqlInt releasedSeq
  match work.rows.refs.lookup pair with
  | none => .ok ((), work)
  | some row =>
      if row.releasedSeq.isSome then .ok ((), work)
      else
        .ok ((), work.setRows
          { work.rows with
            refs := work.rows.refs.insert pair { row with releasedSeq := some releasedSeq } })

def setPayload (work : Work) (hash : Hash) (row : PayloadRow) : Work :=
  { work with db := { work.db with payloads := work.db.payloads.insert hash row } }

/-- Replace a body that nothing requires any more by its excerpt. -/
def reduceBody (hash excerpt : Hash) (kept : (Nat × Nat) × (Nat × Nat)) : Turn Unit :=
  fun work => do
    if work.db.required hash then .ok ((), work)
    else
      match work.db.payloads.lookup hash with
      | none => .ok ((), work)
      | some row => do
          .require (excerpt ≠ hash) (.unavailable "CHECK constraint failed: payload")
          .ok ((), work.setPayload hash { row with body := .reduced excerpt .record kept })

variable (store : Store)

/-- Reduce one live output reference to its first and last 64 KiB. -/
def reduceReference (command : Command) (reference : PayloadReference) :
    Turn (PayloadRef × Outcome × Option GitFacts × Option Observed) := do
  let (body, kept) ← reading (reducibleBody store command reference)
  let excerpt ← putBody store (excerptOf body) .record
  let seq ← push store
    { stream := retentionStream, typeName := payloadReduced, typeVersion := payloadReducedVersion
      git := none
      payload := ReducedEvent.toValue
        { seq := reference.seq, original := reference.hash, originalBytes := body.length, excerpt
          kept }
      attachments := [excerpt] }
  release seq (reference.seq, reference.hash)
  reduceBody reference.hash excerpt.hash kept
  pure (excerpt, inlineEvent seq, none, none)

end Work

/-! ## Purge -/

/-- The project's live references to a body, and to the excerpts its own reductions put in the
body's place. -/
def ownReferences (rows : ProjectRows) (hash : Hash) : Except StoreError (List (Nat × Hash)) := do
  let direct := (rows.refs.rows.filter fun reference =>
    reference.1.2 = hash && reference.2.releasedSeq.isNone).map Prod.fst
  let excerpts ← (rows.events.filter fun row => row.typeName = payloadReduced).mapM fun row => do
    let value ← Except.ofOption (malformedData "reduction event") row.payload?
    let reduction ← Except.ofOption (malformedData "reduction event") (ReducedEvent.fromValue value)
    let pair := (row.seq, reduction.excerpt.hash)
    let live := (rows.refs.lookup pair).any fun reference => reference.releasedSeq.isNone
    Except.ok (if reduction.original = hash ∧ live = true then some pair else none)
  let own := direct ++ excerpts.filterMap id
  .require (own ≠ []) (.refused (.nothingToPurge hash))
  .ok own

namespace Db

/-- Leave a purged body's reason in its place. -/
def tombstone (db : Db) (reason : String) (hash : Hash) : Db :=
  match db.payloads.lookup hash with
  | none => db
  | some row => { db with payloads := db.payloads.insert hash { row with body := .purged reason } }

/-- The originals a body is the excerpt of. -/
def reducedTo (db : Db) (excerpt : Hash) : List Hash :=
  (db.payloads.rows.filter fun row =>
    match row.2.body with
    | .reduced other .. => other = excerpt
    | _ => false).map Prod.fst

def presentCount (db : Db) : Nat :=
  db.payloads.rows.countP fun row => row.2.isPresent

theorem presentCount_tombstone {db : Db} {hash : Hash} {row : PayloadRow}
    (found : db.payloads.lookup hash = some row) (present : row.isPresent = true) (reason : String) :
    (db.tombstone reason hash).presentCount < db.presentCount := by
  have counted := Table.countP_put PayloadRow.isPresent found { row with body := .purged reason }
  rw [present, PayloadRow.isPresent_purged] at counted
  unfold tombstone presentCount
  simp only [found, Bool.toNat_true, Bool.toNat_false] at counted ⊢
  omega

theorem presentCount_tombstone_of_not {db : Db} {hash : Hash} {row : PayloadRow}
    (found : db.payloads.lookup hash = some row) (absent : row.isPresent = false)
    (reason : String) : (db.tombstone reason hash).presentCount = db.presentCount := by
  have counted := Table.countP_put PayloadRow.isPresent found { row with body := .purged reason }
  rw [absent, PayloadRow.isPresent_purged] at counted
  unfold tombstone presentCount
  simp only [found, Bool.toNat_false] at counted ⊢
  omega

/-- Take one body off the stack: it is removed when nothing requires it.  A removed excerpt puts the
originals it stood for on the stack, and such an original goes with it. -/
def removeStep (db : Db) (reason : String) (hash : Hash) (stack removed : List Hash) :
    Db × List Hash × List Hash :=
  if removed.contains hash || db.required hash then (db, stack, removed)
  else
    match db.payloads.lookup hash with
    | none => (db, stack, removed)
    | some row =>
        match row.body with
        | .present _ =>
            (db.tombstone reason hash, (db.reducedTo hash).reverse ++ stack, hash :: removed)
        | .reduced excerpt _ _ =>
            if removed.contains excerpt then (db.tombstone reason hash, stack, hash :: removed)
            else (db, stack, removed)
        | .purged _ => (db, stack, removed)

/-- A step removes a present body or shortens the stack. -/
theorem removeStep_decreases (db : Db) (reason : String) (hash : Hash) (stack removed : List Hash) :
    let next := db.removeStep reason hash stack removed
    Prod.Lex (· < ·) (· < ·) (next.1.presentCount, next.2.1.length)
      (db.presentCount, (hash :: stack).length) := by
  have skips : Prod.Lex (· < ·) (· < ·) (db.presentCount, stack.length)
      (db.presentCount, (hash :: stack).length) := Prod.Lex.right _ (by simp)
  simp only [removeStep]
  split_ifs
  · exact skips
  · split
    · exact skips
    · next row found =>
        split
        · next body body_eq =>
            exact Prod.Lex.left _ _
              (presentCount_tombstone found (by simp [PayloadRow.isPresent, body_eq]) reason)
        · next excerpt retention kept body_eq =>
            split_ifs
            · rw [presentCount_tombstone_of_not found (by simp [PayloadRow.isPresent, body_eq])
                reason]
              exact skips
            · exact skips
        · exact skips

/-- Remove every body on the stack that nothing requires. -/
def removeUnrequired (db : Db) (reason : String) (stack removed : List Hash) : Db × List Hash :=
  match stack with
  | [] => (db, removed)
  | hash :: stack =>
      let next := db.removeStep reason hash stack removed
      next.1.removeUnrequired reason next.2.1 next.2.2
  termination_by (db.presentCount, stack.length)
  decreasing_by exact db.removeStep_decreases reason hash stack removed

/-- What every step keeps, the removal keeps until its stack is empty. -/
theorem removeUnrequired_holds {reason : String} {motive : Db → List Hash → List Hash → Prop}
    (step : ∀ db hash stack removed, motive db (hash :: stack) removed →
      let next := db.removeStep reason hash stack removed
      motive next.1 next.2.1 next.2.2)
    (db : Db) (stack removed : List Hash) (first : motive db stack removed) :
    motive (db.removeUnrequired reason stack removed).1 []
      (db.removeUnrequired reason stack removed).2 := by
  induction db, stack, removed using Db.removeUnrequired.induct reason with
  | case1 db removed =>
      rw [removeUnrequired]
      exact first
  | case2 db removed hash stack next ih =>
      rw [removeUnrequired]
      exact ih (step db hash stack removed first)

/-- Whether an export received a body through a reference that was live at its head, the body's own
or one of an original it is the excerpt of; a pending export is asked no head. -/
def exportHolds (db : Db) (rows : ProjectRows) (exported : ExportRow) (hash : Hash) : Bool :=
  rows.refs.rows.any fun reference =>
    (reference.1.2 = hash ||
      match (db.payloads.lookup reference.1.2).map PayloadRow.body with
      | some (.reduced excerpt _ _) => excerpt = hash
      | _ => false) &&
    match exported.headSeq with
    | none => true
    | some head =>
        reference.1.1 ≤ head && reference.2.releasedSeq.all fun released => head < released

/-- The targets of the exports that received a removed or shared body. -/
def exportTargets (db : Db) (event : PurgedEvent) : List String :=
  (db.projects.rows.flatMap fun project =>
    (project.2.exports.rows.filter fun exported =>
      (event.removed ++ event.shared).any fun hash =>
        db.exportHolds project.2 exported.2 hash).map fun exported => exported.2.target).dedup

end Db

/-- What a purge answers: its event, the event's data and the exports it cannot reach. -/
structure PurgeAnswer where
  seq : Nat
  event : PurgedEvent
  exports : List String

/-- A purge's report. -/
structure PurgeReport where
  purged : List Hash
  shared : List Hash
  recorded : List (ProjectId × Nat)
  unreachable : List String
  scrubbed : Bool

namespace Work

/-- Release the references one after the other. -/
def releaseAll (releasedSeq : Nat) : List (Nat × Hash) → Turn Unit
  | [] => pure ()
  | pair :: pairs => do
      release releasedSeq pair
      releaseAll releasedSeq pairs

/-- Remove what nothing requires and keep the rest as shared: released bodies still required, and
requested originals whose excerpt is. -/
def removeBodies (requested : List Hash) (release : List (Nat × Hash)) (reason : String) :
    Turn PurgedEvent := fun work => do
  let releasedHashes := sortedHashes (release.map Prod.snd)
  let (db, removed) := work.db.removeUnrequired reason releasedHashes.reverse []
  let reduced ← requested.mapM fun hash => do
    if removed.contains hash then Except.ok none
    else do
      let row ← Except.ofOption (.unavailable "Query returned no rows") (db.payloads.lookup hash)
      .ok (if row.isReduced then some hash else none)
  let shared := releasedHashes.filter (fun hash => !removed.contains hash) ++ reduced.filterMap id
  .ok
    ({ requested, released := sortedPairs release, removed := sortedHashes removed
       shared := sortedHashes shared, reason },
      { work with db })

variable (store : Store)

/-- Release the project's references to the named bodies and remove what nothing requires. -/
def purgeBodies (command : Command) (hashes : List Hash) (reason : String) :
    Turn (PurgeAnswer × Outcome × Option GitFacts × Option Observed) := do
  (Except.require (hashes ≠ []) (.invalidEvent "a purge names no hash")).attempt
  let requested := sortedHashes hashes
  let work ← get
  let own ← (requested.mapM (ownReferences work.rows)).attempt
  let release := own.flatten
  releaseAll work.nextSeq (sortedPairs release)
  let event ← removeBodies requested release reason
  let work ← get
  let exports := work.db.exportTargets event
  let seq ← push store
    { stream := retentionStream, typeName := payloadPurged, typeVersion := payloadPurgedVersion
      git := none, payload := event.toValue, attachments := [] }
  modify fun work => { work with db := { work.db with scrubPending := some command.recordedAt } }
  pure ({ seq, event, exports }, inlineEvent seq, none, none)

end Work

namespace Store

variable (store : Store)

/-- Reduce one live output reference. -/
def reduce (engine : Engine) (command : Command) (reference : PayloadReference) (db : Db) :
    Except StoreError PayloadRef × Db :=
  resultOf CommandResult.value <|
    store.commandPath engine command
      (fun db outcome _ => do
        let seq ← eventAnswer outcome
        let value ← retentionEvent (db.rows command.project) seq payloadReduced
        let reduced ← .ofOption (malformedData "reduction") (ReducedEvent.fromValue value)
        .ok reduced.excerpt)
      (Work.reduceReference store command reference)
      db

/-- Commit the logical removal, leaving its durable marker for the scrub. -/
def logicalPurge (engine : Engine) (command : Command) (hashes : List Hash) (reason : String)
    (db : Db) : Except StoreError PurgeAnswer × Db :=
  resultOf CommandResult.value <|
    store.commandPath engine command
      (fun db outcome _ => do
        let seq ← eventAnswer outcome
        let value ← retentionEvent (db.rows command.project) seq payloadPurged
        let event ← .ofOption (malformedData "purge") (PurgedEvent.fromValue value)
        .ok { seq, event, exports := db.exportTargets event })
      (Work.purgeBodies store command hashes reason)
      db

/-- Release this project's references to the named hashes and scrub the database; `scrubbed` is what
the scrub after the commit reports. -/
def purge (engine : Engine) (command : Command) (hashes : List Hash) (reason : String)
    (scrubbed : Bool) (db : Db) : Except StoreError PurgeReport × Db :=
  match store.logicalPurge engine command hashes reason db with
  | (.error error, db) => (.error error, db)
  | (.ok answer, db) =>
      (.ok
        { purged := answer.event.removed, shared := answer.event.shared
          recorded := [(command.project, answer.seq)], unreachable := answer.exports, scrubbed },
        { db with scrubPending := if scrubbed then none else db.scrubPending })

end Store

end Baley
