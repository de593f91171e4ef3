import Baley.Event

/-!
# Anchors

The anchor command's names, its result events and the rules that the core and the adapter share.
-/

namespace Baley

open Json

/-- A head pushed outside the machine. -/
structure Anchor where
  seq : Nat
  hash : Hash
  deriving DecidableEq

/-- The last event of a chain. -/
structure Head where
  seq : Nat
  hash : Hash
  deriving DecidableEq

def anchorPush : String := "anchor.push"
def anchorReconcile : String := "anchor.reconcile"
def anchorAcknowledgeRestore : String := "anchor.acknowledge_restore"
def anchorScope : String := "anchor"
def anchorStream : String := "project"
def anchorPushed : String := "anchor.pushed"
def anchorPushedVersion : Nat := 1
def anchorFailed : String := "anchor.failed"
def anchorFailedVersion : Nat := 1
def anchorRestoreAcknowledged : String := "anchor.restore_acknowledged"
def anchorRestoreAcknowledgedVersion : Nat := 1
def anchorTagPrefix : String := "baley-anchor/"

/-- The tag that anchors `seq` of a project. -/
def anchorTag (project : ProjectId) (seq : Nat) : String :=
  anchorTagPrefix ++ project ++ "/" ++ seq.repr

/-- A hash written in exactly its lower-case digits. -/
def readLowerHash (text : String) : Option Hash := do
  let hash ← Hash.fromHex text
  if hash.toHex = text then some hash else none

@[simp]
theorem readLowerHash_toHex (hash : Hash) : readLowerHash hash.toHex = some hash := by
  simp [readLowerHash]

/-- The `anchor.pushed` payload. -/
structure AnchorPushedPayload where
  tag : String
  seq : Nat
  head : Hash
  remote : String
  observedAt : String
  deriving DecidableEq

namespace AnchorPushedPayload

def toValue (payload : AnchorPushedPayload) : Value :=
  .ofEntries
    [("tag", .string payload.tag), ("seq", .ofNat payload.seq),
      ("head", .string payload.head.toHex), ("remote", .string payload.remote),
      ("observed_at", .string payload.observedAt)]

/-- Exactly the five fields, the head in lower case. -/
def fromValue (value : Value) : Option AnchorPushedPayload := do
  let object ← value.asObject
  if object.length ≠ 5 then none
  else do
    let head ← readLowerHash (← (← Members.lookup "head" object).asStr)
    let tag ← (← Members.lookup "tag" object).asStr
    let seq ← (← Members.lookup "seq" object).asU64
    let remote ← (← Members.lookup "remote" object).asStr
    let observedAt ← (← Members.lookup "observed_at" object).asStr
    some { tag, seq, head, remote, observedAt }

/-- The anchor the tag names. -/
def anchor (payload : AnchorPushedPayload) : Anchor :=
  ⟨payload.seq, payload.head⟩

end AnchorPushedPayload

/-- The remote anchor an owner accepted and the local head before the event. -/
structure RestoreAcknowledgedPayload where
  remote : String
  tag : String
  seq : Nat
  head : Hash
  restoredSeq : Nat
  restoredHead : Option Hash
  checkedAt : String
  deriving DecidableEq

namespace RestoreAcknowledgedPayload

def toValue (payload : RestoreAcknowledgedPayload) : Value :=
  .ofEntries
    [("remote", .string payload.remote), ("tag", .string payload.tag), ("seq", .ofNat payload.seq),
      ("head", .string payload.head.toHex), ("restored_seq", .ofNat payload.restoredSeq),
      ("restored_head",
        match payload.restoredHead with
        | some hash => .string hash.toHex
        | none => .null),
      ("checked_at", .string payload.checkedAt)]

/-- Exactly the seven fields, hashes in lower case. -/
def fromValue (value : Value) : Option RestoreAcknowledgedPayload := do
  let object ← value.asObject
  if object.length ≠ 7 then none
  else do
    let head ← readLowerHash (← (← Members.lookup "head" object).asStr)
    let restoredHead ←
      match ← Members.lookup "restored_head" object with
      | .null => some none
      | .string text => (readLowerHash text).map some
      | _ => none
    let remote ← (← Members.lookup "remote" object).asStr
    let tag ← (← Members.lookup "tag" object).asStr
    let seq ← (← Members.lookup "seq" object).asU64
    let restoredSeq ← (← Members.lookup "restored_seq" object).asU64
    let checkedAt ← (← Members.lookup "checked_at" object).asStr
    some { remote, tag, seq, head, restoredSeq, restoredHead, checkedAt }

/-- The remote anchor accepted by the owner. -/
def anchor (payload : RestoreAcknowledgedPayload) : Anchor :=
  ⟨payload.seq, payload.head⟩

end RestoreAcknowledgedPayload

/-- Whether an event is one the anchor command itself records, which says nothing about the
project's own work. -/
def anchorCommandEvent (typeName : String) (payload : Value) : Bool :=
  let kind := (payload.get? "kind").bind Value.asStr
  if typeName = anchorPushed ∨ typeName = anchorFailed ∨ typeName = anchorRestoreAcknowledged then
    true
  else if typeName = commandClaimed ∨ typeName = commandReconciled then kind = some anchorPush
  else if typeName = commandCompleted then
    kind = some anchorPush ∨ kind = some anchorReconcile ∨ kind = some anchorAcknowledgeRestore
  else false

end Baley
