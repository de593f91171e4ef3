import Baley.Caller
import Baley.Hash

/-!
# Events

An event is an envelope, a payload and its place in a project's chain.  Its hash is taken over the
bare concatenation of the chain link, the canonical envelope and the canonical payload.
-/

namespace Baley

open Json

/-- The project an event belongs to. -/
abbrev ProjectId := String

/-- The command that recorded an event. -/
abbrev RequestId := String

/-! ## Names of the store's own events -/

def commandClaimed : String := "command.claimed"
def commandReconciled : String := "command.reconciled"
def commandCompleted : String := "command.completed"
def payloadReduced : String := "payload.reduced"
def payloadPurged : String := "payload.purged"

/-! ## Actors -/

inductive ActorError where
  | empty
  | reserved (name : String)
  deriving DecidableEq, Repr

/-- An agent role: never empty, never a reserved actor's name. -/
structure AgentRole where
  role : String
  role_ne : role ≠ ""
  not_reserved : role ≠ "owner" ∧ role ≠ "baley"
  deriving DecidableEq

def AgentRole.new (role : String) : Except ActorError AgentRole :=
  if role_eq : role = "" then .error .empty
  else if reserved : role = "owner" ∨ role = "baley" then .error (.reserved role)
  else .ok ⟨role, role_eq, not_or.mp reserved⟩

/-- Who recorded an event. -/
inductive Actor where
  | owner
  | baley
  | agent (role : AgentRole)
  deriving DecidableEq

namespace Actor

/-- The text form the envelope carries. -/
def asStr : Actor → String
  | .owner => "owner"
  | .baley => "baley"
  | .agent role => role.role

def parse (text : String) : Except ActorError Actor :=
  if text = "owner" then .ok .owner
  else if text = "baley" then .ok .baley
  else (AgentRole.new text).map .agent

@[simp]
theorem parse_asStr (actor : Actor) : parse actor.asStr = .ok actor := by
  cases actor with
  | owner => rfl
  | baley => rfl
  | agent role =>
      obtain ⟨role, role_ne, not_owner, not_baley⟩ := role
      simp [parse, asStr, AgentRole.new, role_ne, not_owner, not_baley, Except.map]

theorem asStr_injective : Function.Injective asStr := by
  intro first second text_eq
  have parsed_eq := congrArg parse text_eq
  rw [parse_asStr, parse_asStr] at parsed_eq
  exact Except.ok.inj parsed_eq

end Actor

/-! ## The envelope -/

/-- The git facts an event depends on. -/
structure GitFacts where
  commit : String
  tree : String
  checkout : String
  deriving DecidableEq

def GitFacts.toValue (git : GitFacts) : Value :=
  .ofEntries
    [("commit", .string git.commit), ("tree", .string git.tree), ("checkout", .string git.checkout)]

/-- An event before the ledger has placed it. -/
structure EventDraft where
  stream : String
  streamVersion : Nat
  typeName : String
  typeVersion : Nat
  actor : Actor
  caller : Option Caller
  recordedAt : String
  requestId : RequestId
  git : Option GitFacts
  policyVersion : Nat
  payload : Value

/-- One recorded event. -/
structure Event where
  projectId : ProjectId
  seq : Nat
  stream : String
  streamVersion : Nat
  typeName : String
  typeVersion : Nat
  actor : Actor
  caller : Option Caller
  recordedAt : String
  requestId : RequestId
  git : Option GitFacts
  policyVersion : Nat
  payload : Value
  /-- Absent only at sequence 1. -/
  prevHash : Option Hash
  hash : Hash

/-- Why a draft cannot be placed in a chain. -/
inductive SealError where
  | zeroSequence
  | link (seq : Nat) (hasPrev : Bool)
  | canonical (error : CanonicalError)
  deriving DecidableEq, Repr

namespace Event

def envelopeEntries (event : Event) : List (String × Value) :=
  [("project_id", .string event.projectId), ("seq", .ofNat event.seq),
    ("stream", .string event.stream), ("stream_version", .ofNat event.streamVersion),
    ("type", .string event.typeName), ("type_version", .ofNat event.typeVersion),
    ("actor", .string event.actor.asStr)] ++
  Members.optional "caller" (event.caller.map Caller.toValue) ++
  [("recorded_at", .string event.recordedAt), ("request_id", .string event.requestId)] ++
  Members.optional "git" (event.git.map GitFacts.toValue) ++
  [("policy_version", .ofNat event.policyVersion),
    ("prev_hash",
      match event.prevHash with
      | some hash => .string hash.toHex
      | none => .null)]

/-- The envelope without its hash; absent git facts and an absent caller have no key. -/
def envelope (event : Event) : Value :=
  .ofEntries event.envelopeEntries

def canonicalEnvelope (event : Event) : Except CanonicalError (List UInt8) :=
  canonicalJson event.envelope

end Event

/-! ## The hash formula -/

/-- The domain prefix of the first hash of every chain. -/
def chainDomain : List UInt8 := utf8 "baley-ledger/1".toList

/-- The bytes the design's formula hashes. -/
def chainPreimage (prev : Option Hash) (projectId : ProjectId) (envelope payload : List UInt8) :
    List UInt8 :=
  (match prev with
    | none => chainDomain ++ utf8 projectId.toList
    | some prev => prev.bytes) ++ envelope ++ payload

def chainHash (sha256 : List UInt8 → Hash) (prev : Option Hash) (projectId : ProjectId)
    (envelope payload : List UInt8) : Hash :=
  sha256 (chainPreimage prev projectId envelope payload)

namespace Event

/-- The bytes hashed for this event's own fields. -/
def preimage (event : Event) : Except CanonicalError (List UInt8) := do
  let envelope ← event.canonicalEnvelope
  let payload ← canonicalJson event.payload
  .ok (chainPreimage event.prevHash event.projectId envelope payload)

/-- The hash the formula gives this event from its own fields, ignoring the stored hash. -/
def computeHash (sha256 : List UInt8 → Hash) (event : Event) : Except CanonicalError Hash := do
  let envelope ← event.canonicalEnvelope
  let payload ← canonicalJson event.payload
  .ok (chainHash sha256 event.prevHash event.projectId envelope payload)

/-- Place a draft in a project's chain at `seq` after the event whose hash is `prev`. -/
def «seal» (sha256 : List UInt8 → Hash) (projectId : ProjectId) (seq : Nat) (prev : Option Hash)
    (draft : EventDraft) : Except SealError Event :=
  if seq = 0 then .error .zeroSequence
  else if decide (seq = 1) = prev.isSome then .error (.link seq prev.isSome)
  else
    let event : Event :=
      { projectId, seq, stream := draft.stream, streamVersion := draft.streamVersion
        typeName := draft.typeName, typeVersion := draft.typeVersion, actor := draft.actor
        caller := draft.caller, recordedAt := draft.recordedAt, requestId := draft.requestId
        git := draft.git, policyVersion := draft.policyVersion, payload := draft.payload
        prevHash := prev, hash := .replicate 0 }
    match event.computeHash sha256 with
    | .error error => .error (.canonical error)
    | .ok hash => .ok { event with hash }

end Event

end Baley
