import Baley.CanonicalForm
import Baley.Event

/-!
# Payloads and references

A body is stored once under its hash; an event names it in a reference object of exactly three
fields, and each event's use of a body is a reference of its own.
-/

namespace Baley

open Json

/-- How long a reference keeps its body, by default. -/
inductive RetentionClass where
  | record
  | output
  | material
  deriving DecidableEq, Repr

namespace RetentionClass

/-- The name events and the store write. -/
def asStr : RetentionClass → String
  | .record => "record"
  | .output => "output"
  | .material => "material"

def parse (text : String) : Option RetentionClass :=
  if text = "record" then some .record
  else if text = "output" then some .output
  else if text = "material" then some .material
  else none

@[simp]
theorem parse_asStr (retention : RetentionClass) : parse retention.asStr = some retention := by
  cases retention <;> rfl

end RetentionClass

/-- One event's use of a payload, as the event's payload carries it. -/
structure PayloadRef where
  hash : Hash
  bytes : Nat
  retention : RetentionClass
  deriving DecidableEq

namespace PayloadRef

def toValue (reference : PayloadRef) : Value :=
  .ofEntries
    [("payload", .string reference.hash.toHex), ("bytes", .ofNat reference.bytes),
      ("class", .string reference.retention.asStr)]

@[simp]
theorem wellFormed_toValue (reference : PayloadRef) : reference.toValue.WellFormed :=
  Value.wellFormed_ofEntries (by simp)

theorem nesting_toValue (reference : PayloadRef) : reference.toValue.nesting ≤ 1 :=
  Value.nesting_ofEntries_le (by simp)

def fromValue (value : Value) : Option PayloadRef := do
  let object ← value.asObject
  if object.length ≠ 3 then none
  else do
    let hash ← Hash.fromHex (← (← Members.lookup "payload" object).asStr)
    let bytes ← (← Members.lookup "bytes" object).asU64
    let retention ← RetentionClass.parse (← (← Members.lookup "class" object).asStr)
    some { hash, bytes, retention }

end PayloadRef

/-- One reference's identity: the event that made it and the body it names. -/
structure PayloadReference where
  project : ProjectId
  seq : Nat
  hash : Hash
  deriving DecidableEq

/-- What a hash stands for now. -/
inductive PayloadStatus where
  | present (bytes : Nat)
  | reduced (excerpt : PayloadRef) (kept : List (Nat × Nat))
  | purged (reason : String)
  deriving DecidableEq

/-! ## References in a payload -/

mutual

/-- Every reference object anywhere in a value, or nothing when an object has a reference's three
fields and is not exactly one. -/
def referencesIn : Value → Option (List PayloadRef)
  | .array items => referencesInItems items
  | .object members =>
      match PayloadRef.fromValue (.object members) with
      | some reference => some [reference]
      | none =>
          if ["payload", "bytes", "class"].all fun name => (Members.lookup name members).isSome then
            none
          else referencesInMembers members
  | _ => some []
  termination_by structural value => value

def referencesInItems : List Value → Option (List PayloadRef)
  | [] => some []
  | item :: items => do some ((← referencesIn item) ++ (← referencesInItems items))
  termination_by structural items => items

def referencesInMembers : List (String × Value) → Option (List PayloadRef)
  | [] => some []
  | member :: members => do
      some ((← referencesIn member.2) ++ (← referencesInMembers members))
  termination_by structural members => members

end

mutual

/-- The length the first reference to a hash carries. -/
def referenceBytes (hash : Hash) : Value → Option Nat
  | .array items => referenceBytesItems hash items
  | .object members =>
      match PayloadRef.fromValue (.object members) with
      | some reference => if reference.hash = hash then some reference.bytes else none
      | none => referenceBytesMembers hash members
  | _ => none
  termination_by structural value => value

def referenceBytesItems (hash : Hash) : List Value → Option Nat
  | [] => none
  | item :: items => (referenceBytes hash item).or (referenceBytesItems hash items)
  termination_by structural items => items

def referenceBytesMembers (hash : Hash) : List (String × Value) → Option Nat
  | [] => none
  | member :: members => (referenceBytes hash member.2).or (referenceBytesMembers hash members)
  termination_by structural members => members

end

end Baley
