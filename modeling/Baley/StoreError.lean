import Baley.Anchor
import Baley.Claim

/-!
# What can go wrong at the port

None of these is a domain outcome: a failed command records nothing.
-/

namespace Baley

/-- One cheap git fact of a checkout. -/
inductive GitFact where
  | head
  | index
  deriving DecidableEq, Repr

/-- The input that moved. -/
inductive StaleInput where
  | document (view : String) (key : DocKey) (seen now : Option Nat)
  | absence (absence : Absence)
  | git (checkout : String) (fact : GitFact) (seen now : String)
  /-- The claim is no longer open to its owner. -/
  | claim (claim : ClaimId)
  /-- A live claim cannot be reconciled yet. -/
  | claimActive (claim : ClaimId)
  | streamVersion (stream : StreamName) (expected actual : Nat)
  /-- The stored head a decision was made from. -/
  | head (seen now : Option Head)

/-- Why the port refused a request outright. -/
inductive Refusal where
  | unknownProject (project : ProjectId)
  | projectReadOnly (project : ProjectId) (reason : String)
  | requestDigestMismatch (requestId : RequestId)
  | unknownView (view : String)
  | undeclaredIndex (view index : String)
  | invalidCursor
  | malformedKey (view reason : String)
  | unknownPayload (hash : Hash)
  | payloadTombstoned (hash : Hash)
  | notReducible (reference : PayloadReference)
  | nothingToPurge (hash : Hash)
  | invalidEvent (reason : String)
  | unreadableType (typeName : String) (version : Nat)
  | unattachedPayload (hash : Hash)
  | unknownClaim (claim : ClaimId)
  | notClaimOwner (claim : ClaimId)
  | leaseTime (claim : ClaimId) (at' floor : String)
  | awaitingOwner (claim : ClaimId)
  | scopeMismatch (claim : ClaimId) (supplied claimed : List String)
  | notOwner

/-- Why a port operation did not return its result. -/
inductive StoreError where
  | blocked (block : Block)
  | stale (input : StaleInput)
  /-- The writer queue or the database lock was not free. -/
  | busy
  | refused (refusal : Refusal)
  | projector (view : String) (seq : Nat) (message : String)
  /-- The engine failed. -/
  | unavailable (reason : String)

/-- The refusal of an event that cannot be recorded. -/
def StoreError.invalidEvent (reason : String) : StoreError :=
  .refused (.invalidEvent reason)

def CanonicalError.message : CanonicalError → String
  | .notAnInteger path number => number ++ " at " ++ path ++ " is not an integer"
  | .outOfRange path number => number ++ " at " ++ path ++ " is outside ±(2^53 - 1)"

def SealError.message : SealError → String
  | .zeroSequence => "sequences start at 1"
  | .link seq _ =>
      if seq = 1 then "sequence 1 has no predecessor"
      else "sequence " ++ seq.repr ++ " needs its predecessor's hash"
  | .canonical error => error.message

end Baley
