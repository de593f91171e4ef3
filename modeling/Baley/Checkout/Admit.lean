import Baley.Policy.Recorded

/-!
# Checkout admission's store step

One checkout recorded as Baley's own command, or refused as a fork, in one transaction.  The rows are
read page by page and judged before the command is built, and again inside its transaction.
-/

namespace Baley

open Json Script

def projectStream : StreamName := "project"

/-- The command kind checkout admission records under. -/
def admitCommand : CommandKind := "checkout.admit"

/-- Tries after the first before a command that keeps moving is returned as stale. -/
def retries : Nat := 2

/-- What a decision of checkout admission or of the policy step notes for its caller. -/
inductive Noted where
  | nothing
  /-- The verdict that left an admission's decision as an error. -/
  | fork (conflict : ProjectIdConflict)
  /-- The policy version the step found or recorded. -/
  | inForce (version : Nat)

inductive AdmitError where
  | fork (conflict : ProjectIdConflict)
  | store (error : StoreError)

/-- A stale refusal records nothing, so the request id is still free. -/
def StoreError.isStale : StoreError → Bool
  | .stale _ => true
  | _ => false

section AllRows

variable {Op : Type} {Reply : Op → Type}

/-- Every body of the checkout view, page by page as far as the cursors go.  A walk is given a number
of pages; one that does not end within them does not end well. -/
def allRows (find : IndexQuery → Script Op Reply (Except StoreError (Page Document))) :
    Nat → List Value → Option String → Script Op Reply (Except StoreError (List Value))
  | 0, _, _ => .done (.error (.unavailable "the pages did not end"))
  | pages + 1, rows, after =>
      (find { index := "by_path", equals := [], limit := checkoutPageBound, after }).bind fun
        | .error error => .done (.error error)
        | .ok page =>
            match page.next with
            | some cursor => allRows find pages (rows ++ page.items.map Document.body) (some cursor)
            | none => .done (.ok (rows ++ page.items.map Document.body))

end AllRows

/-- One checkout admission as it is called. -/
structure Admission where
  project : ProjectId
  checkout : Checkout
  requestId : RequestId
  recordedAt : String
  caller : Option Caller
  sha256 : List UInt8 → Hash
  /-- How many pages its walks are given. -/
  pages : Nat

namespace Admission

variable (admission : Admission)

/-- The key of the policy stored for the checkout and no host. -/
def key : DocKey := policyKey admission.checkout.path none

/-- The checkout is in the digest, so two checkouts never share an identity. -/
def digestOf (policyVersion : Nat) : Value :=
  .ofEntries
    [("kind", .string admitCommand), ("project", .string admission.project),
      ("actor", .string Actor.baley.asStr), ("policy_version", .ofNat policyVersion),
      ("payload", seenPayload admission.checkout), ("scope", .array [])]

def command (policyVersion : Nat) : Except StoreError Command := do
  let digest ← (requestDigest admission.sha256 (admission.digestOf policyVersion)).mapError
    fun error => StoreError.invalidEvent error.message
  .ok
    { project := admission.project, kind := admitCommand, requestId := admission.requestId, digest
      scope := [], policyVersion, recordedAt := admission.recordedAt, actor := .baley
      caller := admission.caller }

/-- What an admission decided, and the policy it was built under. -/
def decision (observed : Observed) : Decision where
  kind := .done
  answer := .ofEntries [("admitted", .bool true)]
  answer_wellFormed := Value.wellFormed_ofEntries (by simp [Value.WellFormed.bool])
  sensitive := false
  observed
  git := none

/-- The event of one checkout seen. -/
def seenEvent (payload : Value) : NewEvent where
  stream := projectStream
  typeName := checkoutSeen
  typeVersion := checkoutSeenVersion
  git := none
  payload
  attachments := []

/-- Append what a plan's operations record, then decide. -/
def recordSeen (observed : Observed) : List CheckoutOperation → Noting Noted Decision
  | [] => .done (.ok (decision observed), .nothing)
  | .recordSeen payload wellFormed :: operations =>
      .call (.append (seenEvent payload) wellFormed) fun
        | .error error => .done (.error error, .nothing)
        | .ok _ => recordSeen observed operations
  | _ :: operations => recordSeen observed operations

/-- The decision: the rows are read and judged again where they cannot move. -/
def decide (observed : Observed) : Noting Noted Decision :=
  (allRows (fun query => .call (.find checkoutView query) .done) admission.pages [] none).bind fun
    | .error error => .done (.error error, .nothing)
    | .ok rows =>
        .call (.get policyView admission.key) fun
          | .error error => .done (.error error, .nothing)
          | .ok stored =>
              match
                (planCheckoutAdmission admission.checkout rows (stored.map Document.body)).action with
              | .refuse conflict => .done (.error (.invalidEvent conflict.text), .fork conflict)
              | .proceed operations => recordSeen observed operations

/-- The policy document the command's version was read from. -/
def observed (stored : Option Document) : Observed where
  documents :=
    [{ view := policyView, key := admission.key, producedSeq := stored.map Document.producedSeq }]
  absences := []
  git := []

/-- What the caller is told: a fork by the verdict the decision noted, whatever the store said. -/
def resultOf : Except StoreError Recorded × Option Noted → Except AdmitError Unit
  | (_, some (.fork conflict)) => .error (.fork conflict)
  | (.error error, _) => .error (.store error)
  | (.ok _, _) => .ok ()

def admitOnce : Script (LedgerCall Noted) LedgerCall.Reply (Except AdmitError Unit) :=
  (allRows (fun query => .call (.find checkoutView query) .done) admission.pages [] none).bind fun
    | .error error => .done (.error (.store error))
    | .ok rows =>
        .call (.get policyView admission.key) fun
          | .error error => .done (.error (.store error))
          | .ok stored =>
              let plan := planCheckoutAdmission admission.checkout rows (stored.map Document.body)
              if plan.action.records then
                match admission.command plan.policyVersion with
                | .error error => .done (.error (.store error))
                | .ok command =>
                    .call (.transact command (admission.decide (admission.observed stored)))
                      fun reply => .done (resultOf reply)
              else .done (.ok ())

/-- Whether an admission is to be tried again. -/
def again : Except AdmitError Unit → Bool
  | .error (.store error) => error.isStale
  | _ => false

/-- Record the checkout as seen, or refuse it as a fork. -/
def admitCheckout : Script (LedgerCall Noted) LedgerCall.Reply (Except AdmitError Unit) :=
  retry again admission.admitOnce retries

end Admission

end Baley
