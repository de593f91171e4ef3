import Baley.Checkout.Versions

/-!
# Any callers of one project

Admissions, policy steps and commands that record neither, each under a request id of its own and in
any order of their calls.
-/

namespace Baley

open Json Ledger Script

/-- A call whose commands carry the request id and append neither checkouts nor policies. -/
def LedgerCall.Apart (requestId : RequestId) : LedgerCall Noted → Prop
  | .transact command decide =>
      command.requestId = requestId ∧
        decide.All (Operation.Issued fun new =>
          new.typeName ≠ checkoutSeen ∧ new.typeName ≠ policyEffective) fun _ => True
  | _ => True

/-- What a caller does under its request id. -/
inductive Task (requestId : RequestId) where
  | admission (admission : Admission) (own : admission.requestId = requestId)
  | policyStep (record : PolicyRecord) (own : record.requestId = requestId)
  | other (script : Script (LedgerCall Noted) LedgerCall.Reply Unit)
      (apart : script.All (LedgerCall.Apart requestId) fun _ => True)

/-- How a caller came to its end. -/
inductive Ended where
  | admitted (result : Except AdmitError Unit)
  | recorded (result : Except StoreError Nat)
  | other

namespace Task

variable {requestId : RequestId}

def script : Task requestId → Script (LedgerCall Noted) LedgerCall.Reply Ended
  | .admission entering _ => entering.admitCheckout.bind fun result => .done (.admitted result)
  | .policyStep record _ => record.recordPolicy.bind fun result => .done (.recorded result)
  | .other script _ => script.bind fun _ => .done .other

/-- An admission that ended in an error recorded nothing, and a version that a policy step returned
is of an event that holds its policy. -/
def Ends (task : Task requestId) (ledger : Ledger) (ended : Ended) : Prop :=
  match task, ended with
  | .admission entering _, .admitted result => entering.Ends ledger result
  | .policyStep record _, .recorded result => record.Ends ledger result
  | _, _ => True

end Task

variable {port : Port}

section Callers

variable (checkout_mem : checkoutProjector ∈ port.allProjectors)
  (policy_mem : policyProjector ∈ port.allProjectors)

include checkout_mem policy_mem in
/-- A command that appends neither keeps what holds. -/
theorem Ledger.Transacts.apart {requestId : RequestId} {command : Command}
    {decide : Noting Noted Decision} {before after : Ledger}
    {reply : Except StoreError Recorded × Option Noted} (consistent : before.Consistent)
    (apart : (LedgerCall.transact command decide).Apart requestId)
    (transacts : before.Transacts port command decide reply after) :
    after.Consistent ∧ Own requestId before after := by
  rcases transacts with error | error | found | ⟨_, _, commits⟩
  · exact ⟨consistent, .refl _⟩
  · exact ⟨consistent, .refl _⟩
  · exact ⟨consistent, .refl _⟩
  obtain ⟨rfl, issued⟩ := apart
  obtain ⟨event, stamps, appended⟩ := commits.completed
  obtain ⟨drafted_consistent, drafted_own⟩ := Draft.keeps issued
    (fun ledger => ledger.Consistent ∧ Own command.requestId before ledger)
    (fun new ledger event after domain other stamps appended holds => by
      have type_eq := stamps.typeName_eq
      refine ⟨holds.1.append_other stamps.numbered (by rw [type_eq]; exact other.1)
        (by rw [type_eq]; exact other.2) (fun kind requestId document found => ?_) appended
        checkout_mem policy_mem, holds.2.trans (stamps.own appended)⟩
      rw [request_append_of_domain (by rw [type_eq]; exact domain) appended] at found
      exact Or.inl found)
    commits.decided ⟨consistent, .refl _⟩
  exact ⟨drafted_consistent.append_completed stamps appended checkout_mem policy_mem,
    drafted_own.trans (stamps.own appended)⟩

include checkout_mem policy_mem in
theorem safe_apart {requestId : RequestId}
    {script : Script (LedgerCall Noted) LedgerCall.Reply Unit}
    (apart : script.All (LedgerCall.Apart requestId) fun _ => True) (ledger : Ledger) :
    SafeCall port requestId (fun _ _ => True) script ledger := by
  induction script generalizing ledger with
  | done result => exact fun _ _ _ => trivial
  | call op next ih =>
      intro before relied consistent reply after performs
      have kept : after.Consistent ∧ Own requestId before after := by
        cases op with
        | get view key =>
            obtain rfl := performs.1
            exact ⟨consistent, .refl _⟩
        | find view query =>
            obtain rfl := performs.1
            exact ⟨consistent, .refl _⟩
        | transact command decide =>
            exact Ledger.Transacts.apart checkout_mem policy_mem consistent apart.1 performs
      exact ⟨kept.1, kept.2, ih reply (apart.2 reply) after⟩

include checkout_mem policy_mem in
theorem Task.safe {requestId : RequestId} (task : Task requestId) {ledger : Ledger}
    (consistent : ledger.Consistent) (fresh : ledger.Fresh requestId) :
    SafeCall port requestId task.Ends task.script ledger := by
  cases task with
  | admission entering own =>
      cases own
      exact Safe.bind (fun ledger => .refl ledger) ((entering.safe checkout_mem policy_mem
        consistent fresh).imp fun later result _ ends last relied _ => ends.others relied) consistent
  | policyStep record own =>
      cases own
      exact Safe.bind (fun ledger => .refl ledger) ((record.safe checkout_mem policy_mem
        consistent fresh).imp fun later result _ ends last relied _ => ends.others relied) consistent
  | other script apart =>
      refine Safe.bind (fun ledger => .refl ledger) ?_ consistent
      exact (safe_apart checkout_mem policy_mem apart ledger).imp fun _ _ _ _ _ _ _ => trivial

end Callers

/-! ## Every state -/

end Baley
