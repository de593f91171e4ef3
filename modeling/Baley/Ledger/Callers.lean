import Baley.Ledger.Recorded

/-!
# Callers of the port

Each caller's commands carry a request id of its own, so what it relies on of the others is that they
record nothing under it.
-/

namespace Baley

namespace Ledger

/-- Nothing was recorded under a request id. -/
def Fresh (requestId : RequestId) (ledger : Ledger) : Prop :=
  ∀ event ∈ ledger.events, event.requestId ≠ requestId

/-- Only events of other requests were recorded. -/
def Others (requestId : RequestId) : Ledger → Ledger → Prop :=
  Grown fun event => event.requestId ≠ requestId

/-- Only events of the request were recorded. -/
def Own (requestId : RequestId) : Ledger → Ledger → Prop :=
  Grown fun event => event.requestId = requestId

theorem Fresh.others {requestId : RequestId} {before after : Ledger}
    (fresh : before.Fresh requestId) (others : Others requestId before after) :
    after.Fresh requestId := by
  intro event event_mem
  exact (others.mem_cases event_mem).elim (fresh event) id

/-- Callers with request ids of their own rely on no more than the others guarantee. -/
theorem discipline {ι : Type} {requestId : ι → RequestId} (own : Function.Injective requestId) :
    Pool.Discipline (fun who => Others (requestId who)) (fun who => Own (requestId who)) where
  refl := fun _ ledger => .refl ledger
  trans := fun _ _ _ _ earlier later => earlier.trans later
  granted := fun differ _ _ grown =>
    grown.imp fun _ same other_same => differ (own (same.symm.trans other_same))

end Ledger

namespace LedgerCall

open Ledger

variable {γ α : Type} {port : Port} {requestId : RequestId} {holds : Ledger → Prop}

/-- A call that reads. -/
def IsRead : LedgerCall γ → Prop
  | .transact .. => False
  | _ => True

theorem performs_read {call : LedgerCall γ} (read : call.IsRead) {before after : Ledger}
    {reply : call.Reply} (performs : Performs port call before reply after) : after = before := by
  cases call with
  | get view key => exact performs.1
  | find view query => exact performs.1
  | transact command decide => exact read.elim

/-- A script that only reads is safe wherever it starts. -/
theorem safe_reads {script : Script (LedgerCall γ) LedgerCall.Reply α}
    (reads : script.All IsRead fun _ => True) {ready : Ledger → Prop}
    (stable : ∀ before after, ready before → Others requestId before after → ready after)
    {ledger : Ledger} (ledger_ready : ready ledger) :
    script.Safe (LedgerCall.Performs port) holds (Others requestId) (Own requestId)
      (fun later _ => ready later) ledger := by
  induction script generalizing ledger with
  | done result => exact fun later relied _ => stable ledger later ledger_ready relied
  | call op next ih =>
      intro before relied before_holds reply after performs
      obtain rfl := performs_read reads.1 performs
      exact ⟨before_holds, .refl _, ih reply (reads.2 reply) (stable _ _ ledger_ready relied)⟩

end LedgerCall

end Baley
