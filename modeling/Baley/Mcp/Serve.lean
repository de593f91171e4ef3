import Baley.Mcp.Asked

/-!
# Serving a write

The plan is driven to its end, which it reaches since each step is asked for only once; a write that
is ready then runs its command.
-/

namespace Baley.Mcp

open Json

variable {S : Surroundings}

namespace Seen

/-- Nothing was observed of what a step observes. -/
def Lacks (seen : Seen S) : Step S → Prop
  | .discover _ => seen.ancestors = none
  | .readProjectFile _ => seen.working = none
  | .listProjects => seen.projects = none
  | .lookUpRequest .. => seen.replay = none
  | .check _ => seen.checked = none
  | .lookUpRequestAgain .. => seen.relooked = none
  | .readSettings .. => seen.reads = none
  | .admitCheckout .. => seen.admitted = none
  | .recordPolicy .. => seen.stepped = none

/-- How many observations are still to be made. -/
def unseen (seen : Seen S) : Nat :=
  seen.ancestors.isNone.toNat + seen.working.isNone.toNat + seen.projects.isNone.toNat +
    seen.replay.isNone.toNat + seen.checked.isNone.toNat + seen.relooked.isNone.toNat +
    seen.reads.isNone.toNat + seen.admitted.isNone.toNat + seen.stepped.isNone.toNat

theorem unseen_note {seen : Seen S} {step : Step S} (lacks : seen.Lacks step)
    (observed : step.Observed) : (seen.note step observed).unseen < seen.unseen := by
  cases step <;> simp only [Lacks] at lacks <;>
    simp only [unseen, note, lacks, Option.isNone_none, Option.isNone_some, Bool.toNat_true,
      Bool.toNat_false] <;> omega

end Seen

open Seen

theorem Asks.lacks {call : Call} {request : WriteRequest} {seen : Seen S} {step : Step S}
    (asks : Asks call request seen step) : seen.Lacks step := by
  cases step with
  | discover directory => exact asks
  | readProjectFile path => exact asks.2
  | listProjects => exact asks.2.2
  | lookUpRequest project key => exact asks.2.1
  | check project => exact asks.2.2.2
  | lookUpRequestAgain project key => exact asks.2.2.1
  | readSettings root working => exact asks.2.2.2
  | admitCheckout project root policy path => exact asks.2.2.2
  | recordPolicy project recorded => exact asks.2.2.2

theorem faultFailed_ne_perform (fault : LedgerFault) (step : Step S) :
    faultFailed fault ≠ .perform step := by
  have store (error : StoreError) : storeFailed error ≠ Next.perform step := by
    cases error <;> exact nofun
  rcases fault with _ | error | (_ | (_ | error))
  · exact nofun
  · exact store error
  · exact nofun
  · exact nofun
  · exact store error

theorem lacks_of_judgedSettings {call : Call} {seen : Seen S} {found : Found S} {working : S.File}
    {step : Step S} (judged : judgedSettings call seen found working = .error (.perform step)) :
    seen.Lacks step := by
  unfold judgedSettings at judged
  split at judged
  · next reads_eq =>
      obtain rfl := Next.perform.inj (Except.error.inj judged)
      exact reads_eq
  · next reads _ =>
      cases faulted : judgeSettings reads call.host found.root with
      | error fault =>
          rw [faulted] at judged
          exact nomatch Except.error.inj judged
      | ok policies =>
          rw [faulted] at judged
          cases judged

/-- A read asks for no more than the project and its settings, each once. -/
theorem lacks_of_next_read {call : Call} (read : call.write = none) {seen : Seen S} {step : Step S}
    (wanted : next call seen = .perform step) : seen.Lacks step := by
  unfold next at wanted
  simp only at wanted
  split at wanted
  · next ancestors_eq =>
      obtain rfl := Next.perform.inj wanted
      exact ancestors_eq
  · cases wanted
  · split at wanted
    · split at wanted
      · next working_eq =>
          obtain rfl := Next.perform.inj wanted
          exact working_eq
      · split at wanted
        · cases wanted
        · cases wanted
        · unfold knownNext at wanted
          split at wanted
          · next projects_eq =>
              obtain rfl := Next.perform.inj wanted
              exact projects_eq
          · exact absurd wanted (faultFailed_ne_perform _ _)
          · split_ifs at wanted
            split at wanted
            · cases wanted
            · rw [read] at wanted
              simp only at wanted
              split at wanted
              · next judged => exact lacks_of_judgedSettings (wanted ▸ judged)
              · cases wanted
    · cases wanted

/-- No step is asked for twice. -/
theorem lacks_of_next {call : Call} {seen : Seen S} {step : Step S}
    (wanted : next call seen = .perform step) : seen.Lacks step := by
  cases write : call.write with
  | none => exact lacks_of_next_read write wanted
  | some request =>
      have wants := wants_next write seen
      rw [wanted] at wants
      exact Asks.lacks wants

/-- Perform the plan's steps until it is ready or ends. -/
def drive (server : Server) (call : Call) (seen : Seen S) : Serving S (Except Ended (Prepared S)) :=
  match wanted : next call seen with
  | .ready prepared => .done (.ok prepared)
  | .failed answer => .done (.error (.failed answer))
  | .checked answer => .done (.error (.checked answer))
  | .perform step =>
      (perform server call step).bind fun observed => drive server call (seen.note step observed)
termination_by seen.unseen
decreasing_by exact unseen_note (lacks_of_next wanted) observed

/-- A served write: how it is called, and the decision of its transaction from what was prepared and
what the operation gathered for itself, nothing on a replay. -/
structure ServedWrite (S : Surroundings) where
  call : Call
  request : WriteRequest
  write_eq : call.write = some request
  decide : Prepared S → Option S.Gathered → Noting Noted Decision

/-- How a served write ended. -/
inductive Served where
  | ended (ended : Ended)
  /-- The operation could not gather what it needs. -/
  | ungathered (answer : Value)
  | answered (reply : Except StoreError Recorded × Option Noted)

namespace ServedWrite

variable (write : ServedWrite S)

/-- Run a prepared write's command in its transaction. -/
def settle (server : Server) (prepared : Prepared S) : Serving S Served :=
  match prepared.command.filter fun _ => server.opened with
  | none =>
      .done (.ended (.failed
        ⟨"ledger-unavailable", "the write was prepared without a ledger or a command", "ledger"⟩))
  | some command =>
      match prepared.stepped with
      | none =>
          .call (.domain prepared.project command (write.decide prepared none)) fun reply =>
            .done (.answered reply)
      | some _ =>
          .call (.gatherOwn prepared) fun
            | .error answer => .done (.ungathered answer)
            | .ok gathered =>
                .call (.domain prepared.project command (write.decide prepared (some gathered)))
                  fun reply => .done (.answered reply)

/-- One delivery of a write. -/
def serve (server : Server) : Serving S Served :=
  (drive server write.call (Seen.nothing S)).bind fun
    | .error ended => .done (.ended ended)
    | .ok prepared => write.settle server prepared

end ServedWrite

/-! ## What a preparation did -/

open Script

/-- One call that a served call made. -/
abbrev MadeCall (S : Surroundings) := Made (ServedCall S) ServedCall.Reply Ledgers

/-- The steps that were performed so far, call by call, and what they observed. -/
inductive Leads (server : Server) (call : Call) : List (MadeCall S) → Seen S → Prop
  | start : Leads server call [] (Seen.nothing S)
  | step {front first : List (MadeCall S)} {seen : Seen S} {step : Step S}
      {observed : step.Observed} (led : Leads server call front seen)
      (wanted : next call seen = .perform step)
      (performed : Follows (perform server call step) first (.done observed)) :
      Leads server call (front ++ first) (seen.note step observed)

/-- The plan wants an end. -/
def Ends (call : Call) (seen : Seen S) : Except Ended (Prepared S) → Prop
  | .ok prepared => next call seen = .ready prepared
  | .error (.failed answer) => next call seen = .failed answer
  | .error (.checked answer) => next call seen = .checked answer

section Follows

variable {server : Server} {call : Call}

end Follows

end Baley.Mcp
