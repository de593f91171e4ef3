import Baley.Store.Turns

/-!
# Errors a decision ignores

An operation that returns an error to a decision fails its command, whatever the decision does with
the error.
-/

namespace Baley

open Attempt

/-- The operation returned an error to the decision. -/
def Operation.Failed : (operation : Operation) → operation.Reply → Prop
  | .get .., reply => ∃ error, reply = .error error
  | .find .., reply => ∃ error, reply = .error error
  | .eventExists _, reply => ∃ error, reply = .error error
  | .expect .., reply => ∃ error, reply = .error error
  | .append .., reply => ∃ error, reply = .error error
  | .putPayload .., reply => ∃ error, reply = .error error
  | .openClaims, reply => ∃ error, reply = .error error
  | .head, _ => False
  | .recordAnchor .., reply => ∃ error, reply = .error error

namespace Work

variable (store : Store) (engine : Engine)

/-- Some operation of the decision returns it an error. -/
def MeetsError {α : Type} (script : Decide α) (work : Work) : Prop :=
  script.Meets (handle store engine) Operation.Failed work

/-- An error was noted, so the command fails. -/
def Failing (work : Work) : Prop :=
  work.failed.isSome = true

variable {store engine}

theorem failing_retentionInvariant (depth : Depth) : RetentionInvariant store depth Failing where
  failed := by
    intro work error failing
    obtain ⟨first, failed_eq⟩ := Option.isSome_iff_exists.mp failing
    simp [Failing, failed_eq]
  anchored := fun work anchors failing => failing
  put := fun work put failing => failing
  stored := fun work db bytes retention reference failing _ => failing
  leased := fun work leases failing => failing
  pushed := by
    intro event work after recorded copy _ failing pushed
    rw [pushed.after_eq]
    exact failing
  released := fun work refs failing => failing
  bodies := fun work payloads scrubPending failing => failing

/-- An error that an operation returns is noted. -/
theorem failing_noted {α : Type} {fault : Option StoreError} {turn : Turn α} {work : Work}
    (failed : ∃ error, (noted fault turn work).1 = .error error) :
    Failing (noted fault turn work).2 := by
  obtain ⟨error, failed⟩ := failed
  unfold noted at failed ⊢
  split at failed
  · cases failed
  · simp [Failing]

theorem failing_handle (operation : Operation) (work : Work)
    (failed : operation.Failed (handle store engine operation work).1) :
    Failing (handle store engine operation work).2 := by
  cases operation with
  | head => exact failed.elim
  | _ => exact failing_noted failed

/-- A decision that met an error leaves its command failing, however it went on. -/
theorem failing_decide {α : Type} {script : Decide α} {work : Work}
    (meets : MeetsError store engine script work) :
    Ends Failing (decide store engine script) work := by
  intro value after succeeded
  simp only [decide, Except.map_eq_ok, Prod.mk.injEq] at succeeded
  obtain ⟨result, -, -, rfl⟩ := succeeded
  refine Script.Meets.run _ failing_handle ?_ meets
  intro operation before failing
  refine (failing_retentionInvariant Depth.any).handle_holds engine operation ?_ failing
  exact Operation.issued_of_forall (fun _ _ wellFormed => ⟨wellFormed, trivial⟩) operation

/-! ## The turns -/

variable {command : Command} {work : Work}

theorem failing_transact {script : Decide Decision} (meets : MeetsError store engine script work) :
    Ends Failing (completing store (transactTurn store engine script)) work := by
  have retained : RetentionInvariant store Depth.any Failing := failing_retentionInvariant Depth.any
  have invariant := retained.toInvariant
  have turn_ends : Ends Failing (transactTurn store engine script) work :=
    (failing_decide meets).bind fun decision _ _ => invariant.keeps_answer decision
  refine turn_ends.bind fun result after succeeded => invariant.keeps_completion result ?_
  exact admits_transactTurn (Decide.issues_any (fun _ _ => trivial) script) succeeded

theorem failing_claimTurn {script : Decide ClaimDecision}
    (meets : MeetsError store engine script work) :
    Ends Failing (claimTurn store engine command script) work :=
  (failing_decide meets).bind fun decision _ _ =>
    (failing_retentionInvariant Depth.any).keeps_claimed command decision.fits_any

theorem failing_completeTurn {script : Decide Decision} {own : Option Claim}
    (meets : MeetsError store engine script work) :
    Ends Failing (completeTurn store engine command script own) work := by
  refine Ends.after fun claim middle found => ?_
  obtain ⟨-, rfl⟩ := attempt_eq_ok.mp found
  exact (failing_decide meets).bind fun decision _ _ =>
    (failing_retentionInvariant Depth.any).keeps_closeClaim _ _ _ fun _ => trivial

theorem failing_reconcileClaim {id : ClaimId} {authority : ReconcileAuthority}
    {script : Claim → Decide Reconciliation} {found : ClaimDoc × Claim}
    (reconciles : reconcilable store command id authority work = .ok (found, work))
    (meets : MeetsError store engine (script found.2) work) :
    Ends Failing (reconcileClaim store engine command id authority script) work := by
  refine Ends.after fun other middle other_found => ?_
  obtain ⟨rfl, rfl⟩ := Prod.mk.inj (Except.ok.inj (reconciles.symm.trans other_found))
  exact (failing_decide meets).bind fun result _ _ =>
    (failing_retentionInvariant Depth.any).keeps_reconciled _ _ _ result.fits_any

end Work

/-! ## The calls -/

namespace Store

variable (store : Store)

/-- The work of a command that is about to run. -/
def Opens (command : Command) (db : Db) (work : Work) : Prop :=
  ∃ before, storedHead db command.project = .ok before ∧
    work = Work.new command db before (db.rows command.project).liveGen

/-- An operation of the call's decision returns it an error, if the decision runs. -/
def MeetsError (db : Db) : Call → Prop
  | .transact engine command script =>
      ∃ work, Opens command db work ∧ Work.MeetsError store engine script work
  | .claim engine command script =>
      ∃ work, Opens command db work ∧ Work.MeetsError store engine script work
  | .complete engine command _ script =>
      ∃ work, Opens command db work ∧ Work.MeetsError store engine script work
  | .reconcile engine command id authority script =>
      ∃ work found, Opens command db work ∧
        Work.reconcilable store command id authority work = .ok (found, work) ∧
        Work.MeetsError store engine (script found.2) work
  | .renewLease .. | .reduce .. | .purge .. => False

variable {store} {db : Db} {α : Type} {command : Command}

theorem commandPathFor_failing {engine : Engine} {entry : Entry}
    {replay : Db → RequestState → Nat → Except StoreError α} {new : Option Claim → Turn α}
    {work : Work} (opens : Opens command db work)
    (failing : ∀ own, Ends Work.Failing (new own) work) :
    (store.commandPathFor engine command entry replay new db).2 = db := by
  rcases commandPathFor_cases store engine command entry replay new db with
    ⟨error, path_eq⟩ | ⟨value, path_eq, -⟩ | ⟨value, head, written, before, own, after, path_eq, ran⟩
  · rw [path_eq]
  · rw [path_eq]
  · obtain ⟨before', started, rfl⟩ := opens
    obtain rfl := Except.ok.inj (started.symm.trans ran.started)
    have failed := failing own _ _ ran.turned
    rw [Work.Failing, ran.unfailed] at failed
    cases failed

/-- A call whose decision met an error leaves the store as it was. -/
theorem perform_of_meetsError {call : Call} (meets : store.MeetsError db call) :
    (store.perform call db).2 = db := by
  cases call with
  | transact engine command script =>
      obtain ⟨work, opens, meets⟩ := meets
      exact commandPathFor_failing opens fun _ => Work.failing_transact meets
  | claim engine command script =>
      obtain ⟨work, opens, meets⟩ := meets
      exact commandPathFor_failing opens fun _ => Work.failing_claimTurn meets
  | complete engine command owner script =>
      obtain ⟨work, opens, meets⟩ := meets
      exact commandPathFor_failing opens fun _ => Work.failing_completeTurn meets
  | reconcile engine command id authority script =>
      obtain ⟨work, found, opens, reconciles, meets⟩ := meets
      simp only [perform, reconcile, resultOf]
      split_ifs
      · rfl
      · rfl
      · exact commandPathFor_failing opens fun _ => Work.failing_reconcileClaim reconciles meets
  | _ => exact meets.elim

theorem commandPathFor_of_error {engine : Engine} {entry : Entry}
    {replay : Db → RequestState → Nat → Except StoreError α} {new : Option Claim → Turn α}
    {error : StoreError}
    (failed : (store.commandPathFor engine command entry replay new db).1 = .error error) :
    (store.commandPathFor engine command entry replay new db).2 = db := by
  rcases commandPathFor_cases store engine command entry replay new db with
    ⟨error, path_eq⟩ | ⟨value, path_eq, -⟩ | ⟨value, head, written, before, own, after, path_eq, -⟩
  · rw [path_eq]
  · rw [path_eq]
  · rw [path_eq] at failed
    cases failed

theorem resultOf_error {β : Type} {change : α → β} {result : Except StoreError α × Db}
    {error : StoreError} (failed : (resultOf change result).1 = .error error) :
    result.1 = .error error := by
  obtain ⟨value, written⟩ := result
  cases value with
  | error other => simpa [resultOf, Except.map] using failed
  | ok value => cases failed

/-- A call that returns an error leaves the store as it was. -/
theorem perform_of_error {call : Call} {error : StoreError}
    (failed : (store.perform call db).1 = .error error) : (store.perform call db).2 = db := by
  cases call with
  | transact engine command script =>
      exact commandPathFor_of_error (resultOf_error (resultOf_error failed))
  | claim engine command script =>
      exact commandPathFor_of_error (resultOf_error (resultOf_error failed))
  | complete engine command owner script =>
      exact commandPathFor_of_error (resultOf_error (resultOf_error failed))
  | reconcile engine command id authority script =>
      have reconcile_failed := resultOf_error failed
      simp only [perform, reconcile, resultOf] at reconcile_failed ⊢
      split_ifs at reconcile_failed ⊢
      · rfl
      · rfl
      · exact commandPathFor_of_error (resultOf_error reconcile_failed)
  | renewLease engine project id owner renewedAt =>
      have renewal_failed := resultOf_error failed
      simp only [perform, renewLease, resultOf] at renewal_failed ⊢
      exact transaction_eq_error (Prod.ext renewal_failed rfl)
  | reduce engine command reference =>
      exact commandPathFor_of_error (resultOf_error (resultOf_error failed))
  | purge engine command hashes reason scrubbed =>
      have purge_failed := resultOf_error failed
      simp only [perform, resultOf, purge] at purge_failed ⊢
      split at purge_failed
      · next other written path_eq =>
          simp only
          have logical_failed : (store.logicalPurge engine command hashes reason db).1 =
              .error other := congrArg Prod.fst path_eq
          exact (congrArg Prod.snd path_eq).symm.trans
            (commandPathFor_of_error (resultOf_error logical_failed))
      · cases purge_failed

end Store

end Baley
