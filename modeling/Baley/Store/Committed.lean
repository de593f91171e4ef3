import Baley.Store.Effects
import Baley.Store.Retention

/-!
# Runs of the store

A run performs one call after the other, each in its own write transaction.  The calls may name any
project, fail at any point and come in any order.
-/

namespace Baley

open Json

/-- One call of the store, with the engine it ran on. -/
inductive Call where
  | transact (engine : Engine) (command : Command) (script : Decide Decision)
  | claim (engine : Engine) (command : Command) (script : Decide ClaimDecision)
  | complete (engine : Engine) (command : Command) (owner : ClaimOwner) (script : Decide Decision)
  | reconcile (engine : Engine) (command : Command) (id : ClaimId) (authority : ReconcileAuthority)
      (script : Claim → Decide Reconciliation)
  | renewLease (engine : Engine) (project : ProjectId) (id : ClaimId) (owner : ClaimOwner)
      (renewedAt : String)
  | reduce (engine : Engine) (command : Command) (reference : PayloadReference)
  | purge (engine : Engine) (command : Command) (hashes : List Hash) (reason : String)
      (scrubbed : Bool)

/-- The command a call carries; a lease renewal carries none. -/
def Call.command? : Call → Option Command
  | .transact _ command _ => some command
  | .claim _ command _ => some command
  | .complete _ command _ _ => some command
  | .reconcile _ command _ _ _ => some command
  | .renewLease .. => none
  | .reduce _ command _ => some command
  | .purge _ command _ _ _ => some command

/-- What a call returns when it succeeds. -/
inductive Reply where
  | recorded (recorded : Recorded)
  | claimed (claimed : Claimed)
  | renewed
  | reduced (excerpt : PayloadRef)
  | purged (report : PurgeReport)

namespace Store

variable (store : Store)

def perform : Call → Db → Except StoreError Reply × Db
  | .transact engine command script, db =>
      resultOf .recorded (store.transact engine command script db)
  | .claim engine command script, db => resultOf .claimed (store.claim engine command script db)
  | .complete engine command owner script, db =>
      resultOf .recorded (store.complete engine command owner script db)
  | .reconcile engine command id authority script, db =>
      resultOf .recorded (store.reconcile engine command id authority script db)
  | .renewLease engine project id owner renewedAt, db =>
      resultOf (fun _ => .renewed) (store.renewLease engine project id owner renewedAt db)
  | .reduce engine command reference, db =>
      resultOf .reduced (store.reduce engine command reference db)
  | .purge engine command hashes reason scrubbed, db =>
      resultOf .purged (store.purge engine command hashes reason scrubbed db)

/-- The store after the calls, one after the other. -/
def run (calls : List Call) (db : Db) : Db :=
  calls.foldl (fun db call => (store.perform call db).2) db

/-- What holds at first and is kept by every call that is allowed holds after every run of them. -/
theorem run_holds {allowed : Call → Prop} {holds : Db → Prop}
    (step : ∀ call, allowed call → ∀ db, holds db → holds (store.perform call db).2)
    (calls : List Call) (all_allowed : ∀ call ∈ calls, allowed call) {db : Db} (first : holds db) :
    holds (store.run calls db) := by
  induction calls generalizing db with
  | nil => exact first
  | cons call calls ih =>
      refine ih (fun other other_mem => all_allowed other (List.mem_cons_of_mem _ other_mem)) ?_
      exact step call (all_allowed call (by simp)) db first

end Store

/-! ## What the command path commits

A call leaves the store as it was, when it fails or is answered from its request, or its turn ran to
the end and everything it did was written at once.
-/

namespace Store

variable (store : Store)

/-- What the lookup of a new command's request found: nothing, or the open claim its owner is
completing. -/
inductive Looked (command : Command) (entry : Entry) (rows : ProjectRows) : Option Claim → Prop
  | absent (found : store.lookupRequest rows ⟨command.kind, command.requestId⟩ = .ok none)
      (not_complete : ∀ owner, entry ≠ .complete owner) : Looked command entry rows none
  | owned {owner : ClaimOwner} {document : Document} {state : RequestState} {doc : ClaimDoc}
      (entry_eq : entry = .complete owner)
      (found : store.lookupRequest rows ⟨command.kind, command.requestId⟩ = .ok (some document))
      (state_eq : requestState document.body = some state)
      (open_eq : state = .claimed doc ∨ ∃ seq, state = .awaitingOwner doc seq)
      (not_held : (document.body.get? "state").bind Value.asStr ≠ some "awaiting_owner")
      (digest_eq : state.digest = command.digest) (owner_eq : doc.owner = owner)
      (scope_eq : doc.scope = command.scope) :
      Looked command entry rows (some (claimFromDoc rows doc none))

/-- What the lookup of an answered command's request found: a completed one, or for a claim an open
one. -/
inductive Answered {α : Type} (command : Command) (entry : Entry)
    (replay : Db → RequestState → Nat → Except StoreError α) (db : Db) (value : α) : Prop
  | completed {document : Document} {digest : Hash} {outcome replayed : Outcome}
      (found : store.lookupRequest (db.rows command.project) ⟨command.kind, command.requestId⟩ =
        .ok (some document))
      (state_eq : requestState document.body = some (.completed digest outcome))
      (digest_eq : digest = command.digest)
      (replayed_eq : replayedOutcome db command.project document.producedSeq outcome = .ok replayed)
      (value_eq : replay db (.completed digest replayed) document.producedSeq = .ok value)
  | «open» {document : Document} {state : RequestState} {doc : ClaimDoc}
      (entry_eq : entry = .claim)
      (found : store.lookupRequest (db.rows command.project) ⟨command.kind, command.requestId⟩ =
        .ok (some document))
      (state_eq : requestState document.body = some state)
      (open_eq : state = .claimed doc ∨ ∃ seq, state = .awaitingOwner doc seq)
      (digest_eq : state.digest = command.digest)
      (value_eq : replay db state document.producedSeq = .ok value)

/-- A command whose turn ran to the end and was written. -/
structure Ran {α : Type} (command : Command) (entry : Entry) (new : Option Claim → Turn α) (db : Db)
    (value : α) (head : Head) (written : Db) (before : Option Head) (own : Option Claim)
    (work : Work) : Prop where
  instant : (UtcInstant.parse command.recordedAt).isSome = true
  started : storedHead db command.project = .ok before
  looked : store.Looked command entry (db.rows command.project) own
  unblocked : store.checkScope (db.rows command.project) command (entry.excluded own) = .ok ()
  turned : new own (Work.new command db before (db.rows command.project).liveGen) =
    .ok (value, work)
  unfailed : work.failed = none
  attached : work.checkPayloadsAttached = .ok ()
  wrote : work.write store = .ok (head, written)

variable {store} {α : Type} {command : Command} {entry : Entry} {new : Option Claim → Turn α}
  {db written : Db} {replay : Db → RequestState → Nat → Except StoreError α}

theorem runNew_eq_ok {before : Option Head} {own : Option Claim} {result : CommandResult α}
    (succeeded : store.runNew command before entry own new db = .ok (result, written)) :
    ∃ value head work, result = .new value head ∧
      store.checkScope (db.rows command.project) command (entry.excluded own) = .ok () ∧
      new own (Work.new command db before (db.rows command.project).liveGen) =
        .ok (value, work) ∧
      work.failed = none ∧ work.checkPayloadsAttached = .ok () ∧
      work.write store = .ok (head, written) := by
  simp only [runNew, Except.bind_eq_ok, Prod.exists] at succeeded
  obtain ⟨_, readable, _, unblocked, value, work, turned, succeeded⟩ := succeeded
  split at succeeded
  · cases succeeded
  · next unfailed =>
      simp only [Except.bind_eq_ok, Prod.exists, Except.ok.injEq, Prod.mk.injEq] at succeeded
      obtain ⟨_, attached, head, db', wrote, rfl, rfl⟩ := succeeded
      exact ⟨value, head, work, rfl, unblocked, turned, unfailed, attached, wrote⟩

theorem openRequest_eq_ok {document : Document} {doc : ClaimDoc} {state : RequestState}
    {run : Option Claim → Db → Except StoreError (CommandResult α × Db)} {result : CommandResult α}
    (succeeded : openRequest command entry document doc state replay run db =
      .ok (result, written)) :
    (∃ owner, entry = .complete owner ∧
      (document.body.get? "state").bind Value.asStr ≠ some "awaiting_owner" ∧
      doc.owner = owner ∧ doc.scope = command.scope ∧
      run (some (claimFromDoc (db.rows command.project) doc none)) db = .ok (result, written)) ∨
    (entry = .claim ∧ ∃ value, replay db state document.producedSeq = .ok value ∧
      result = .replayed value ∧ written = db) := by
  unfold openRequest at succeeded
  split at succeeded
  · next owner =>
      simp only [Except.bind_eq_ok, Except.require_eq_ok] at succeeded
      obtain ⟨-, not_held, -, owner_eq, -, scope_eq, ran⟩ := succeeded
      exact Or.inl ⟨owner, rfl, not_held, owner_eq, scope_eq, ran⟩
  · simp only [Except.bind_eq_ok, Except.ok.injEq, Prod.mk.injEq] at succeeded
    obtain ⟨value, value_eq, rfl, rfl⟩ := succeeded
    exact Or.inr ⟨rfl, value, value_eq, rfl, rfl⟩
  · simp only at succeeded
    split at succeeded <;> cases succeeded

/-- A turn of the command path answered from the request and wrote nothing, or ran. -/
theorem commandTurn_eq_ok {result : CommandResult α}
    (instant : (UtcInstant.parse command.recordedAt).isSome = true)
    (succeeded : store.commandTurn command entry replay new db = .ok (result, written)) :
    (∃ value, result = .replayed value ∧ written = db ∧
      store.Answered command entry replay db value) ∨
    ∃ value head before own work, result = .new value head ∧
      store.Ran command entry new db value head written before own work := by
  simp only [commandTurn, Except.bind_eq_ok] at succeeded
  obtain ⟨before, started, found, found_eq, succeeded⟩ := succeeded
  have ran_of {own : Option Claim} (looked : store.Looked command entry (db.rows command.project) own)
      (ran : store.runNew command before entry own new db = .ok (result, written)) :
      ∃ value head before own work, result = .new value head ∧
        store.Ran command entry new db value head written before own work := by
    obtain ⟨value, head, work, result_eq, unblocked, turned, unfailed, attached, wrote⟩ :=
      runNew_eq_ok ran
    exact ⟨value, head, before, own, work, result_eq, instant, started, looked, unblocked, turned,
      unfailed, attached, wrote⟩
  cases found with
  | none =>
      simp only at succeeded
      split at succeeded
      · cases succeeded
      · next not_complete =>
          exact Or.inr (ran_of (.absent found_eq fun owner entry_eq => not_complete owner entry_eq)
            succeeded)
  | some document =>
      simp only at succeeded
      split at succeeded
      · cases succeeded
      · next state state_eq =>
          simp only [Except.bind_eq_ok, Except.require_eq_ok] at succeeded
          obtain ⟨-, digest_eq, succeeded⟩ := succeeded
          have opened {doc : ClaimDoc}
              (open_eq : state = .claimed doc ∨ ∃ seq, state = .awaitingOwner doc seq)
              (ran : openRequest command entry document doc state replay
                (fun own => store.runNew command before entry own new) db =
                  .ok (result, written)) :
              (∃ value, result = .replayed value ∧ written = db ∧
                store.Answered command entry replay db value) ∨
              ∃ value head before own work, result = .new value head ∧
                store.Ran command entry new db value head written before own work := by
            rcases openRequest_eq_ok ran with ⟨owner, entry_eq, not_held, owner_eq, scope_eq, ran⟩ |
              ⟨entry_eq, value, value_eq, result_eq, written_eq⟩
            · exact Or.inr (ran_of (.owned entry_eq found_eq state_eq open_eq not_held digest_eq
                owner_eq scope_eq) ran)
            · exact Or.inl ⟨value, result_eq, written_eq,
                .open entry_eq found_eq state_eq open_eq digest_eq value_eq⟩
          split at succeeded
          · next digest outcome =>
              simp only [Except.bind_eq_ok, Except.ok.injEq, Prod.mk.injEq] at succeeded
              obtain ⟨replayed, replayed_eq, value, value_eq, rfl, rfl⟩ := succeeded
              exact Or.inl ⟨value, rfl, rfl,
                .completed found_eq state_eq digest_eq replayed_eq value_eq⟩
          · exact opened (Or.inl rfl) succeeded
          · next doc seq => exact opened (Or.inr ⟨seq, rfl⟩) succeeded

/-- A transaction that succeeded did what its body did. -/
theorem transaction_eq_ok {engine : Engine} {body : Db → Except StoreError (α × Db)} {value : α}
    (succeeded : transaction engine body db = (.ok value, written)) :
    engine.commit = none ∧ body db = .ok (value, written) := by
  unfold transaction at succeeded
  split at succeeded
  · cases succeeded
  · next body_eq =>
      split at succeeded
      · cases succeeded
      · next commit_eq =>
          obtain ⟨value_eq, rfl⟩ := Prod.mk.inj succeeded
          obtain rfl := Except.ok.inj value_eq
          exact ⟨commit_eq, body_eq⟩

/-- A transaction that failed left the store as it was. -/
theorem transaction_eq_error {engine : Engine} {body : Db → Except StoreError (α × Db)}
    {error : StoreError} (failed : transaction engine body db = (.error error, written)) :
    written = db := by
  unfold transaction at failed
  split at failed
  · exact (Prod.mk.inj failed).2.symm
  · split at failed
    · exact (Prod.mk.inj failed).2.symm
    · cases (Prod.mk.inj failed).1

/-- What a lease renewal found and wrote. -/
theorem renewedLease_eq_ok {project : ProjectId} {id : ClaimId} {owner : ClaimOwner}
    {renewedAt : String} {done : Unit}
    (succeeded : store.renewedLease project id owner renewedAt db = .ok (done, written)) :
    ∃ document doc, store.lookupRequest (db.rows project) id = .ok (some document) ∧
      requestState document.body = some (.claimed doc) ∧ doc.id = id ∧ doc.owner = owner ∧
      (UtcInstant.parse renewedAt).isSome = true ∧
      written = db.setRows project
        { db.rows project with
          leases := (db.rows project).leases.insert id { claimSeq := doc.seq, renewedAt } } := by
  simp only [renewedLease, Except.bind_eq_ok, Except.require_eq_ok, Except.ofOption_eq_ok,
    sqlInt_eq_ok, Except.ok.injEq, Prod.mk.injEq] at succeeded
  obtain ⟨-, -, found, found_eq, document, rfl, doc, claimed, -, id_eq, -, owner_eq, renewed,
    renewed_eq, -, -, -, -, _, ⟨-, rfl⟩, -, rfl⟩ := succeeded
  refine ⟨document, doc, found_eq, ?_, id_eq, owner_eq, by rw [renewed_eq]; rfl, rfl⟩
  unfold claimedDocOf at claimed
  split at claimed
  · cases claimed
  · next state_eq =>
      cases claimed
      exact state_eq
  · cases claimed

/-- A command failed or was answered and wrote nothing, or its turn ran. -/
theorem commandPathFor_cases (store : Store) (engine : Engine) (command : Command) (entry : Entry)
    (replay : Db → RequestState → Nat → Except StoreError α) (new : Option Claim → Turn α)
    (db : Db) :
    (∃ error, store.commandPathFor engine command entry replay new db = (.error error, db)) ∨
    (∃ value, store.commandPathFor engine command entry replay new db = (.ok (.replayed value), db) ∧
      store.Answered command entry replay db value) ∨
    ∃ value head written before own work,
      store.commandPathFor engine command entry replay new db = (.ok (.new value head), written) ∧
      store.Ran command entry new db value head written before own work := by
  unfold commandPathFor
  split
  · exact Or.inl ⟨_, rfl⟩
  · next instant =>
      cases result_eq : transaction engine (store.commandTurn command entry replay new) db with
      | mk result written =>
          cases result with
          | error error =>
              obtain rfl := transaction_eq_error result_eq
              exact Or.inl ⟨error, rfl⟩
          | ok result =>
              obtain ⟨-, turned⟩ := transaction_eq_ok result_eq
              rcases commandTurn_eq_ok (by rw [instant]; rfl) turned with
                ⟨value, rfl, rfl, answered⟩ | ⟨value, head, before, own, work, rfl, ran⟩
              · exact Or.inr (Or.inl ⟨value, rfl, answered⟩)
              · exact Or.inr (Or.inr ⟨value, head, written, before, own, work, rfl, ran⟩)

/-- A lease renewal changes no row but the leases of its project. -/
theorem perform_renewLease (store : Store) (engine : Engine) (project : ProjectId) (id : ClaimId)
    (owner : ClaimOwner) (renewedAt : String) (db : Db) :
    (store.perform (.renewLease engine project id owner renewedAt) db).2 = db ∨
      ∃ leases, (store.perform (.renewLease engine project id owner renewedAt) db).2 =
        db.setRows project { db.rows project with leases } := by
  simp only [perform, renewLease, resultOf]
  cases result_eq : transaction engine (store.renewedLease project id owner renewedAt) db with
  | mk result written =>
      cases result with
      | error error =>
          obtain rfl := transaction_eq_error result_eq
          exact .inl rfl
      | ok done =>
          obtain ⟨-, renewed⟩ := transaction_eq_ok result_eq
          obtain ⟨-, -, -, -, -, -, -, rfl⟩ := renewedLease_eq_ok renewed
          exact .inr ⟨_, rfl⟩

/-- A purge leaves what its command path leaves, except for the scrub that is pending. -/
theorem perform_purge (store : Store) (engine : Engine) (command : Command) (hashes : List Hash) (reason : String)
    (scrubbed : Bool) (db : Db) :
    ∃ scrubPending, (store.perform (.purge engine command hashes reason scrubbed) db).2 =
      { (store.logicalPurge engine command hashes reason db).2 with scrubPending } := by
  simp only [perform, purge, resultOf]
  split
  · next error written path_eq =>
      rw [path_eq]
      exact ⟨written.scrubPending, rfl⟩
  · next answer written path_eq =>
      rw [path_eq]
      exact ⟨_, rfl⟩

end Store

end Baley
