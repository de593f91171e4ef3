import Baley.Store.Filing

/-!
# What a turn does to the requests

Each turn of the command path leaves the requests a few moves away from where it found them, and its
decision, whatever it asks of the store, moves none of them.
-/

namespace Baley

open Json Attempt Register

namespace Work

variable {store : Store} {command : Command} {db : Db} {shown : Shown} {work after : Work}

/-! ## Turns that move no request -/

theorem Files.congr (files : Files command db shown work) (within : Within command db after)
    (documents_eq : after.rows.documents = work.rows.documents) (generation_eq : after.generation = work.generation)
    (staged_eq : after.staged = work.staged) : Files command db shown after := by
  refine ⟨within, ?_, ?_⟩
  · rw [documents_eq, generation_eq, staged_eq]
    exact files.sound
  · rw [Work.shown, documents_eq, generation_eq, staged_eq]
    exact files.shown_eq

/-- An event of a decision is none of the store's own. -/
theorem quiet_of_domain {event : NewEvent} (domain : storeOwned event.typeName = false) : Quiet event := by
  refine ⟨?_, ?_, ?_⟩ <;>
  · intro same
    rw [same] at domain
    exact absurd domain (by decide)

theorem Files.invariant (store : Store) (command : Command) (db : Db) (shown : Shown) :
    Invariant store Quiet (Files command db shown) where
  failed work error files := files.congr ⟨files.within.1, files.within.2, files.within.3, files.within.4⟩ rfl rfl rfl
  anchored work anchors files :=
    files.congr ⟨files.within.1, files.within.2, files.within.3, files.within.4⟩ rfl rfl rfl
  put work put files := files.congr ⟨files.within.1, files.within.2, files.within.3, files.within.4⟩ rfl rfl rfl
  stored work after bytes retention reference files put_eq := by
    obtain ⟨-, ⟨_, -, -, rfl⟩ | ⟨-, rfl⟩⟩ := putPayload_eq_ok put_eq
    · exact files
    · exact files.congr ⟨files.within.1, files.within.2, files.within.3, files.within.4⟩ rfl rfl rfl
  leased work leases files := files.congr (files.within.setRows rfl) (by rw [rows_setRows]) rfl rfl
  pushed event work after recorded copy quiet files pushed := files.quiet quiet pushed

/-- A decision moves no request. -/
theorem Files.decided (files : Files command db shown work) {engine : Engine} {α : Type} {script : Decide α}
    {value : α} (succeeded : decide store engine script work = .ok (value, after)) :
    Files command db shown after := by
  have issues : script.Issues Quiet fun _ => True :=
    Decide.issues_of_forall (fun _ domain _ => quiet_of_domain domain) (fun _ => trivial) script
  exact (Files.invariant store command db shown).keeps_decide engine issues _ _ _ files succeeded

/-- Storing an outcome moves no request. -/
theorem Files.outcome (files : Files command db shown work) {decision : Decision} {result : Outcome}
    (succeeded : outcome store decision work = .ok (result, after)) :
    Files command db shown after ∧ result.answer.toValue.WellFormed := by
  have fits : decision.Fits .any := fun _ => trivial
  exact ⟨(Files.invariant store command db shown).keeps_outcome decision _ _ _ files succeeded,
    (admits_outcome fits succeeded).1⟩

/-- A request is read as the turn shows it while nothing was staged for it. -/
theorem Files.getDocument_eq (files : Files command db shown work) {id : ClaimId} {found : Option Document}
    (unstaged : work.staged.lookup (requestView, id.key) = none)
    (read : work.getDocument store requestView id.key = .ok found) :
    shown requestView id.key = found.map Document.body := by
  have declared : requestView ∈ ownViews := by decide
  rw [Work.getDocument, table_request] at read
  have staged_eq : work.staged.lookup (requestSpec.name, id.key) = none := unstaged
  simp only [Except.bind_eq_ok, Except.ok.injEq, getStaged] at read
  obtain ⟨_, rfl, read⟩ := read
  rw [staged_eq] at read
  rw [← files.shown_eq _ declared]
  exact (files.sound _ declared).getDocument_eq requestSpec unstaged read

/-! ## Turns that close a request -/

/-- The turn left documents that file these requests. -/
def Leaves (command : Command) (db : Db) (requests : Requests) (work : Work) : Prop :=
  ∃ shown, Files command db shown work ∧ shown.Filed ∧ shown.requests = requests

theorem finish_eq_ok {outcome : Outcome} {git : Option GitFacts} {observed : Option Observed} {seq : Nat}
    (succeeded : finish store outcome git observed work = .ok (seq, after)) :
    completeFor store work.command.kind work.command.requestId work.command.digest [] outcome git work =
      .ok (seq, after) := by
  unfold finish at succeeded
  cases observed with
  | none =>
      simp only [bind_eq_ok, get_eq_ok] at succeeded
      obtain ⟨_, _, ⟨rfl, rfl⟩, succeeded⟩ := succeeded
      exact succeeded
  | some observed =>
      simp only [bind_eq_ok, get_eq_ok] at succeeded
      obtain ⟨_, _, recheck_eq, _, _, ⟨rfl, rfl⟩, succeeded⟩ := succeeded
      rwa [recheck_eq_ok recheck_eq] at succeeded

/-- A command completes its own new request at once. -/
theorem Files.finished (files : Files command db shown work) (filed : shown.Filed)
    (free : shown.requests command.id = none) {outcome : Outcome} {git : Option GitFacts}
    {observed : Option Observed} {seq : Nat}
    (succeeded : finish store outcome git observed work = .ok (seq, after))
    (wellFormed : outcome.answer.toValue.WellFormed) :
    Leaves command db (shown.requests.put command.id (.closed (command.digest, outcome.recorded))) after := by
  have completed := finish_eq_ok succeeded
  rw [files.within.command_eq] at completed
  exact files.completed filed completed wellFormed (.inl ⟨free, rfl⟩)

/-- A turn that moves no request completes its own. -/
theorem Files.completing {α : Type} {new : Turn (α × Outcome × Option GitFacts × Option Observed)} {value : α}
    (filed : shown.Filed) (free : shown.requests command.id = none)
    (first : ∀ result middle, new work = .ok (result, middle) →
      Files command db shown middle ∧ result.2.1.answer.toValue.WellFormed)
    (succeeded : completing store new work = .ok (value, after)) :
    ∃ outcome, Leaves command db (shown.requests.put command.id (.closed (command.digest, outcome))) after := by
  unfold Work.completing at succeeded
  obtain ⟨⟨result, outcome, git, observed⟩, middle, new_eq, succeeded⟩ := bind_eq_ok.mp succeeded
  obtain ⟨files, wellFormed⟩ := first _ _ new_eq
  obtain ⟨_, last, finish_eq, succeeded⟩ := bind_eq_ok.mp succeeded
  obtain ⟨-, rfl⟩ := pure_eq_ok.mp succeeded
  exact ⟨outcome.recorded, files.finished filed free finish_eq wellFormed⟩

/-- Closing an open claim frees its tokens and drops its lease. -/
theorem Files.closed (files : Files command db shown work) (filed : shown.Filed) {id : ClaimId}
    {claim : OpenRequest} (opens : shown.requests.Opens id claim) {digest : Hash} {decision : Decision}
    {result : Outcome}
    (succeeded : closeClaim store id digest claim.doc.scope decision work = .ok (result, after)) :
    Leaves command db (shown.requests.put id (.closed (digest, result.recorded))) after := by
  simp only [closeClaim, bind_eq_ok, pure_eq_ok] at succeeded
  obtain ⟨stored, middle, outcome_eq, _, _, recheck_eq, _, completed, complete_eq, _, _, lease_eq, rfl, rfl⟩ :=
    succeeded
  obtain ⟨middle_files, wellFormed⟩ := files.outcome outcome_eq
  rw [recheck_eq_ok recheck_eq] at complete_eq
  obtain ⟨shown', files', filed', requests_eq⟩ :=
    middle_files.completed filed complete_eq wellFormed (.inr ⟨claim, opens, rfl⟩)
  exact ⟨shown', (Files.invariant store command db shown').keeps_dropLease id _ _ _ files' lease_eq, filed',
    requests_eq⟩

/-! ## The turns of the calls -/

end Work

/-- A claim that a command opened. -/
structure OpenRequest.Taken (claim : OpenRequest) (command : Command) : Prop where
  scope_eq : claim.doc.scope = command.scope
  digest_eq : claim.doc.digest = command.digest
  unheld : claim.heldAt = none

/-- What a reconciliation leaves of the open claim it names. -/
inductive OpenRequest.Settled (claim : OpenRequest) : Standing OpenRequest (Hash × Outcome) → Prop
  | held (seq : Nat) : claim.Settled (.opened { claim with heldAt := some seq })
  | closed (outcome : Outcome) : claim.Settled (.closed (claim.doc.digest, outcome))

/-- A claim that an authority may reconcile now: it was interrupted, or it waits for the owner. -/
def OpenRequest.Settleable (claim : OpenRequest) (rows : ProjectRows) (now : String)
    (authority : ReconcileAuthority) : Prop :=
  claimState (claimFromDoc rows claim.doc claim.heldAt) now = some .interrupted ∨
    claimState (claimFromDoc rows claim.doc claim.heldAt) now = some .awaitingOwner ∧ authority = .owner

namespace Work

variable {store : Store} {command : Command} {db : Db} {shown : Shown} {work after : Work}

/-- A transaction completes its own request. -/
theorem Files.transacted (files : Files command db shown work) (filed : shown.Filed)
    (free : shown.requests command.id = none) {engine : Engine} {script : Decide Decision} {value : Outcome}
    (succeeded : Work.completing store (transactTurn store engine script) work = .ok (value, after)) :
    ∃ outcome, Leaves command db (shown.requests.put command.id (.closed (command.digest, outcome))) after := by
  refine Files.completing filed free (fun result middle first_eq => ?_) succeeded
  simp only [transactTurn, bind_eq_ok, pure_eq_ok] at first_eq
  obtain ⟨decision, decided, decide_eq, stored, last, outcome_eq, rfl, rfl⟩ := first_eq
  exact (files.decided decide_eq).outcome outcome_eq

/-- A claim that is not refused opens its own request with the command's tokens. -/
theorem Files.claimed (files : Files command db shown work) (filed : shown.Filed)
    (free : shown.requests command.id = none)
    (apart : ∀ token ∈ command.scope, shown claimScopeView [.text token] = none) {engine : Engine}
    {script : Decide ClaimDecision} {value : Claimed}
    (succeeded : claimTurn store engine command script work = .ok (value, after)) :
    (∃ outcome, Leaves command db (shown.requests.put command.id (.closed (command.digest, outcome))) after) ∨
      ∃ claim : OpenRequest, claim.Taken command ∧
        Leaves command db (shown.requests.put command.id (.opened claim)) after := by
  simp only [claimTurn, bind_eq_ok] at succeeded
  obtain ⟨decision, decided, decide_eq, claimed_eq⟩ := succeeded
  have decided_files := files.decided decide_eq
  cases decision with
  | refuse decision =>
      simp only [claimedAs, bind_eq_ok, get_eq_ok, attempt_eq_ok, pure_eq_ok] at claimed_eq
      obtain ⟨stored, middle, outcome_eq, _, last, finish_eq, _, _, ⟨-, rfl⟩, _, _, ⟨-, rfl⟩, -, rfl⟩ :=
        claimed_eq
      obtain ⟨stored_files, wellFormed⟩ := decided_files.outcome outcome_eq
      exact .inl ⟨stored.recorded, stored_files.finished filed free finish_eq wellFormed⟩
  | claim intent wellFormed owner git observed =>
      simp only [claimedAs, takeClaim, bind_eq_ok, attempt_eq_ok, pure_eq_ok] at claimed_eq
      obtain ⟨_, _, ⟨_, _, ⟨-, rfl⟩, _, _, recheck_eq, seq, middle, push_eq, _, last, lease_eq, rfl, rfl⟩, -, rfl⟩ :=
        claimed_eq
      rw [recheck_eq_ok recheck_eq] at push_eq
      obtain ⟨shown', files', filed', requests_eq⟩ := decided_files.taken filed push_eq wellFormed free apart
      refine .inr ⟨_, ?_, shown', ?_, filed', requests_eq⟩
      · exact ⟨rfl, rfl, rfl⟩
      · exact (Files.invariant store command db shown').keeps_setLease _ seq _ _ _ _ files' lease_eq

/-- A completion closes the open claim it looked up. -/
theorem Files.ended (files : Files command db shown work) (filed : shown.Filed) {id : ClaimId}
    {claim : OpenRequest} (opens : shown.requests.Opens id claim) {own : Claim} (id_eq : own.id = id)
    (scope_eq : own.scope = claim.doc.scope) {engine : Engine} {script : Decide Decision} {value : Outcome}
    (succeeded : completeTurn store engine command script (some own) work = .ok (value, after)) :
    Leaves command db (shown.requests.put id (.closed (command.digest, value.recorded))) after := by
  simp only [completeTurn, bind_eq_ok, attempt_eq_ok] at succeeded
  obtain ⟨found, _, ⟨found_eq, rfl⟩, decision, middle, decide_eq, close_eq⟩ := succeeded
  obtain rfl := Option.some.inj (Except.ofOption_eq_ok.mp found_eq)
  rw [id_eq, scope_eq] at close_eq
  exact (files.decided decide_eq).closed filed opens close_eq

/-- A reconciliation holds or closes the open claim it names, and completes its own request. -/
theorem Files.settled (files : Files command db shown work) (filed : shown.Filed)
    (free : shown.requests command.id = none) (unstaged : work.staged = ∅) {engine : Engine} {id : ClaimId}
    {authority : ReconcileAuthority} {script : Claim → Decide Reconciliation} {value : Outcome}
    (succeeded : reconcileClaim store engine command id authority script work = .ok (value, after)) :
    ∃ claim, shown.requests.Opens id claim ∧ claim.Settleable work.rows command.recordedAt authority ∧
      command.id ≠ id ∧ ∃ standing outcome, claim.Settled standing ∧
        Leaves command db ((shown.requests.put id standing).put command.id (.closed (command.digest, outcome)))
          after := by
  simp only [reconcileClaim, bind_eq_ok, Prod.exists] at succeeded
  obtain ⟨doc, claim, _, found_eq, result, decided, decide_eq, reconciled_eq⟩ := succeeded
  obtain ⟨rfl, document, held, read, holds, doc_id, rfl, settleable⟩ := reconcilable_eq_ok found_eq
  have stands : shown requestView id.key = some document.body :=
    files.getDocument_eq (by rw [unstaged, AList.lookup_empty]) read
  have opens : shown.requests.Opens id ⟨doc, held⟩ := by
    cases held with
    | none => exact Shown.requests_eq stands holds
    | some seq => exact Shown.requests_eq stands holds
  have differs : command.id ≠ id := by
    intro same
    rw [same, opens] at free
    cases free
  simp only [reconciledAs, bind_eq_ok] at reconciled_eq
  obtain ⟨_, _, recheck_eq, seq, middle, push_eq, rest_eq⟩ := reconciled_eq
  rw [recheck_eq_ok recheck_eq] at push_eq
  obtain ⟨held_shown, held_files, held_filed, held_eq⟩ :=
    (files.decided decide_eq).reconciled filed opens push_eq result.finding_wellFormed
  have held_free : held_shown.requests command.id = none := by
    rw [held_eq, Register.put_apply, if_neg differs, free]
  have wellFormed := (admits_reconcileAnswer .any id seq (Resolution.recorded result.resolution)).1
  refine ⟨⟨doc, held⟩, opens, settleable, differs, ?_⟩
  cases resolution_eq : result.resolution with
  | resolved decision =>
      rw [resolution_eq] at rest_eq wellFormed
      simp only [bind_eq_ok, pure_eq_ok] at rest_eq
      obtain ⟨stored, _, close_eq, _, _, finish_eq, -, rfl⟩ := rest_eq
      have held_opens : held_shown.requests.Opens id ⟨doc, held⟩ := by
        rw [Register.Opens, held_eq, Register.put_apply, if_pos rfl, resolution_eq]
        rfl
      obtain ⟨closed_shown, closed_files, closed_filed, closed_eq⟩ :=
        held_files.closed held_filed held_opens close_eq
      have closed_free : closed_shown.requests command.id = none := by
        rw [closed_eq, Register.put_apply, if_neg differs, held_free]
      have settled_eq : closed_shown.requests = shown.requests.put id (.closed (doc.digest, stored.recorded)) := by
        rw [closed_eq, held_eq]
        exact Function.update_idem ..
      exact ⟨_, _, .closed stored.recorded,
        settled_eq ▸ closed_files.finished closed_filed closed_free finish_eq wellFormed⟩
  | awaitingOwner =>
      rw [resolution_eq] at rest_eq wellFormed held_eq
      simp only [bind_eq_ok, pure_eq_ok] at rest_eq
      obtain ⟨_, _, finish_eq, -, rfl⟩ := rest_eq
      exact ⟨_, _, .held seq, held_eq ▸ held_files.finished held_filed held_free finish_eq wellFormed⟩

/-! ## The turns of retention -/

theorem Files.stored (files : Files command db shown work) (payloads : Table Hash PayloadRow)
    (scrubPending : Option String) :
    Files command db shown { work with db := { work.db with payloads, scrubPending } } :=
  files.congr ⟨files.within.1, files.within.2, files.within.3, files.within.4⟩ rfl rfl rfl

theorem Files.released (files : Files command db shown work) {releasedSeq : Nat} {pair : Nat × Hash}
    {done : Unit} (succeeded : release releasedSeq pair work = .ok (done, after)) :
    Files command db shown after := by
  rcases release_eq_ok succeeded with ⟨rfl, -⟩ | ⟨row, -, -, rfl⟩
  · exact files
  · exact files.congr (files.within.setRows rfl) (by rw [rows_setRows]) rfl rfl

theorem Files.releasedAll {releasedSeq : Nat} {pairs : List (Nat × Hash)} {done : Unit}
    (files : Files command db shown work) (succeeded : releaseAll releasedSeq pairs work = .ok (done, after)) :
    Files command db shown after := by
  induction pairs generalizing work with
  | nil =>
      obtain ⟨-, rfl⟩ := pure_eq_ok.mp succeeded
      exact files
  | cons pair pairs ih =>
      obtain ⟨_, middle, release_eq, rest_eq⟩ := bind_eq_ok.mp succeeded
      exact ih (files.released release_eq) rest_eq

/-- A reduction moves no request but its own. -/
theorem Files.reduced (files : Files command db shown work) (filed : shown.Filed)
    (free : shown.requests command.id = none) {reference : PayloadReference} {value : PayloadRef}
    (succeeded : Work.completing store (reduceReference store command reference) work = .ok (value, after)) :
    ∃ outcome, Leaves command db (shown.requests.put command.id (.closed (command.digest, outcome))) after := by
  refine Files.completing filed free (fun result middle first_eq => ?_) succeeded
  simp only [reduceReference, bind_eq_ok, pure_eq_ok] at first_eq
  obtain ⟨⟨body, kept⟩, _, read_eq, excerpt, _, put_eq, seq, appended, push_eq, _, _, release_eq, _, _, reduce_eq,
    rfl, rfl⟩ := first_eq
  have invariant := Files.invariant store command db shown
  have read_files := Invariant.keeps_reading _ _ _ _ files read_eq
  have put_files := invariant.keeps_putBody _ _ _ _ _ read_files put_eq
  have quiet : payloadReduced ≠ commandClaimed ∧ payloadReduced ≠ commandCompleted ∧
      payloadReduced ≠ commandReconciled := by decide
  have push_files : Files command db shown appended := by
    refine invariant.keeps_push _ ?_ _ _ _ put_files push_eq
    exact quiet
  have release_files := push_files.released release_eq
  refine ⟨?_, (admits_inlineEvent .any seq).1⟩
  rcases reduceBody_eq_ok reduce_eq with ⟨rfl, -⟩ | ⟨-, -, row, -, rfl⟩
  · exact release_files
  · exact release_files.stored _ _

/-- A purge moves no request but its own. -/
theorem Files.purged (files : Files command db shown work) (filed : shown.Filed)
    (free : shown.requests command.id = none) {hashes : List Hash} {reason : String} {value : PurgeAnswer}
    (succeeded : Work.completing store (purgeBodies store command hashes reason) work = .ok (value, after)) :
    ∃ outcome, Leaves command db (shown.requests.put command.id (.closed (command.digest, outcome))) after := by
  refine Files.completing filed free (fun result middle first_eq => ?_) succeeded
  simp only [purgeBodies, bind_eq_ok, attempt_eq_ok, get_eq_ok, modify_eq_ok, pure_eq_ok] at first_eq
  obtain ⟨_, _, ⟨-, rfl⟩, _, _, ⟨rfl, rfl⟩, own, _, ⟨-, rfl⟩, _, _, release_eq, event, _, remove_eq, _, _,
    ⟨rfl, rfl⟩, seq, appended, push_eq, _, _, rfl, rfl, rfl⟩ := first_eq
  have release_files := files.releasedAll release_eq
  obtain ⟨rfl, -⟩ := removeBodies_eq_ok remove_eq
  rw [Db.removeUnrequired_rest] at push_eq
  have quiet : payloadPurged ≠ commandClaimed ∧ payloadPurged ≠ commandCompleted ∧
      payloadPurged ≠ commandReconciled := by decide
  have push_files : Files command db shown appended := by
    refine (Files.invariant store command db shown).keeps_push _ ?_ _ _ _ (release_files.stored _ _) push_eq
    exact quiet
  exact ⟨push_files.stored _ _, (admits_inlineEvent .any seq).1⟩

end Work

end Baley
