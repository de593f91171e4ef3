import Baley.Store.Committed

/-!
# What a turn keeps

An invariant that every operation of a turn keeps is kept by a decision and by the turns of the
command path.  The payloads a turn records may be bounded in how deep they nest.
-/

namespace Baley

open Json Attempt

/-! ## How deep payloads nest -/

/-- Which nestings the payloads of a run may have. -/
structure Depth where
  fits : Nat → Prop
  down : ∀ {less more}, less ≤ more → fits more → fits less
  /-- What the store itself adds around a value always fits. -/
  small : fits 4

namespace Depth

/-- Payloads of any nesting. -/
def any : Depth where
  fits := fun _ => True
  down := fun _ fits => fits
  small := trivial

/-- Payloads the store can read back. -/
def readable : Depth where
  fits := fun nesting => nesting < recursionLimit
  down := fun less_le fits => lt_of_le_of_lt less_le fits
  small := by decide

theorem fits_max (depth : Depth) {first second : Nat} (first_fits : depth.fits first)
    (second_fits : depth.fits second) : depth.fits (max first second) := by
  rcases max_choice first second with max_eq | max_eq
  · rw [max_eq]
    exact first_fits
  · rw [max_eq]
    exact second_fits

/-- An event whose payload is well formed and nests no deeper. -/
def Admits (depth : Depth) (event : NewEvent) : Prop :=
  event.payload.WellFormed ∧ depth.fits event.payload.nesting

/-- An outcome whose completion nests no deeper. -/
def AdmitsOutcome (depth : Depth) (outcome : Outcome) : Prop :=
  outcome.answer.toValue.WellFormed ∧ depth.fits (outcome.answer.toValue.nesting + 1)

end Depth

/-- A decision whose answer, if it stays inline, nests no deeper inside its completion. -/
def Decision.Fits (depth : Depth) (decision : Decision) : Prop :=
  decision.StaysInline → depth.fits (decision.answer.nesting + 2)

def ClaimDecision.Fits (depth : Depth) : ClaimDecision → Prop
  | .claim intent .. => depth.fits (intent.nesting + 1)
  | .refuse decision => decision.Fits depth

def Reconciliation.Fits (depth : Depth) (reconciliation : Reconciliation) : Prop :=
  depth.fits (reconciliation.finding.nesting + 1) ∧
    match reconciliation.resolution with
    | .resolved decision => decision.Fits depth
    | .awaitingOwner => True

/-- An event the operation may append is allowed. -/
def Operation.Issued (may : NewEvent → Prop) : Operation → Prop
  | .append event _ => storeOwned event.typeName = false → may event
  | _ => True

theorem Operation.issued_of_forall {may : NewEvent → Prop}
    (domain_may : ∀ event, storeOwned event.typeName = false → event.payload.WellFormed → may event)
    (operation : Operation) : operation.Issued may := by
  cases operation with
  | append event wellFormed => exact fun domain => domain_may event domain wellFormed
  | _ => trivial

/-- Every event a decision may append is allowed, and its result is as stated. -/
def Decide.Issues {α : Type} (may : NewEvent → Prop) (ends : α → Prop) (script : Decide α) : Prop :=
  script.All (Operation.Issued may) fun result => ∀ value, result = .ok value → ends value

theorem Decide.issues_of_forall {α : Type} {may : NewEvent → Prop} {ends : α → Prop}
    (domain_may : ∀ event, storeOwned event.typeName = false → event.payload.WellFormed → may event)
    (ends_all : ∀ value, ends value) (script : Decide α) : script.Issues may ends :=
  script.all_of_forall (Operation.issued_of_forall domain_may) fun _ value _ => ends_all value

/-! ## Operations -/

namespace Work

variable {store : Store} {may : NewEvent → Prop} {holds : Work → Prop}

/-- An invariant of the work of a turn that may record the events `may` allows. -/
structure Invariant (store : Store) (may : NewEvent → Prop) (holds : Work → Prop) : Prop where
  failed : ∀ work error, holds work →
    holds { work with failed := work.failed.or (some error) }
  anchored : ∀ work anchors, holds work → holds { work with anchors }
  put : ∀ work put, holds work → holds { work with put }
  stored : ∀ work db bytes retention reference, holds work →
    putPayload store work.db bytes retention = .ok (reference, db) → holds { work with db }
  leased : ∀ work leases, holds work → holds (work.setRows { work.rows with leases })
  pushed : ∀ event work after recorded copy, may event → holds work →
    Pushed store event work after recorded copy → holds after

namespace Invariant

theorem keeps_push (invariant : Invariant store may holds) (event : NewEvent)
    (allowed : may event) : Keeps holds (push store event) := by
  intro before seq after before_holds succeeded
  obtain ⟨recorded, copy, -, pushed⟩ := push_eq_ok succeeded
  exact invariant.pushed event before after recorded copy allowed before_holds pushed

theorem keeps_putBody (invariant : Invariant store may holds) (bytes : List UInt8)
    (retention : RetentionClass) : Keeps holds (putBody store bytes retention) := by
  intro before reference after before_holds succeeded
  obtain ⟨db, put_eq, rfl⟩ := putBody_eq_ok succeeded
  exact invariant.put _ _ (invariant.stored before db bytes retention reference before_holds put_eq)

theorem keeps_stageAnchor (invariant : Invariant store may holds) (anchor : Anchor)
    (tag remote observedAt : String) : Keeps holds (stageAnchor anchor tag remote observedAt) := by
  intro before done after before_holds succeeded
  obtain ⟨anchors, rfl⟩ := stageAnchor_eq_ok succeeded
  exact invariant.anchored before anchors before_holds

theorem keeps_outcome (invariant : Invariant store may holds) (decision : Decision) :
    Keeps holds (outcome store decision) := by
  intro before result after before_holds succeeded
  obtain ⟨-, ⟨-, -, rfl⟩ | ⟨bytes, reference, db, -, -, put_eq, rfl⟩⟩ := outcome_eq_ok succeeded
  · exact before_holds
  · exact invariant.stored before db bytes .record reference before_holds put_eq

theorem keeps_setLease (invariant : Invariant store may holds) (id : ClaimId) (seq : Nat)
    (renewedAt : String) : Keeps holds (setLease id seq renewedAt) := by
  intro before done after before_holds succeeded
  rw [setLease_eq_ok succeeded]
  exact invariant.leased before _ before_holds

theorem keeps_dropLease (invariant : Invariant store may holds) (id : ClaimId) :
    Keeps holds (dropLease id) := by
  intro before done after before_holds succeeded
  obtain ⟨-, rfl⟩ := Prod.mk.inj (Except.ok.inj succeeded)
  exact invariant.leased before _ before_holds

theorem keeps_recheck (observed : Observed) : Keeps holds (recheck store observed) := by
  intro before done after before_holds succeeded
  rw [recheck_eq_ok succeeded]
  exact before_holds

theorem keeps_reading {α : Type} (read : Work → Except StoreError α) :
    Keeps holds (reading read) := by
  intro before value after before_holds succeeded
  obtain ⟨-, rfl⟩ := reading_eq_ok succeeded
  exact before_holds

/-- An operation of a decision leaves what its turn keeps, whether it succeeds or fails. -/
theorem noted_holds (invariant : Invariant store may holds) {α : Type} {turn : Turn α}
    (keeps : Keeps holds turn) (fault : Option StoreError) {work : Work} (work_holds : holds work) :
    holds (noted fault turn work).2 := by
  unfold noted
  split
  · next value after succeeded => exact keeps work value after work_holds (under_eq_ok succeeded)
  · exact invariant.failed work _ work_holds

/-- Each operation of a decision leaves what its turn keeps. -/
theorem handle_holds (invariant : Invariant store may holds) (engine : Engine)
    (operation : Operation) (allowed : operation.Issued may) {work : Work}
    (work_holds : holds work) : holds (handle store engine operation work).2 := by
  cases operation with
  | append event wellFormed =>
      refine invariant.noted_holds ?_ _ work_holds
      intro before seq after before_holds succeeded
      obtain ⟨domain, pushed⟩ := appendDomain_eq_ok succeeded
      exact invariant.keeps_push event (allowed domain) before seq after before_holds pushed
  | putPayload bytes retention =>
      exact invariant.noted_holds (invariant.keeps_putBody bytes retention) _ work_holds
  | recordAnchor anchor tag remote observedAt =>
      exact invariant.noted_holds (invariant.keeps_stageAnchor anchor tag remote observedAt) _
        work_holds
  | head => exact work_holds
  | get view key => exact invariant.noted_holds (keeps_reading _) _ work_holds
  | find view query => exact invariant.noted_holds (keeps_reading _) _ work_holds
  | eventExists matching => exact invariant.noted_holds (keeps_reading _) _ work_holds
  | expect stream version => exact invariant.noted_holds (keeps_reading _) _ work_holds
  | openClaims => exact invariant.noted_holds (keeps_reading _) _ work_holds

/-- What the operations keep, a decision keeps. -/
theorem keeps_decide (invariant : Invariant store may holds) (engine : Engine) {α : Type}
    {ends : α → Prop} {script : Decide α} (issues : script.Issues may ends) :
    Keeps holds (decide store engine script) := by
  intro before value after before_holds succeeded
  simp only [decide, Except.map_eq_ok, Prod.mk.injEq] at succeeded
  obtain ⟨result, -, -, rfl⟩ := succeeded
  exact (issues.run (handle store engine)
    (fun operation work allowed => invariant.handle_holds engine operation allowed)
    before_holds).1

end Invariant

/-- What a decision returns is what its script may end with. -/
theorem decide_ends {engine : Engine} {α : Type} {ends : α → Prop} {script : Decide α}
    (issues : script.Issues may ends) {before after : Work} {value : α}
    (succeeded : decide store engine script before = .ok (value, after)) : ends value := by
  simp only [decide, Except.map_eq_ok, Prod.mk.injEq] at succeeded
  obtain ⟨result, result_eq, rfl, -⟩ := succeeded
  refine (issues.run (motive := fun _ => True) (handle store engine) (fun _ _ _ _ => trivial)
    ?_).2 result result_eq
  trivial

/-! ## Outcomes of bounded decisions -/

variable {depth : Depth}

theorem admits_outcome {decision : Decision} (fits : decision.Fits depth) {result : Outcome}
    {before after : Work} (succeeded : outcome store decision before = .ok (result, after)) :
    depth.AdmitsOutcome result := by
  obtain ⟨-, ⟨inline, answer_eq, -⟩ | ⟨bytes, reference, db, -, answer_eq, -⟩⟩ :=
    outcome_eq_ok succeeded
  · rw [Depth.AdmitsOutcome, answer_eq]
    have nests := Answer.nesting_inline decision.answer
    exact ⟨Answer.wellFormed_inline decision.answer_wellFormed,
      depth.down (by omega) (fits inline)⟩
  · rw [Depth.AdmitsOutcome, answer_eq]
    have nests := Answer.nesting_stored reference
    exact ⟨Answer.wellFormed_stored reference, depth.down (by omega) depth.small⟩

/-- An answer of the store's own. -/
theorem admits_inline (depth : Depth) {value : Value} (wellFormed : value.WellFormed)
    (nests : value.nesting ≤ 2) :
    depth.AdmitsOutcome { kind := .done, answer := .inline value } := by
  have inline_nests := Answer.nesting_inline value
  refine ⟨Answer.wellFormed_inline wellFormed, depth.down ?_ depth.small⟩
  simp only
  omega

theorem admits_inlineEvent (depth : Depth) (seq : Nat) : depth.AdmitsOutcome (inlineEvent seq) := by
  refine admits_inline depth (Value.wellFormed_ofEntries (by simp)) ?_
  exact (Value.nesting_ofEntries_le (by simp)).trans (by decide : 0 + 1 ≤ 2)

theorem admits_reconcileAnswer (depth : Depth) (id : ClaimId) (seq : Nat)
    (resolution : ReconciledResolution) :
    depth.AdmitsOutcome
      { kind := .done, answer := .inline (reconcileAnswer id seq resolution) } := by
  have claim_wellFormed : (Value.ofEntries
      [("kind", .string id.kind), ("request_id", .string id.requestId)]).WellFormed :=
    Value.wellFormed_ofEntries (by simp)
  have claim_nests : (Value.ofEntries
      [("kind", .string id.kind), ("request_id", .string id.requestId)]).nesting ≤ 1 :=
    Value.nesting_ofEntries_le (by simp)
  refine admits_inline depth (Value.wellFormed_ofEntries (by simp [claim_wellFormed])) ?_
  exact Value.nesting_ofEntries_le (by simp [claim_nests])

theorem admits_completed {outcome : Outcome} (admits : depth.AdmitsOutcome outcome)
    (kind : CommandKind) (requestId : RequestId) (digest : Hash) (scope : List String)
    (git : Option GitFacts) :
    depth.Admits
      { stream := commandStream kind, typeName := commandCompleted
        typeVersion := commandCompletedVersion, git
        payload := completedPayloadFor kind requestId digest scope outcome
        attachments := outcome.answer.attachments } := by
  have nests := nesting_completedPayloadFor kind requestId digest scope outcome
  refine ⟨wellFormed_completedPayloadFor kind requestId digest scope admits.1,
    depth.down nests ?_⟩
  rw [← Nat.add_max_add_right]
  exact depth.fits_max admits.2 (depth.down (by decide : 1 + 1 ≤ 4) depth.small)

theorem admits_claimed {payload : ClaimedPayload} (wellFormed : payload.intent.WellFormed)
    (fits : depth.fits (payload.intent.nesting + 1)) :
    payload.toValue.WellFormed ∧ depth.fits payload.toValue.nesting := by
  refine ⟨ClaimedPayload.wellFormed_toValue wellFormed, depth.down payload.nesting_toValue ?_⟩
  rw [← Nat.add_max_add_right]
  exact depth.fits_max fits (depth.down (by decide : 1 + 1 ≤ 4) depth.small)

/-! ## The turns of the command path -/

theorem admits_transactTurn {engine : Engine} {script : Decide Decision}
    (issues : script.Issues depth.Admits (Decision.Fits depth))
    {result : Outcome × Outcome × Option GitFacts × Option Observed} {before after : Work}
    (succeeded : transactTurn store engine script before = .ok (result, after)) :
    depth.AdmitsOutcome result.2.1 := by
  obtain ⟨decision, decided, decide_eq, succeeded⟩ := bind_eq_ok.mp succeeded
  obtain ⟨stored, middle, outcome_eq, succeeded⟩ := bind_eq_ok.mp succeeded
  obtain ⟨rfl, -⟩ := pure_eq_ok.mp succeeded
  exact admits_outcome (decide_ends issues decide_eq) outcome_eq

namespace Invariant

theorem keeps_completeFor (invariant : Invariant store depth.Admits holds) (kind : CommandKind)
    (requestId : RequestId) (digest : Hash) (scope : List String) {outcome : Outcome}
    (admits : depth.AdmitsOutcome outcome) (git : Option GitFacts) :
    Keeps holds (completeFor store kind requestId digest scope outcome git) :=
  invariant.keeps_push _ (admits_completed admits kind requestId digest scope git)

theorem keeps_finish (invariant : Invariant store depth.Admits holds) {outcome : Outcome}
    (admits : depth.AdmitsOutcome outcome) (git : Option GitFacts)
    (observed : Option Observed) : Keeps holds (finish store outcome git observed) := by
  unfold finish
  have complete_keeps : Keeps holds (do
      let work ← get
      completeFor store work.command.kind work.command.requestId work.command.digest [] outcome
        git) :=
    Keeps.get.bind fun work _ _ _ => invariant.keeps_completeFor _ _ _ _ admits git
  cases observed with
  | none => exact complete_keeps
  | some observed => exact (keeps_recheck observed).bind fun _ _ _ _ => complete_keeps

/-- Completing the command's own request after its turn. -/
theorem keeps_completion (invariant : Invariant store depth.Admits holds) {α : Type}
    (result : α × Outcome × Option GitFacts × Option Observed)
    (admits : depth.AdmitsOutcome result.2.1) :
    Keeps holds (do
      let (value, outcome, git, observed) := result
      let _ ← finish store outcome git observed
      pure value) :=
  (invariant.keeps_finish admits _ _).bind fun _ _ _ _ => .pure _

theorem keeps_completing (invariant : Invariant store depth.Admits holds) {α : Type}
    {new : Turn (α × Outcome × Option GitFacts × Option Observed)} (keeps : Keeps holds new)
    (admits : ∀ result before after, new before = .ok (result, after) →
      depth.AdmitsOutcome result.2.1) :
    Keeps holds (completing store new) :=
  keeps.bind fun result before after succeeded =>
    invariant.keeps_completion result (admits result before after succeeded)

theorem keeps_answer (invariant : Invariant store depth.Admits holds) (decision : Decision) :
    Keeps holds (do
      let outcome ← outcome store decision
      pure (outcome, outcome, decision.git, some decision.observed)) :=
  (invariant.keeps_outcome decision).bind fun _ _ _ _ => .pure _

theorem keeps_transact (invariant : Invariant store depth.Admits holds) (engine : Engine)
    {script : Decide Decision} (issues : script.Issues depth.Admits (Decision.Fits depth)) :
    Keeps holds (completing store (transactTurn store engine script)) := by
  refine invariant.keeps_completing ?_ fun _ _ _ => admits_transactTurn issues
  exact (invariant.keeps_decide engine issues).bind fun decision _ _ _ =>
    invariant.keeps_answer decision

theorem keeps_takeClaim (invariant : Invariant store depth.Admits holds) (command : Command)
    {intent : Value} (wellFormed : intent.WellFormed) (fits : depth.fits (intent.nesting + 1))
    (owner : ClaimOwner) (git : Option GitFacts) (observed : Observed) :
    Keeps holds (takeClaim store command intent owner git observed) := by
  refine (Keeps.attempt _).bind fun _ _ _ _ => ?_
  refine (keeps_recheck observed).bind fun _ _ _ _ => ?_
  refine (invariant.keeps_push _ ?_).bind fun seq _ _ _ => ?_
  · exact admits_claimed wellFormed fits
  · exact (invariant.keeps_setLease _ seq _).bind fun _ _ _ _ => .pure _

/-- What a claim's decision leads to. -/
theorem keeps_claimed (invariant : Invariant store depth.Admits holds) (command : Command)
    {decision : ClaimDecision} (fits : decision.Fits depth) :
    Keeps holds (claimedAs store command decision) := by
  cases decision with
  | refuse decision =>
      refine (invariant.keeps_outcome decision).bind fun outcome _ _ outcome_eq => ?_
      refine (invariant.keeps_finish (admits_outcome fits outcome_eq) _ _).bind fun _ _ _ _ => ?_
      exact Keeps.get.bind fun _ _ _ _ => (Keeps.attempt _).bind fun _ _ _ _ => .pure _
  | claim intent wellFormed owner git observed =>
      exact (invariant.keeps_takeClaim command wellFormed fits owner git observed).bind
        fun _ _ _ _ => .pure _

theorem keeps_claimTurn (invariant : Invariant store depth.Admits holds) (engine : Engine)
    (command : Command) {script : Decide ClaimDecision}
    (issues : script.Issues depth.Admits (ClaimDecision.Fits depth)) :
    Keeps holds (claimTurn store engine command script) :=
  (invariant.keeps_decide engine issues).bind fun _ _ _ decide_eq =>
    invariant.keeps_claimed command (decide_ends issues decide_eq)

theorem keeps_closeClaim (invariant : Invariant store depth.Admits holds) (id : ClaimId)
    (digest : Hash) (scope : List String) {decision : Decision} (fits : decision.Fits depth) :
    Keeps holds (closeClaim store id digest scope decision) :=
  (invariant.keeps_outcome decision).bind fun _ _ _ outcome_eq =>
    (keeps_recheck _).bind fun _ _ _ _ =>
      (invariant.keeps_completeFor _ _ _ _ (admits_outcome fits outcome_eq) _).bind fun _ _ _ _ =>
        (invariant.keeps_dropLease id).bind fun _ _ _ _ => .pure _

theorem keeps_completeTurn (invariant : Invariant store depth.Admits holds) (engine : Engine)
    (command : Command) {script : Decide Decision}
    (issues : script.Issues depth.Admits (Decision.Fits depth)) (own : Option Claim) :
    Keeps holds (completeTurn store engine command script own) :=
  (Keeps.attempt _).bind fun _ _ _ _ =>
    (invariant.keeps_decide engine issues).bind fun _ _ _ decide_eq =>
      invariant.keeps_closeClaim _ _ _ (decide_ends issues decide_eq)

theorem keeps_reconcilable (command : Command) (id : ClaimId) (authority : ReconcileAuthority) :
    Keeps holds (reconcilable store command id authority) := by
  intro before found after before_holds succeeded
  rw [(reconcilable_eq_ok succeeded).1]
  exact before_holds

/-- What a reconciliation's decision leads to. -/
theorem keeps_reconciled (invariant : Invariant store depth.Admits holds) (id : ClaimId)
    (doc : ClaimDoc) (claim : Claim) {result : Reconciliation} (fits : result.Fits depth) :
    Keeps holds (reconciledAs store id doc claim result) := by
  obtain ⟨finding_fits, resolution_fits⟩ := fits
  refine (keeps_recheck _).bind fun _ _ _ _ => ?_
  refine (invariant.keeps_push _ ?_).bind fun seq _ _ _ => ?_
  · exact ⟨ReconciledPayload.wellFormed_toValue result.finding_wellFormed,
      depth.down (ReconciledPayload.nesting_toValue _) finding_fits⟩
  have finish_keeps : Keeps holds (do
      let outcome : Outcome :=
        { kind := .done
          answer := .inline (reconcileAnswer id seq (Resolution.recorded result.resolution)) }
      let _ ← finish store outcome none none
      pure outcome) :=
    (invariant.keeps_finish (admits_reconcileAnswer depth _ _ _) none none).bind
      fun _ _ _ _ => .pure _
  cases resolution_eq : result.resolution with
  | resolved decision =>
      rw [resolution_eq] at finish_keeps resolution_fits
      exact (invariant.keeps_closeClaim _ _ _ resolution_fits).bind fun _ _ _ _ => finish_keeps
  | awaitingOwner =>
      rw [resolution_eq] at finish_keeps
      exact finish_keeps

theorem keeps_reconcileClaim (invariant : Invariant store depth.Admits holds) (engine : Engine)
    (command : Command) (id : ClaimId) (authority : ReconcileAuthority)
    {script : Claim → Decide Reconciliation}
    (issues : ∀ claim, (script claim).Issues depth.Admits (Reconciliation.Fits depth)) :
    Keeps holds (reconcileClaim store engine command id authority script) :=
  (keeps_reconcilable command id authority).bind fun found _ _ _ =>
    (invariant.keeps_decide engine (issues found.2)).bind fun _ _ _ decide_eq =>
      invariant.keeps_reconciled id found.1 found.2 (decide_ends (issues found.2) decide_eq)

end Invariant

/-! ## The turns of retention -/

/-- An invariant that releases and removals keep too. -/
structure RetentionInvariant (store : Store) (depth : Depth) (holds : Work → Prop) : Prop
    extends Invariant store depth.Admits holds where
  released : ∀ work refs, holds work → holds (work.setRows { work.rows with refs })
  bodies : ∀ work payloads scrubPending, holds work →
    holds { work with db := { work.db with payloads, scrubPending } }

end Work

/-- Removing bodies changes nothing but bodies. -/
theorem Db.removeUnrequired_rest (reason : String) (db : Db) (stack removed : List Hash) :
    (db.removeUnrequired reason stack removed).1 =
      { db with payloads := (db.removeUnrequired reason stack removed).1.payloads } := by
  refine removeUnrequired_holds
    (motive := fun after _ _ => after = { db with payloads := after.payloads }) ?_ db stack removed
    rfl
  intro middle hash stack removed middle_eq
  have tombstone_eq : middle.tombstone reason hash =
      { db with payloads := (middle.tombstone reason hash).payloads } := by
    unfold Db.tombstone
    split
    · exact middle_eq
    · rw [middle_eq]
  simp only [removeStep]
  split_ifs
  · exact middle_eq
  · split
    · exact middle_eq
    · split
      · exact tombstone_eq
      · split_ifs
        · exact tombstone_eq
        · exact middle_eq
      · exact middle_eq

namespace Work

theorem removeBodies_eq_ok {requested : List Hash} {release : List (Nat × Hash)} {reason : String}
    {event : PurgedEvent} {work after : Work}
    (succeeded : removeBodies requested release reason work = .ok (event, after)) :
    let removal := work.db.removeUnrequired reason (sortedHashes (release.map Prod.snd)).reverse []
    after = { work with db := removal.1 } ∧
      ∃ reduced : List (Option Hash),
        (requested.mapM fun hash => do
          if removal.2.contains hash then Except.ok none
          else do
            let row ← Except.ofOption (StoreError.unavailable "Query returned no rows")
              (removal.1.payloads.lookup hash)
            .ok (if row.isReduced then some hash else none)) = .ok reduced ∧
        event =
          { requested, released := sortedPairs release, removed := sortedHashes removal.2
            shared := sortedHashes
              ((sortedHashes (release.map Prod.snd)).filter (fun hash => !removal.2.contains hash) ++
                reduced.filterMap id)
            reason } := by
  simp only [removeBodies, Except.bind_eq_ok, Except.ok.injEq, Prod.mk.injEq] at succeeded
  obtain ⟨reduced, reduced_eq, rfl, rfl⟩ := succeeded
  exact ⟨rfl, reduced, reduced_eq, rfl⟩

namespace RetentionInvariant

variable {store : Store} {depth : Depth} {holds : Work → Prop}

theorem keeps_release (invariant : RetentionInvariant store depth holds) (releasedSeq : Nat)
    (pair : Nat × Hash) : Keeps holds (release releasedSeq pair) := by
  intro before done after before_holds succeeded
  rcases release_eq_ok succeeded with ⟨rfl, -⟩ | ⟨row, -, -, rfl⟩
  · exact before_holds
  · exact invariant.released before _ before_holds

theorem keeps_releaseAll (invariant : RetentionInvariant store depth holds) (releasedSeq : Nat)
    (pairs : List (Nat × Hash)) : Keeps holds (releaseAll releasedSeq pairs) := by
  induction pairs with
  | nil => exact .pure _
  | cons pair pairs ih => exact (invariant.keeps_release releasedSeq pair).bind fun _ _ _ _ => ih

theorem keeps_reduceBody (invariant : RetentionInvariant store depth holds) (hash excerpt : Hash)
    (kept : (Nat × Nat) × (Nat × Nat)) : Keeps holds (reduceBody hash excerpt kept) := by
  intro before done after before_holds succeeded
  rcases reduceBody_eq_ok succeeded with ⟨rfl, -⟩ | ⟨-, -, row, -, rfl⟩
  · exact before_holds
  · exact invariant.bodies before _ before.db.scrubPending before_holds

theorem keeps_removeBodies (invariant : RetentionInvariant store depth holds) (requested : List Hash)
    (release : List (Nat × Hash)) (reason : String) :
    Keeps holds (removeBodies requested release reason) := by
  intro before event after before_holds succeeded
  obtain ⟨rfl, -⟩ := removeBodies_eq_ok succeeded
  rw [Db.removeUnrequired_rest]
  exact invariant.bodies before _ before.db.scrubPending before_holds

theorem keeps_reduceReference (invariant : RetentionInvariant store depth holds) (command : Command)
    (reference : PayloadReference) : Keeps holds (reduceReference store command reference) := by
  refine (Invariant.keeps_reading _).bind fun found _ _ _ => ?_
  obtain ⟨body, kept⟩ := found
  refine (invariant.keeps_putBody _ _).bind fun excerpt _ _ _ => ?_
  refine (invariant.keeps_push _ ?_).bind fun seq _ _ _ => ?_
  · exact ⟨ReducedEvent.wellFormed_toValue _,
      depth.down (ReducedEvent.nesting_toValue _) (depth.down (by decide) depth.small)⟩
  refine (invariant.keeps_release _ _).bind fun _ _ _ _ => ?_
  exact (invariant.keeps_reduceBody _ _ _).bind fun _ _ _ _ => .pure _

theorem keeps_purgeBodies (invariant : RetentionInvariant store depth holds) (command : Command)
    (hashes : List Hash) (reason : String) :
    Keeps holds (purgeBodies store command hashes reason) := by
  refine (Keeps.attempt _).bind fun _ _ _ _ => ?_
  refine Keeps.get.bind fun work _ _ _ => ?_
  refine (Keeps.attempt _).bind fun own _ _ _ => ?_
  refine (invariant.keeps_releaseAll _ _).bind fun _ _ _ _ => ?_
  refine (invariant.keeps_removeBodies _ _ _).bind fun event _ _ _ => ?_
  refine Keeps.get.bind fun released _ _ _ => ?_
  refine (invariant.keeps_push _ ?_).bind fun seq _ _ _ => ?_
  · exact ⟨PurgedEvent.wellFormed_toValue _,
      depth.down (PurgedEvent.nesting_toValue _) (depth.down (by decide) depth.small)⟩
  refine Keeps.bind ?_ fun _ _ _ _ => .pure _
  intro before done after before_holds succeeded
  rw [← modify_eq_ok.mp succeeded]
  exact invariant.bodies before before.db.payloads _ before_holds

theorem keeps_reduce (invariant : RetentionInvariant store depth holds) (command : Command)
    (reference : PayloadReference) :
    Keeps holds (completing store (reduceReference store command reference)) := by
  refine invariant.keeps_completing (invariant.keeps_reduceReference command reference) ?_
  intro result before after succeeded
  simp only [reduceReference, bind_eq_ok, pure_eq_ok] at succeeded
  obtain ⟨⟨body, kept⟩, _, -, excerpt, _, -, seq, _, -, _, _, -, _, _, -, pair_eq, -⟩ := succeeded
  cases pair_eq
  exact admits_inlineEvent depth seq

theorem keeps_purge (invariant : RetentionInvariant store depth holds) (command : Command)
    (hashes : List Hash) (reason : String) :
    Keeps holds (completing store (purgeBodies store command hashes reason)) := by
  refine invariant.keeps_completing (invariant.keeps_purgeBodies command hashes reason) ?_
  intro result before after succeeded
  simp only [purgeBodies, bind_eq_ok, pure_eq_ok] at succeeded
  obtain ⟨-, _, -, _, _, -, own, _, -, _, _, -, event, _, -, _, _, -, seq, _, -, _, _, -, pair_eq,
    -⟩ := succeeded
  cases pair_eq
  exact admits_inlineEvent depth seq

end RetentionInvariant

end Work

/-! ## What a call commits -/

namespace Store

/-- A command that committed: its turn led from the rows it found to work that was written, keeping
every invariant of its operations. -/
structure Commits (store : Store) (depth : Depth) (command : Command) (db : Db)
    (before : Option Head) (work : Work) (head : Head) (written : Db) : Prop where
  started : storedHead db command.project = .ok before
  kept : ∀ holds, Work.RetentionInvariant store depth holds →
    holds (Work.new command db before (db.rows command.project).liveGen) → holds work
  unfailed : work.failed = none
  attached : work.checkPayloadsAttached = .ok ()
  wrote : work.write store = .ok (head, written)

theorem Ran.commits {store : Store} {depth : Depth} {α : Type} {command : Command} {entry : Entry}
    {new : Option Claim → Turn α} {db : Db} {value : α} {head : Head} {written : Db}
    {before : Option Head} {own : Option Claim} {work : Work}
    (ran : store.Ran command entry new db value head written before own work)
    (keeps : ∀ holds, Work.RetentionInvariant store depth holds → ∀ own, Keeps holds (new own)) :
    store.Commits depth command db before work head written where
  started := ran.started
  kept := fun holds invariant first => keeps holds invariant own _ _ _ first ran.turned
  unfailed := ran.unfailed
  attached := ran.attached
  wrote := ran.wrote

variable (store : Store)

/-- What a call may do to the store: leave every row as it was, renew a lease, or commit a command;
a purge may clear the scrub marker after its commit. -/
inductive Moves (depth : Depth) (call : Call) (db : Db) : Db → Prop
  | stays (scrubPending : Option String) : Moves depth call db { db with scrubPending }
  | renews (project : ProjectId) (leases : Table ClaimId LeaseRow) :
      Moves depth call db (db.setRows project { db.rows project with leases })
  | commits {command : Command} {before : Option Head} {work : Work} {head : Head} {written : Db}
      (named : call.command? = some command)
      (commits : store.Commits depth command db before work head written)
      (scrubPending : Option String) : Moves depth call db { written with scrubPending }

variable {store} {depth : Depth}

/-- A command path, and what its scrub marker is set to afterwards. -/
theorem moves_commandPathFor {α : Type} {call : Call} {engine : Engine} {command : Command}
    {entry : Entry} {replay : Db → RequestState → Nat → Except StoreError α}
    {new : Option Claim → Turn α} {db : Db} (named : call.command? = some command)
    (keeps : ∀ holds, Work.RetentionInvariant store depth holds → ∀ own, Keeps holds (new own))
    (scrubPending : Option String) :
    store.Moves depth call db
      { (store.commandPathFor engine command entry replay new db).2 with scrubPending } := by
  rcases commandPathFor_cases store engine command entry replay new db with
    ⟨error, path_eq⟩ | ⟨value, path_eq, -⟩ | ⟨value, head, written, before, own, work, path_eq, ran⟩
  · rw [path_eq]
    exact .stays scrubPending
  · rw [path_eq]
    exact .stays scrubPending
  · rw [path_eq]
    exact .commits named (ran.commits keeps) scrubPending

end Store

/-- A call whose decisions supply no payload that nests deeper. -/
def Call.Fits (depth : Depth) : Call → Prop
  | .transact _ _ script => script.Issues depth.Admits (Decision.Fits depth)
  | .claim _ _ script => script.Issues depth.Admits (ClaimDecision.Fits depth)
  | .complete _ _ _ script => script.Issues depth.Admits (Decision.Fits depth)
  | .reconcile _ _ _ _ script =>
      ∀ claim, (script claim).Issues depth.Admits (Reconciliation.Fits depth)
  | _ => True

theorem ClaimDecision.fits_any (decision : ClaimDecision) : decision.Fits .any := by
  cases decision with
  | claim => trivial
  | refuse => exact fun _ => trivial

theorem Reconciliation.fits_any (reconciliation : Reconciliation) : reconciliation.Fits .any := by
  refine ⟨trivial, ?_⟩
  split
  · exact fun _ => trivial
  · trivial

/-- Any decision appends events of any depth. -/
theorem Decide.issues_any {α : Type} {ends : α → Prop} (ends_all : ∀ value, ends value)
    (script : Decide α) : script.Issues Depth.any.Admits ends :=
  Decide.issues_of_forall (fun _ _ wellFormed => ⟨wellFormed, trivial⟩) ends_all script

/-- Every call fits when any depth does. -/
theorem Call.fits_any (call : Call) : call.Fits .any := by
  cases call with
  | transact engine command script => exact Decide.issues_any (fun _ _ => trivial) script
  | claim engine command script => exact Decide.issues_any ClaimDecision.fits_any script
  | complete engine command owner script => exact Decide.issues_any (fun _ _ => trivial) script
  | reconcile engine command id authority script =>
      exact fun claim => Decide.issues_any Reconciliation.fits_any (script claim)
  | _ => trivial

namespace Store

variable (store : Store) {depth : Depth}

theorem perform_moves (call : Call) (fits : call.Fits depth) (db : Db) :
    store.Moves depth call db (store.perform call db).2 := by
  cases call with
  | transact engine command script =>
      exact moves_commandPathFor rfl (fun holds invariant _ =>
        invariant.keeps_transact engine fits) _
  | claim engine command script =>
      exact moves_commandPathFor rfl (fun holds invariant _ =>
        invariant.keeps_claimTurn engine command fits) _
  | complete engine command owner script =>
      exact moves_commandPathFor rfl (fun holds invariant own =>
        invariant.keeps_completeTurn engine command fits own) _
  | reconcile engine command id authority script =>
      simp only [perform, reconcile, resultOf]
      split_ifs
      · exact .stays db.scrubPending
      · exact .stays db.scrubPending
      · exact moves_commandPathFor rfl (fun holds invariant _ =>
          invariant.keeps_reconcileClaim engine command id authority fits) _
  | renewLease engine project id owner renewedAt =>
      rcases perform_renewLease store engine project id owner renewedAt db with same | ⟨leases, renewed⟩
      · rw [same]
        exact .stays db.scrubPending
      · rw [renewed]
        exact .renews project leases
  | reduce engine command reference =>
      exact moves_commandPathFor rfl (fun holds invariant _ =>
        invariant.keeps_reduce command reference) _
  | purge engine command hashes reason scrubbed =>
      have logical_moves (scrubPending : Option String) :
          store.Moves depth (.purge engine command hashes reason scrubbed) db
            { (store.logicalPurge engine command hashes reason db).2 with scrubPending } :=
        moves_commandPathFor rfl (fun holds invariant _ =>
          invariant.keeps_purge command hashes reason) scrubPending
      obtain ⟨scrubPending, purged⟩ := perform_purge store engine command hashes reason scrubbed db
      rw [purged]
      exact logical_moves scrubPending

end Store

end Baley
