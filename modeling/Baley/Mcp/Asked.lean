import Baley.Mcp.Drive

/-!
# When a write's steps are asked for

Each step of a write is asked for once, and only after what comes before it in the plan was observed
well.
-/

namespace Baley.Mcp

open Json

variable {S : Surroundings}

/-- The key of a write's request document. -/
def WriteRequest.key (request : WriteRequest) : DocKey :=
  [.text request.kind, .text request.requestId]

@[simp]
theorem requestKey_preparedCommand (project : ProjectId) (request : WriteRequest)
    (policyVersion : Nat) (recordedAt : String) (caller : ServerCaller) :
    requestKey (preparedCommand project request policyVersion recordedAt caller) = request.key := rfl

namespace Seen

/-- The project the working-tree file names. -/
def project (seen : Seen S) : Option ProjectId :=
  seen.working.bind fun read => (observeFile read).toOption.bind id

/-- The project was found and is one the ledger lists. -/
structure Known (seen : Seen S) (project : ProjectId) : Prop where
  ancestors : seen.ancestors.isSome = true
  working : seen.working.isSome = true
  projects : seen.projects.isSome = true
  project_eq : seen.project = some project

/-- The lookup found no record of the request. -/
def Unrecorded (seen : Seen S) : Prop :=
  seen.replay = some (.ok none)

/-- The write's own check passed, when it has one. -/
def Passed (call : Call) (seen : Seen S) : Prop :=
  call.checks = true → seen.checked = some (.ok ())

/-- The write's own check ended the call with this answer. -/
structure Refused (call : Call) (seen : Seen S) (answer : Value) : Prop where
  checks : call.checks = true
  unrecorded : seen.Unrecorded
  checked : seen.checked = some (.error answer)

/-- A lookup found a record of the request that can be read. -/
def Holds (lookedUp : Option (Except LedgerFault (Option Value))) : Prop :=
  ∃ body, lookedUp = some (.ok (some body)) ∧ (requestState body).isSome = true

end Seen

open Seen

/-- What was observed when a step of a write is asked for: nothing of its own, and everything it
comes after. -/
def Asks (call : Call) (request : WriteRequest) (seen : Seen S) : Step S → Prop
  | .discover _ => seen.ancestors = none
  | .readProjectFile _ => seen.ancestors.isSome = true ∧ seen.working = none
  | .listProjects =>
      seen.ancestors.isSome = true ∧ seen.working.isSome = true ∧ seen.projects = none
  | .lookUpRequest project key => seen.Known project ∧ seen.replay = none ∧ key = request.key
  | .check project =>
      seen.Known project ∧ seen.Unrecorded ∧ call.checks = true ∧ seen.checked = none
  | .lookUpRequestAgain project key =>
      seen.Known project ∧ (∃ answer, seen.Refused call answer) ∧ seen.relooked = none ∧
        key = request.key
  | .readSettings .. =>
      (∃ project, seen.Known project) ∧ seen.Unrecorded ∧ seen.Passed call ∧ seen.reads = none
  | .admitCheckout project .. =>
      seen.Known project ∧ seen.Unrecorded ∧ seen.Passed call ∧ seen.admitted = none
  | .recordPolicy project _ =>
      seen.Known project ∧ seen.Unrecorded ∧ seen.Passed call ∧ seen.stepped = none

/-- What was observed when a write is ready: a record of its request, or every step. -/
structure Readies (call : Call) (request : WriteRequest) (seen : Seen S) (prepared : Prepared S) :
    Prop where
  known : seen.Known prepared.project
  replayed : prepared.stepped = none → (Seen.Holds seen.replay ∨
      Seen.Holds seen.relooked) ∧
    prepared.command =
      some (preparedCommand prepared.project request 0 call.recordedAt call.caller)
  stepped : prepared.stepped.isSome = true → seen.Unrecorded ∧ seen.Passed call ∧
    ∃ version, seen.stepped = some (.ok version) ∧
      prepared.command =
        some (preparedCommand prepared.project request version call.recordedAt call.caller)

/-- What was observed when the plan wants this next. -/
def Wants (call : Call) (request : WriteRequest) (seen : Seen S) : Next S → Prop
  | .perform step => Asks call request seen step
  | .failed _ => True
  | .checked answer =>
      (∃ project, seen.Known project) ∧ seen.Refused call answer ∧ seen.relooked = some (.ok none)
  | .ready prepared => Readies call request seen prepared

section Wants

variable {call : Call} {request : WriteRequest} {seen : Seen S} {found : Found S}

@[simp]
theorem wants_faultFailed (fault : LedgerFault) : Wants call request seen (faultFailed fault) := by
  have store (error : StoreError) : Wants call request seen (storeFailed error) := by
    cases error <;> exact trivial
  rcases fault with _ | error | (_ | (_ | error))
  · exact trivial
  · exact store error
  · exact trivial
  · exact trivial
  · exact store error

theorem wants_held {lookedUp : Except LedgerFault (Option Value)} {ends : Next S}
    (known : seen.Known found.project)
    (looked : seen.replay = some lookedUp ∨ seen.relooked = some lookedUp)
    (held_eq : held lookedUp found
      (preparedCommand found.project request 0 call.recordedAt call.caller) = some ends) :
    Wants call request seen ends := by
  unfold held at held_eq
  split at held_eq
  · obtain rfl := Option.some.inj held_eq
    exact wants_faultFailed _
  · cases held_eq
  · next body =>
      split_ifs at held_eq with readable
      · obtain rfl := Option.some.inj held_eq
        refine { known, replayed := fun _ => ⟨?_, rfl⟩, stepped := fun some_stepped => ?_ }
        · exact looked.imp (fun looked_eq => ⟨body, looked_eq, readable⟩)
            fun looked_eq => ⟨body, looked_eq, readable⟩
        · cases some_stepped
      · obtain rfl := Option.some.inj held_eq
        exact trivial

theorem held_eq_none {lookedUp : Except LedgerFault (Option Value)} {replay : Command}
    (held_eq : held lookedUp found replay = none) : lookedUp = .ok none := by
  unfold held at held_eq
  split at held_eq
  · cases held_eq
  · rfl
  · split_ifs at held_eq

theorem wants_judgedSettings {working : S.File} {ends : Next S} (known : seen.Known found.project)
    (unrecorded : seen.Unrecorded) (passed : seen.Passed call)
    (judged : judgedSettings call seen found working = .error ends) :
    Wants call request seen ends := by
  unfold judgedSettings at judged
  split at judged
  · next reads_eq =>
      obtain rfl := Except.error.inj judged
      exact ⟨⟨_, known⟩, unrecorded, passed, reads_eq⟩
  · next reads _ =>
      cases faulted : judgeSettings reads call.host found.root with
      | error fault =>
          rw [faulted] at judged
          obtain rfl := Except.error.inj judged
          exact trivial
      | ok policies =>
          rw [faulted] at judged
          cases judged

theorem wants_settledNext (known : seen.Known found.project) (unrecorded : seen.Unrecorded)
    (passed : seen.Passed call) (working : S.File) :
    Wants call request seen (settledNext call request seen found working) := by
  unfold settledNext
  cases judged : judgedSettings call seen found working with
  | error ends => exact wants_judgedSettings known unrecorded passed judged
  | ok policies =>
      cases admitted_eq : seen.admitted with
      | none => exact ⟨known, unrecorded, passed, admitted_eq⟩
      | some admitted =>
          cases admitted with
          | error fault => exact wants_faultFailed fault
          | ok rootCommit =>
              cases stepped_eq : seen.stepped with
              | none => exact ⟨known, unrecorded, passed, stepped_eq⟩
              | some stepped =>
                  cases stepped with
                  | error fault => exact wants_faultFailed fault
                  | ok version =>
                      exact
                        { known, replayed := fun none_stepped => nomatch none_stepped
                          stepped := fun _ => ⟨unrecorded, passed, version, stepped_eq, rfl⟩ }

theorem wants_writeNext (known : seen.Known found.project) (working : S.File) :
    Wants call request seen (writeNext call request seen found working) := by
  unfold writeNext
  cases replay_eq : seen.replay with
  | none => exact ⟨known, replay_eq, rfl⟩
  | some lookedUp =>
      simp only
      split
      · next ends held_eq => exact wants_held known (Or.inl replay_eq) held_eq
      · next held_eq =>
          obtain rfl := held_eq_none held_eq
          split
          · next checks =>
              cases checked_eq : seen.checked with
              | none => exact ⟨known, replay_eq, checks, checked_eq⟩
              | some checked =>
                  cases checked with
                  | ok _ => exact wants_settledNext known replay_eq (fun _ => checked_eq) working
                  | error answer =>
                      have refused : seen.Refused call answer := ⟨checks, replay_eq, checked_eq⟩
                      cases relooked_eq : seen.relooked with
                      | none => exact ⟨known, ⟨answer, refused⟩, relooked_eq, rfl⟩
                      | some relooked =>
                          simp only
                          cases held_eq' : held relooked found (preparedCommand found.project
                              request 0 call.recordedAt call.caller) with
                          | none =>
                              obtain rfl := held_eq_none held_eq'
                              exact ⟨⟨_, known⟩, refused, relooked_eq⟩
                          | some ends => exact wants_held known (Or.inr relooked_eq) held_eq'
          · next unchecked =>
              exact wants_settledNext known replay_eq (fun checks => absurd checks unchecked) working

/-- Whatever the plan wants for a write, what comes before it was observed. -/
theorem wants_next (write : call.write = some request) (seen : Seen S) :
    Wants call request seen (next call seen) := by
  unfold next
  simp only
  cases ancestors_eq : seen.ancestors with
  | none => exact ancestors_eq
  | some walked =>
      have walked_some : seen.ancestors.isSome = true := by rw [ancestors_eq]; rfl
      cases walked with
      | error fault => exact trivial
      | ok ancestors =>
          simp only
          split
          · next folder root _ =>
              cases working_eq : seen.working with
              | none => exact ⟨walked_some, working_eq⟩
              | some working =>
                  have working_some : seen.working.isSome = true := by rw [working_eq]; rfl
                  simp only
                  split
                  · exact trivial
                  · exact trivial
                  · next project observed =>
                      unfold knownNext
                      cases projects_eq : seen.projects with
                      | none => exact ⟨walked_some, working_some, projects_eq⟩
                      | some listed =>
                          cases listed with
                          | error fault => exact wants_faultFailed fault
                          | ok known =>
                              have found : seen.Known project := by
                                refine ⟨walked_some, working_some, by rw [projects_eq]; rfl, ?_⟩
                                rw [Seen.project, working_eq, Option.bind_some, observed]
                                rfl
                              simp only [write, Option.isNone_some, Bool.false_eq_true, false_and,
                                if_false]
                              split
                              · exact trivial
                              · split
                                · exact trivial
                                · exact wants_writeNext found _
          · exact trivial

end Wants

end Baley.Mcp
