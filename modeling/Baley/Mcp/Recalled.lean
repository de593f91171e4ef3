import Baley.Mcp.Serve

/-!
# What a preparation's calls say

What was observed was observed by a call of its own, and the calls stand in the order of the plan.
-/

namespace Baley.Mcp

open Json Script Seen

variable {S : Surroundings}

namespace ServedCall

/-- A call that is made only once the check passed. -/
def Late : ServedCall S → Prop
  | .readSettings .. | .newRequestId | .gather .. | .readCatalog | .admitting .. | .recording .. =>
      True
  | _ => False

/-- A call that may change a ledger. -/
def Changes : ServedCall S → Prop
  | .admitting .. | .recording .. | .domain .. | .other .. => True
  | _ => False

/-- A call of a preparation. -/
def Prepares : ServedCall S → Prop
  | .gatherOwn .. | .domain .. | .other .. => False
  | _ => True

theorem eq_of_performs {port : Port} {op : ServedCall S} (unchanging : ¬ op.Changes)
    {before after : Ledgers} {reply : op.Reply} (performs : op.Performs port before reply after) :
    after = before := by
  cases op with
  | lookUp | readCatalog => exact performs.1
  | admitting | recording | domain | other => exact absurd trivial unchanging
  | _ => exact performs

theorem late_of_changes {op : ServedCall S} (prepares : op.Prepares) (changes : op.Changes) :
    op.Late := by
  cases op <;> first | exact trivial | exact prepares.elim | exact changes.elim

end ServedCall

/-- A lookup of a request, and what it found. -/
def LooksUp (again : Bool) (project : ProjectId) (key : DocKey)
    (found : Except StoreError (Option Document)) (made : MadeCall S) : Prop :=
  ∃ before after, made = ⟨.lookUp again project key, before, found, after⟩

/-- A run of the write's own check, and what it answered. -/
def Checks (answer : Except Value Unit) (made : MadeCall S) : Prop :=
  ∃ project before after, made = ⟨.check project, before, answer, after⟩

/-- The calls a step makes. -/
def Step.Makes : Step S → ServedCall S → Prop
  | .discover directory, op => op = .discover directory
  | .readProjectFile path, op => op = .readProjectFile path
  | .listProjects, op => op = .listProjects
  | .lookUpRequest project key, op => op = .lookUp false project key
  | .check project, op => op = .check project
  | .lookUpRequestAgain project key, op => op = .lookUp true project key
  | .readSettings root working, op => op = .readSettings root working
  | .admitCheckout project .., op =>
      op = .newRequestId ∨ (∃ root policy, op = .gather root policy) ∨
        ∃ inner, op = .admitting project inner
  | .recordPolicy project _, op =>
      op = .newRequestId ∨ op = .listProjects ∨ op = .readCatalog ∨
        ∃ inner, op = .recording project inner

section Perform

variable {server : Server} {call : Call}

theorem all_gatherAndAdmit (project : ProjectId) (root : S.Path) (policy : S.Policy)
    (path : String) :
    (gatherAndAdmit server call project root policy path).All
      (Step.admitCheckout project root policy path).Makes fun _ => True := by
  refine ⟨Or.inl rfl, fun requestId => ⟨Or.inr (Or.inl ⟨root, policy, rfl⟩), fun reply => ?_⟩⟩
  cases reply with
  | error text => exact trivial
  | ok facts =>
      have own (inner : LedgerCall Noted) :
          (Step.admitCheckout project root policy path).Makes (.admitting project inner) :=
        Or.inr (Or.inr ⟨inner, rfl⟩)
      refine All.bind (all_through own _) fun result _ => ?_
      cases result <;> exact trivial

theorem all_observeCatalogVersion {project : ProjectId} {recorded : RecordedPolicy} :
    (observeCatalogVersion (S := S)).All (Step.recordPolicy project recorded).Makes
      fun _ => True := by
  refine ⟨Or.inr (Or.inl rfl), fun listed => ?_⟩
  cases listed with
  | error error => exact trivial
  | ok known =>
      simp only
      split_ifs
      · refine ⟨Or.inr (Or.inr (Or.inl rfl)), fun state => ?_⟩
        simp only
        split <;> exact trivial
      · exact trivial

theorem all_policyStep (project : ProjectId) (recorded : RecordedPolicy) :
    (policyStep (S := S) server call project recorded).All
      (Step.recordPolicy project recorded).Makes fun _ => True := by
  refine ⟨Or.inl rfl, fun requestId => All.bind all_observeCatalogVersion fun version _ => ?_⟩
  cases version with
  | error error => exact trivial
  | ok version =>
      have own (inner : LedgerCall Noted) :
          (Step.recordPolicy (S := S) project recorded).Makes (.recording project inner) :=
        Or.inr (Or.inr (Or.inr ⟨inner, rfl⟩))
      exact All.bind (all_through own _) fun _ _ => trivial

theorem all_lookUp (again : Bool) (project : ProjectId) (key : DocKey) :
    (lookUp (S := S) server again project key).All (fun op => op = .lookUp again project key)
      fun _ => True := by
  unfold lookUp
  split_ifs
  · exact ⟨rfl, fun _ => trivial⟩
  · exact trivial

/-- A step makes its own calls and no others. -/
theorem all_perform (step : Step S) : (perform server call step).All step.Makes fun _ => True := by
  cases step with
  | discover directory => exact ⟨rfl, fun _ => trivial⟩
  | readProjectFile path => exact ⟨rfl, fun _ => trivial⟩
  | listProjects =>
      simp only [perform]
      split_ifs
      · exact ⟨rfl, fun _ => trivial⟩
      · exact trivial
  | lookUpRequest project key => exact all_lookUp false project key
  | check project =>
      simp only [perform]
      split_ifs
      · exact ⟨rfl, fun _ => trivial⟩
      · exact trivial
  | lookUpRequestAgain project key => exact all_lookUp true project key
  | readSettings root working => exact ⟨rfl, fun _ => trivial⟩
  | admitCheckout project root policy path =>
      simp only [perform]
      split_ifs
      · exact all_gatherAndAdmit project root policy path
      · exact trivial
  | recordPolicy project recorded =>
      simp only [perform]
      split_ifs
      · exact all_policyStep project recorded
      · exact trivial

variable {first : List (MadeCall S)} {last : Serving S (Except LedgerFault (Option Value))}

/-- What is kept of a lookup's reply. -/
def looked (reply : Except StoreError (Option Document)) : Except LedgerFault (Option Value) :=
  (reply.map (Option.map Document.body)).mapError .store

/-- A lookup is one call, and finds nothing out without it. -/
theorem follows_lookUp {again : Bool} {project : ProjectId} {key : DocKey}
    (follows : Follows (lookUp server again project key) first last) :
    (first = [] ∧ ∀ found, last ≠ .done (.ok found)) ∨
      ∃ made reply, first = [made] ∧ LooksUp again project key reply made ∧
        last = .done (looked reply) := by
  unfold lookUp at follows
  split_ifs at follows
  · rcases follows_call.mp follows with ⟨rfl, rfl⟩ | ⟨before, reply, after, rest, rfl, ended⟩
    · exact Or.inl ⟨rfl, nofun⟩
    · obtain ⟨rfl, rfl⟩ := follows_done.mp ended
      exact Or.inr ⟨_, reply, rfl, ⟨before, after, rfl⟩, rfl⟩
  · obtain ⟨rfl, rfl⟩ := follows_done.mp follows
    exact Or.inl ⟨rfl, nofun⟩

/-- A check is one call, when the write has one. -/
theorem follows_check {project : ProjectId} {last : Serving S (Except Value Unit)}
    (checks : call.checks = true)
    (follows : Follows (perform server call (.check project)) first last) :
    first = [] ∧ (∀ answer, last ≠ .done answer) ∨
      ∃ made answer, first = [made] ∧ Checks answer made ∧ last = .done answer := by
  simp only [perform, checks, if_true] at follows
  rcases follows_call.mp follows with ⟨rfl, rfl⟩ | ⟨before, answer, after, rest, rfl, ended⟩
  · exact Or.inl ⟨rfl, nofun⟩
  · obtain ⟨rfl, rfl⟩ := follows_done.mp ended
    exact Or.inr ⟨_, answer, rfl, ⟨project, before, after, rfl⟩, rfl⟩

end Perform

/-! ## What was observed is kept -/

namespace Seen

/-- Everything observed before is observed still. -/
structure Grows (seen later : Seen S) : Prop where
  ancestors : ∀ value, seen.ancestors = some value → later.ancestors = some value
  working : ∀ value, seen.working = some value → later.working = some value
  projects : ∀ value, seen.projects = some value → later.projects = some value
  replay : ∀ value, seen.replay = some value → later.replay = some value
  checked : ∀ value, seen.checked = some value → later.checked = some value
  relooked : ∀ value, seen.relooked = some value → later.relooked = some value
  reads : ∀ value, seen.reads = some value → later.reads = some value
  admitted : ∀ value, seen.admitted = some value → later.admitted = some value
  stepped : ∀ value, seen.stepped = some value → later.stepped = some value

theorem grows_note {seen : Seen S} {step : Step S} (lacks : seen.Lacks step)
    (observed : step.Observed) : seen.Grows (seen.note step observed) := by
  cases step <;> simp only [Lacks] at lacks <;> constructor <;> intro value kept <;>
    first | exact kept | cases lacks.symm.trans kept

variable {seen later : Seen S}

theorem isSome_of_grows {α : Type} {before after : Option α}
    (kept : ∀ value, before = some value → after = some value) (some_before : before.isSome = true) :
    after.isSome = true := by
  obtain ⟨value, before_eq⟩ := Option.isSome_iff_exists.mp some_before
  rw [kept value before_eq]
  rfl

theorem Known.grows {project : ProjectId} (known : seen.Known project) (grows : seen.Grows later) :
    later.Known project where
  ancestors := isSome_of_grows grows.ancestors known.ancestors
  working := isSome_of_grows grows.working known.working
  projects := isSome_of_grows grows.projects known.projects
  project_eq := by
    obtain ⟨read, working_eq⟩ := Option.isSome_iff_exists.mp known.working
    have project_eq := known.project_eq
    rw [Seen.project, working_eq] at project_eq
    rw [Seen.project, grows.working read working_eq]
    exact project_eq

theorem Unrecorded.grows (unrecorded : seen.Unrecorded) (grows : seen.Grows later) :
    later.Unrecorded :=
  grows.replay _ unrecorded

theorem Passed.grows {call : Call} (passed : seen.Passed call) (grows : seen.Grows later) :
    later.Passed call :=
  fun checks => grows.checked _ (passed checks)

end Seen

/-- A late call is only made once the lookup found nothing and the check passed. -/
theorem asks_of_late {call : Call} {request : WriteRequest} {seen : Seen S} {step : Step S}
    {op : ServedCall S} (makes : step.Makes op) (late : op.Late)
    (asks : Asks call request seen step) : seen.Unrecorded ∧ seen.Passed call := by
  cases step with
  | readSettings root working => exact ⟨asks.2.1, asks.2.2.1⟩
  | admitCheckout project root policy path => exact ⟨asks.2.1, asks.2.2.1⟩
  | recordPolicy project recorded => exact ⟨asks.2.1, asks.2.2.1⟩
  | discover | readProjectFile | listProjects | lookUpRequest | check | lookUpRequestAgain =>
      rw [makes] at late
      exact late.elim

theorem prepares_of_makes {step : Step S} {op : ServedCall S} (makes : step.Makes op) :
    op.Prepares := by
  cases step with
  | admitCheckout project root policy path =>
      rcases makes with rfl | ⟨root, policy, rfl⟩ | ⟨inner, rfl⟩ <;> exact trivial
  | recordPolicy project recorded =>
      rcases makes with rfl | rfl | rfl | ⟨inner, rfl⟩ <;> exact trivial
  | _ =>
      rw [makes]
      exact trivial

/-- A check is run by its own step, which keeps what it answered. -/
theorem checked_of_performed {server : Server} {call : Call} {request : WriteRequest}
    {seen : Seen S} {step : Step S} {first : List (MadeCall S)} {observed : step.Observed}
    (asks : Asks call request seen step)
    (performed : Follows (perform server call step) first (.done observed)) {made : MadeCall S}
    (made_mem : made ∈ first) {answer : Except Value Unit} (checks : Checks answer made) :
    call.checks = true ∧ seen.Unrecorded ∧ (seen.note step observed).checked = some answer := by
  obtain ⟨project, before, after, rfl⟩ := checks
  have makes := (all_perform step).follows performed |>.1 _ made_mem
  cases step with
  | check asked =>
      refine ⟨asks.2.2.1, asks.2.1, ?_⟩
      rcases follows_check asks.2.2.1 performed with ⟨rfl, -⟩ | ⟨made, answer', rfl, checks, same⟩
      · exact absurd made_mem List.not_mem_nil
      · obtain ⟨project', before', after', rfl⟩ := checks
        obtain rfl := Script.done.inj same
        cases List.mem_singleton.mp made_mem
        rfl
  | admitCheckout project root policy path =>
      rcases makes with same | ⟨root, policy, same⟩ | ⟨inner, same⟩ <;> cases same
  | recordPolicy project recorded =>
      rcases makes with same | same | same | ⟨inner, same⟩ <;> cases same
  | discover | readProjectFile | listProjects | lookUpRequest | lookUpRequestAgain | readSettings =>
      cases makes

/-- A lookup is made by its own step, which keeps what it found. -/
theorem looked_of_performed {server : Server} {call : Call} {request : WriteRequest}
    {seen : Seen S} {step : Step S} {first : List (MadeCall S)} {last : Serving S step.Observed}
    (asks : Asks call request seen step)
    (performed : Follows (perform server call step) first last) {made : MadeCall S}
    (made_mem : made ∈ first) {again : Bool} {project : ProjectId} {key : DocKey}
    {found : Except StoreError (Option Document)} (looks : LooksUp again project key found made) :
    first = [made] ∧ seen.Known project ∧ key = request.key ∧
      (again = false → seen.replay = none) ∧
      (again = true → ∃ answer, seen.Refused call answer) ∧
      ∃ observed, last = .done observed ∧
        (if again then (seen.note step observed).relooked else (seen.note step observed).replay) =
          some (looked found) := by
  obtain ⟨before, after, rfl⟩ := looks
  have makes := (all_perform step).follows performed |>.1 _ made_mem
  cases step with
  | lookUpRequest asked asked_key =>
      cases makes
      rcases follows_lookUp performed with ⟨rfl, -⟩ | ⟨made, reply, rfl, looks, rfl⟩
      · exact absurd made_mem List.not_mem_nil
      · obtain ⟨before', after', rfl⟩ := looks
        cases List.mem_singleton.mp made_mem
        exact ⟨rfl, asks.1, asks.2.2, fun _ => asks.2.1, nofun, _, rfl, rfl⟩
  | lookUpRequestAgain asked asked_key =>
      cases makes
      rcases follows_lookUp performed with ⟨rfl, -⟩ | ⟨made, reply, rfl, looks, rfl⟩
      · exact absurd made_mem List.not_mem_nil
      · obtain ⟨before', after', rfl⟩ := looks
        cases List.mem_singleton.mp made_mem
        exact ⟨rfl, asks.1, asks.2.2.2, nofun, fun _ => asks.2.1, _, rfl, rfl⟩
  | admitCheckout project root policy path =>
      rcases makes with same | ⟨root, policy, same⟩ | ⟨inner, same⟩ <;> cases same
  | recordPolicy project recorded =>
      rcases makes with same | same | same | ⟨inner, same⟩ <;> cases same
  | discover | readProjectFile | listProjects | check | readSettings => cases makes

end Baley.Mcp
