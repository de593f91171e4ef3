import Baley.Store.Failing
import Baley.Store.ReadBack

/-!
# Every commit extends one chain

After any run each project's events read back as one valid chain, unless some recorded payload nests
too deep to be read again: a write does not look at how deep its payloads nest.
-/

namespace Baley

open Json

/-- Every project's events read back as one valid chain. -/
def Db.ReadsBack (sha256 : List UInt8 → Hash) (db : Db) : Prop :=
  ∀ project, ∃ events, (db.rows project).ReadsBack sha256 project events

/-- The event carries what the call's command says. -/
def Call.Stamps (call : Call) (event : Event) : Prop :=
  ∃ command, call.command? = some command ∧ event.projectId = command.project ∧
    event.requestId = command.requestId ∧ event.recordedAt = command.recordedAt ∧
    event.actor = command.actor ∧ event.caller = command.caller ∧
    event.policyVersion = command.policyVersion

namespace Store

variable {store : Store} {call : Call} {db : Db}

/-- A call appends to what is recorded, and only events of its own command. -/
theorem perform_extends (chained : db.Chained store.sha256 .any) (project : ProjectId) :
    ∃ recorded, ((store.perform call db).2.rows project).history project =
      (db.rows project).history project ++ recorded ∧ ∀ event ∈ recorded, call.Stamps event := by
  have moves := store.perform_moves call call.fits_any db
  generalize (store.perform call db).2 = after at moves ⊢
  cases moves with
  | stays => exact ⟨[], by simp; rfl, by simp⟩
  | renews renewed leases =>
      refine ⟨[], ?_, by simp⟩
      rw [Db.rows_setRows, List.append_nil]
      split_ifs with same
      · subst same
        rfl
      · rfl
  | @commits command before work head written named commits scrubPending =>
      obtain ⟨-, appended⟩ := commits.chained chained
      by_cases same : project = command.project
      · subst same
        refine ⟨work.events.map fun event => event.1.canonical, ?_, ?_⟩
        · rw [← appended.history_eq]
          rfl
        intro event event_mem
        obtain ⟨pair, pair_mem, rfl⟩ := List.mem_map.mp event_mem
        exact ⟨command, named, appended.stamped pair pair_mem⟩
      · refine ⟨[], ?_, by simp⟩
        rw [List.append_nil, ← appended.others_eq project same]
        rfl

/-- A transaction that changed something recorded the events its turn made. -/
theorem perform_transact_records {engine : Engine} {command : Command} {script : Decide Decision}
    (chained : db.Chained store.sha256 .any)
    (records : (store.perform (.transact engine command script) db).2 ≠ db) :
    ∃ before outcome work, storedHead db command.project = .ok before ∧
      Work.completing store (Work.transactTurn store engine script)
        (Work.new command db before (db.rows command.project).liveGen) = .ok (outcome, work) ∧
      ((store.perform (.transact engine command script) db).2.rows command.project).history
          command.project =
        (db.rows command.project).history command.project ++
          work.events.map fun event => event.1.canonical := by
  rcases store.commandPathFor_cases engine command .ordinary _ _ db with
    ⟨error, path_eq⟩ | ⟨value, path_eq, -⟩ | ⟨value, head, written, before, own, work, path_eq, ran⟩
  · exact absurd (congrArg Prod.snd path_eq) records
  · exact absurd (congrArg Prod.snd path_eq) records
  · refine ⟨before, value, work, ran.started, ran.turned, ?_⟩
    have commits : store.Commits .any command db before work head written :=
      ran.commits fun holds invariant _ =>
        invariant.keeps_transact engine (Call.transact engine command script).fits_any
    rw [← (commits.chained chained).2.history_eq]
    exact congrArg (fun after => (after.rows command.project).history command.project)
      (congrArg Prod.snd path_eq)

/-- After any run of calls whose decisions nest their payloads no deeper than the reader goes, every
project reads back as one valid chain; in any state it reads back exactly when nothing deeper was
recorded.  A call appends events of its own command, and one that fails or whose decision met an
error changes nothing. -/
theorem run_extends_chain (store : Store) (projects : List ProjectId) (calls : List Call) :
    ((∀ call ∈ calls, call.Fits .readable) →
      (store.run calls (Db.create projects)).ReadsBack store.sha256) ∧
    (∀ project,
      (∃ events, ((store.run calls (Db.create projects)).rows project).ReadsBack store.sha256
        project events) ↔
      ∀ event ∈ ((store.run calls (Db.create projects)).rows project).history project,
        event.payload.nesting < recursionLimit) ∧
    ∀ call,
      (∀ project, ∃ recorded,
        ((store.run (calls ++ [call]) (Db.create projects)).rows project).history project =
          ((store.run calls (Db.create projects)).rows project).history project ++ recorded ∧
        ∀ event ∈ recorded, call.Stamps event) ∧
      ((∃ error, (store.perform call (store.run calls (Db.create projects))).1 = .error error) ∨
          store.MeetsError (store.run calls (Db.create projects)) call →
        store.run (calls ++ [call]) (Db.create projects) =
          store.run calls (Db.create projects)) := by
  have chained := store.run_chained .any calls (fun call _ => call.fits_any) projects
  have next (call : Call) : store.run (calls ++ [call]) (Db.create projects) =
      (store.perform call (store.run calls (Db.create projects))).2 := by
    rw [run, List.foldl_append]
    rfl
  refine ⟨?_, fun project => (chained project).readsBack_iff, fun call => ⟨?_, ?_⟩⟩
  · intro fits project
    have readable := store.run_chained .readable calls fits projects project
    exact readable.readsBack_iff.mpr fun event event_mem => readable.fits_of_mem event_mem
  · intro project
    rw [next]
    exact perform_extends chained project
  · rw [next]
    rintro (⟨error, failed⟩ | meets)
    · exact perform_of_error failed
    · exact perform_of_meetsError meets

end Store

/-! ## A payload that does not read back -/

/-- A store with no projectors beside its own. -/
def plainStore : Store where
  sha256 := fun _ => .replicate 0
  schemaReads := fun _ _ => false
  projectionPayload := fun event => .ok (event.typeVersion, event.payload)
  projectors := []
  views_nodup := nodup_ownViews
  page := fun _ _ _ _ _ _ => .ok ⟨[], none⟩

/-- Arrays in arrays. -/
def nestedArrays : Nat → Value
  | 0 => .array []
  | n + 1 => .array [nestedArrays n]

theorem wellFormed_nestedArrays (n : Nat) : (nestedArrays n).WellFormed := by
  induction n with
  | zero => simp [nestedArrays]
  | succ n ih => simp [nestedArrays, ih]

/-- A command that answers with arrays in arrays. -/
def answerNested (n : Nat) : Call :=
  .transact .sound
    { project := "user", kind := "note", requestId := "r1", digest := .replicate 1, scope := []
      policyVersion := 1, recordedAt := "2026-09-25T18:00:00Z", actor := .owner, caller := none }
    (.done (.ok
      { kind := .done, answer := nestedArrays n, answer_wellFormed := wellFormed_nestedArrays n
        sensitive := false, observed := .none, git := none }))

/-- A shallow answer reads back. -/
theorem run_extends_chain_answer :
    (plainStore.run [answerNested 0] (Db.create ["user"])).ReadsBack plainStore.sha256 := by
  refine (Store.run_extends_chain plainStore ["user"] [answerNested 0]).1 ?_
  intro call call_mem
  rw [List.mem_singleton.mp call_mem]
  rintro decision decision_eq -
  obtain rfl := Except.ok.inj decision_eq
  change (nestedArrays 0).nesting + 2 < recursionLimit
  decide +kernel

/-- What the end of a computation passes, the end reached passes. -/
theorem any_of_ok {ε α β : Type} {result : Except ε (α × β)} {value : α} {rest : β} (test : β → Bool)
    (result_eq : result = .ok (value, rest))
    (any : (result.toOption.any fun pair => test pair.2) = true) : test rest = true := by
  subst result_eq
  exact any

/-- An answer 126 deep is recorded inside a completion 128 deep, which no reader accepts. -/
theorem answerNested_not_readsBack :
    ¬ (plainStore.run [answerNested 125] (Db.create ["user"])).ReadsBack plainStore.sha256 := by
  intro readsBack
  have shallow := (plainStore.run_chained .any [answerNested 125] (fun call _ => call.fits_any) ["user"]
    "user").readsBack_iff.mp (readsBack "user")
  have records : (plainStore.perform (answerNested 125) (Db.create ["user"])).2 ≠ Db.create ["user"] := by
    intro stays
    have headSeq_eq : ((plainStore.perform (answerNested 125) (Db.create ["user"])).2.rows "user").headSeq =
        1 := by
      decide +kernel
    rw [stays] at headSeq_eq
    cases headSeq_eq
  obtain ⟨before, outcome, work, started, turned, history_eq⟩ :=
    Store.perform_transact_records (plainStore.run_chained .any [] (by simp) ["user"]) records
  obtain rfl : none = before := Except.ok.inj started
  have deep := any_of_ok
    (fun made : Work => made.events.any fun event => decide (recursionLimit ≤ event.1.payload.nesting))
    turned (by decide +kernel)
  obtain ⟨event, event_mem, nests⟩ := List.any_eq_true.mp deep
  have event_made : event.1.canonical ∈ work.events.map fun event => event.1.canonical :=
    List.mem_map.mpr ⟨event, event_mem, rfl⟩
  have recorded := (congrArg (event.1.canonical ∈ ·) history_eq).mpr (List.mem_append_right _ event_made)
  have recorded_shallow := shallow event.1.canonical recorded
  rw [Event.canonical, nesting_canonicalForm] at recorded_shallow
  exact absurd recorded_shallow (not_lt.mpr (of_decide_eq_true nests))

end Baley
