import Baley.Scope.Changes

/-!
# Approved changes

An accepted change records its events without a panic, and the roadmap takes them all.
-/

namespace Baley.Scope

/-- The number a phase is declared under. -/
def ScopeEvent.declaredNumber : ScopeEvent → Option Nat
  | phaseDeclared number .. => some number
  | _ => none

/-- The id a story is declared under. -/
def ScopeEvent.declaredId : ScopeEvent → Option Nat
  | storyDeclared id .. => some id
  | _ => none

namespace ScopeChange

/-- A declaration or an edit attaches its detail. -/
def Attaches : ScopeChange → Prop
  | phaseDeclare _ | phaseEdit _ _ => True
  | _ => False

/-- The phase numbers an approval hands out: an edit declares its phase again under the number it
has. -/
def handedNumbers (events : List ScopeEvent) : ScopeChange → List Nat
  | phaseEdit _ _ => []
  | _ => events.filterMap ScopeEvent.declaredNumber

end ScopeChange

/-- The story ids an approval hands out. -/
def handedIds (events : List ScopeEvent) : List Nat :=
  events.filterMap ScopeEvent.declaredId

namespace Roadmap

variable {roadmap : Roadmap} (consistent : Consistent roadmap)

/-- What a change records, and what the roadmap makes of it. -/
def Records (roadmap : Roadmap) (change : ScopeChange) (submission : Hash)
    (detail : Option PayloadRef) : Prop :=
  (∀ message, changeRecords change submission roadmap.accepted detail ≠
      .error (.panicked message)) ∧
    ∀ records, changeRecords change submission roadmap.accepted detail = .ok records →
      ∃ after, roadmap.Takes records after ∧
        Step roadmap (change.handedNumbers records) (handedIds records) after

/-- What fails in a list fails at one of its items. -/
theorem exists_of_mapM_eq_error {ε α β : Type} {judge : α → Except ε β} {items : List α} {error : ε}
    (failed : items.mapM judge = .error error) : ∃ item ∈ items, judge item = .error error := by
  induction items with
  | nil => cases failed
  | cons item items ih =>
      rw [List.mapM_cons] at failed
      cases judged : judge item with
      | error found =>
          rw [judged] at failed
          obtain rfl := Except.error.inj failed
          exact ⟨item, List.mem_cons_self, judged⟩
      | ok value =>
          rw [judged] at failed
          change (items.mapM judge >>= _) = _ at failed
          cases rest : items.mapM judge with
          | error found =>
              rw [rest] at failed
              obtain rfl := Except.error.inj failed
              obtain ⟨other, other_mem, other_failed⟩ := ih rest
              exact ⟨other, List.mem_cons_of_mem _ other_mem, other_failed⟩
          | ok values =>
              rw [rest] at failed
              cases failed

theorem nextNumbers_not_panicked (highest count : Nat) (message : String) :
    nextNumbers highest count ≠ .error (.panicked message) := by
  intro failed
  obtain ⟨step, -, step_failed⟩ := exists_of_mapM_eq_error failed
  unfold Except.require at step_failed
  split_ifs at step_failed <;> cases step_failed

/-- Events that follow from what was judged, with nothing that can fail. -/
theorem records_ok {change : ScopeChange} {submission : Hash} {detail : Option PayloadRef}
    {records : List ScopeEvent}
    (records_eq : changeRecords change submission roadmap.accepted detail = .ok records)
    (taken : ∃ after, roadmap.Takes records after ∧
      Step roadmap (change.handedNumbers records) (handedIds records) after) :
    roadmap.Records change submission detail := by
  constructor
  · intro message failed
    rw [records_eq] at failed
    cases failed
  · intro other other_eq
    obtain rfl := Except.ok.inj (records_eq.symm.trans other_eq)
    exact taken

/-- Events that need a number more: they are recorded when there is one. -/
theorem records_numbered {change : ScopeChange} {submission : Hash} {detail : Option PayloadRef}
    (highest : Nat) (records : Nat → List ScopeEvent)
    (records_eq : changeRecords change submission roadmap.accepted detail =
      (nextNumbers highest 1 >>= fun numbers => .ok (records (numbers.getD 0 0))))
    (taken : highest + 1 ≤ maxU32 → ∃ after, roadmap.Takes (records (highest + 1)) after ∧
      Step roadmap (change.handedNumbers (records (highest + 1)))
        (handedIds (records (highest + 1))) after) :
    roadmap.Records change submission detail := by
  rw [Records, records_eq]
  cases given : nextNumbers highest 1 with
  | error error =>
      constructor
      · intro message failed
        obtain rfl := Except.error.inj failed
        exact nextNumbers_not_panicked highest 1 message given
      · intro other other_eq
        cases other_eq
  | ok numbers =>
      obtain ⟨rfl, fits⟩ := nextNumbers_one given
      constructor
      · intro message failed
        cases failed
      · intro other other_eq
        obtain rfl := Except.ok.inj other_eq
        exact taken fits

/-! ## What each kind hands out -/

/-- A decision declares neither a phase nor a story. -/
theorem declared_decisionEvent {decisions : List Decision} {submission : Hash} {story : Nat}
    {event : ScopeEvent} (event_eq : decisionEvent decisions submission story = some event) :
    event.declaredNumber = none ∧ event.declaredId = none := by
  simp only [decisionEvent, Option.bind_eq_bind, Option.bind_eq_some_iff] at event_eq
  obtain ⟨decision, -, event_eq⟩ := event_eq
  split at event_eq
  · obtain rfl := Option.some.inj event_eq
    exact ⟨rfl, rfl⟩
  · obtain rfl := Option.some.inj event_eq
    exact ⟨rfl, rfl⟩

theorem handed_withdraw (number : Nat) (decisions : List Decision) (submission : Hash)
    (stories order : List Nat) {β : Type} (handed : ScopeEvent → Option β)
    (first : handed (.phaseWithdrawn number submission) = none)
    (last : handed (.phaseReordered order submission) = none)
    (each : ∀ story event, decisionEvent decisions submission story = some event →
      handed event = none) :
    ([ScopeEvent.phaseWithdrawn number submission] ++
      stories.filterMap (decisionEvent decisions submission) ++
      [ScopeEvent.phaseReordered order submission]).filterMap handed = [] := by
  rw [List.filterMap_eq_nil_iff]
  intro event event_mem
  simp only [List.mem_append, List.mem_singleton, List.mem_filterMap] at event_mem
  rcases event_mem with (rfl | ⟨story, -, event_eq⟩) | rfl
  · exact first
  · exact each story event event_eq
  · exact last

theorem declared_of_forM {phase : Option Nat}
    (judged : (phase.forM fun phase =>
      (requireDeclared roadmap.accepted phase).map fun _ => ()) = .ok ()) :
    ∀ number ∈ phase, roadmap.Declared number := by
  rintro number ⟨⟩
  obtain ⟨held, required, -⟩ := Except.map_eq_ok.mp judged
  exact declared_of_required required

variable {progress : Table Nat PhaseProgress}

include consistent

theorem records_of_judged {change : ScopeChange} (wellShaped : change.WellShaped) {started : Bool}
    (judged : judgeScopeChange roadmap.accepted progress change started = .ok ())
    {detail : Option PayloadRef} (attached : change.Attaches → detail ≠ none) (submission : Hash) :
    roadmap.Records change submission detail := by
  simp only [judgeScopeChange, Except.bind_eq_ok] at judged
  obtain ⟨-, -, judged⟩ := judged
  cases change with
  | projectDescribe description =>
      exact records_ok rfl (step_projectDescribed consistent description submission)
  | phaseDeclare declaration =>
      obtain ⟨detail, rfl⟩ := Option.ne_none_iff_exists'.mp (attached trivial)
      obtain ⟨members_judged, index, inside, index_eq, placed⟩ := of_judgeDeclaration judged
      refine records_numbered roadmap.highestPhase (fun number =>
        [.phaseDeclared number declaration.name declaration.goal detail declaration.dependsOn
            declaration.stories submission,
          .phaseReordered (roadmap.order.insertIdx index number) submission]) ?_ fun fits => ?_
      · rw [← index_eq]
        rfl
      · exact step_phaseDeclared consistent declaration.name declaration.goal detail
          wellShaped.2.1 fits members_judged inside (placed fits) submission
  | phaseEdit phase fields =>
      obtain ⟨detail, rfl⟩ := Option.ne_none_iff_exists'.mp (attached trivial)
      simp only [judgeEdit, Except.bind_eq_ok] at judged
      obtain ⟨held, required, _, -, _, members_judged, dependencies_judged⟩ := judged
      obtain ⟨found, held_mem, rfl, stands⟩ := of_declared (Except.ofOption_eq_ok.mp required)
      have records_eq : changeRecords (.phaseEdit held.number fields) submission roadmap.accepted
          (some detail) = .ok
            [.phaseDeclared held.number (fields.name.getD held.name) (fields.goal.getD held.goal)
              detail (fields.dependsOn.getD held.dependsOn) (fields.stories.getD held.stories)
              submission] := by
        rw [changeRecords, found]
        rfl
      refine records_ok records_eq (step_phaseEdited consistent held_mem stands _ _ detail
        wellShaped.2 members_judged (fun given given_eq => ?_) submission)
      rwa [Option.mem_def.mp given_eq] at dependencies_judged
  | phaseReorder order => exact records_ok rfl (step_phaseReordered consistent judged submission)
  | phaseWithdraw phase decisions =>
      simp only [Except.bind_eq_ok] at judged
      obtain ⟨held, required, _, -, judged⟩ := judged
      obtain ⟨found, held_mem, rfl, -⟩ := of_declared (Except.ofOption_eq_ok.mp required)
      have records_eq : changeRecords (.phaseWithdraw held.number decisions) submission
          roadmap.accepted detail = .ok
            ([.phaseWithdrawn held.number submission] ++
              held.stories.filterMap (decisionEvent decisions submission) ++
              [.phaseReordered (roadmap.order.filter fun number => number ≠ held.number)
                submission]) := by
        rw [changeRecords, found]
        rfl
      refine records_ok records_eq ?_
      have numbers_eq : ScopeChange.handedNumbers ([.phaseWithdrawn held.number submission] ++
          held.stories.filterMap (decisionEvent decisions submission) ++
          [.phaseReordered (roadmap.order.filter fun number => number ≠ held.number) submission])
            (.phaseWithdraw held.number decisions) = [] :=
        handed_withdraw held.number decisions submission held.stories _ ScopeEvent.declaredNumber
          rfl rfl fun _ _ event_eq => (declared_decisionEvent event_eq).1
      have ids_eq := handed_withdraw held.number decisions submission held.stories
        (roadmap.order.filter fun number => number ≠ held.number) ScopeEvent.declaredId
        rfl rfl fun _ _ event_eq => (declared_decisionEvent event_eq).2
      rw [numbers_eq, handedIds, ids_eq]
      exact step_phaseWithdrawn consistent held_mem judged submission
  | storyDeclare sentence status phase =>
      simp only [Except.bind_eq_ok] at judged
      obtain ⟨_, phase_judged, -⟩ := judged
      refine records_numbered roadmap.highestStory
        (fun id => [.storyDeclared id sentence status phase submission]) rfl fun fits => ?_
      exact step_storyDeclared consistent sentence (declared_of_forM phase_judged) wellShaped fits
        submission
  | storyEdit story sentence =>
      obtain ⟨held, held_mem, rfl, -, status, status_eq, same⟩ := of_served judged
      have records_eq : changeRecords (.storyEdit held.id sentence) submission roadmap.accepted
          detail = .ok [.storyCorrected held.id sentence status submission] := by
        rw [changeRecords, status_eq]
        rfl
      exact records_ok records_eq
        (step_storyCorrected consistent held_mem sentence same submission)
  | storyReassign story phase =>
      simp only [Except.bind_eq_ok] at judged
      obtain ⟨_, served_judged, _, -, phase_judged⟩ := judged
      obtain ⟨held, held_mem, rfl, served, status, status_eq, -⟩ := of_served served_judged
      have declared := declared_of_forM phase_judged
      have fits : ∀ number ∈ phase, number ≤ maxU32 := fun number goes =>
        consistent.declared_fits (declared number goes)
      have reassigned (status : StoryStatus) (active : phase ≠ none → status.held = .active) :
          ∃ after, roadmap.Takes [.storyReassigned held.id status phase submission] after ∧
            Step roadmap [] [] after := by
        obtain ⟨applied, step⟩ := step_reassign consistent held_mem served declared active
        exact ⟨_, takes_one applied ⟨consistent.id_fits held_mem, fits⟩, step⟩
      cases phase with
      | some number => exact records_ok rfl (reassigned .active fun _ => rfl)
      | none =>
          have records_eq : changeRecords (.storyReassign held.id none) submission
              roadmap.accepted detail = .ok [.storyReassigned held.id status none submission] := by
            rw [changeRecords, status_eq]
            rfl
          exact records_ok records_eq (reassigned status fun goes => absurd rfl goes)
  | storyDrop story =>
      simp only [Except.bind_eq_ok] at judged
      obtain ⟨_, served_judged, -⟩ := judged
      obtain ⟨held, held_mem, rfl, served, -⟩ := of_served served_judged
      obtain ⟨applied, step⟩ : roadmap.reassignStory held.id .dropped none =
          some (roadmap.reassigned held.id .dropped none) ∧
            Step roadmap [] [] (roadmap.reassigned held.id .dropped none) :=
        step_reassign consistent held_mem served (by simp) fun goes => absurd rfl goes
      exact records_ok rfl ⟨_, takes_one applied (consistent.id_fits held_mem), step⟩
  | backlogReorder order =>
      obtain ⟨distinct, known⟩ := of_judgeBacklogOrder judged
      exact records_ok rfl (step_storyReprioritized consistent distinct known submission)

omit consistent in
theorem handedNumbers_append (change : ScopeChange) (first second : List ScopeEvent) :
    change.handedNumbers (first ++ second) =
      change.handedNumbers first ++ change.handedNumbers second := by
  cases change with
  | phaseEdit => rfl
  | _ => exact List.filterMap_append

/-- An accepted change never panics, and the roadmap takes what it records. -/
theorem changeEvents_of_judged {change : ChangeSubmission} {started : Bool}
    (judged : judgeScopeChange roadmap.accepted progress change.change started = .ok ())
    {detail : Option PayloadRef} (attached : change.change.Attaches → detail ≠ none)
    (owner recordedAt : String) :
    (∀ message, changeEvents change roadmap.accepted detail owner recordedAt ≠
        .error (.panicked message)) ∧
      ∀ events, changeEvents change roadmap.accepted detail owner recordedAt = .ok events →
        ∃ after, roadmap.Takes events after ∧
          Step roadmap (change.change.handedNumbers events) (handedIds events) after := by
  obtain ⟨never, taken⟩ := records_of_judged consistent change.wellShaped judged attached
    change.digest
  constructor
  · intro message failed
    unfold changeEvents at failed
    cases recorded : changeRecords change.change change.digest roadmap.accepted detail with
    | error error =>
        rw [recorded] at failed
        obtain rfl := Except.error.inj failed
        exact never message recorded
    | ok records =>
        rw [recorded] at failed
        cases failed
  · intro events events_eq
    simp only [changeEvents, Except.bind_eq_ok, Except.ok.injEq] at events_eq
    obtain ⟨records, recorded, rfl⟩ := events_eq
    obtain ⟨after, takes, step⟩ := taken records recorded
    refine ⟨after, takes.append (takes_one rfl trivial), ?_⟩
    have approval_numbers (change : ScopeChange) (submission : Hash) (kind : String) :
        change.handedNumbers [.scopeApproved submission kind owner recordedAt] = [] := by
      cases change <;> rfl
    rw [handedNumbers_append, approval_numbers, List.append_nil, handedIds, List.filterMap_append]
    exact (List.append_nil (handedIds records)).symm ▸ step

end Roadmap

end Baley.Scope
