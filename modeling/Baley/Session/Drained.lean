import Mathlib.Data.List.Basic
import Baley.Session.Sound

/-!
# Every accepted decision is answered

What is left to do shrinks with every step of the worker and, once admission is closed, never grows.
-/

namespace Baley.Session

variable {J R E : Type}

namespace Phase

/-- Steps until the worker looks for its next job. -/
def steps : Phase J R → Nat
  | deciding _ => 4
  | decided _ _ => 3
  | freed _ _ => 2
  | sent => 1
  | _ => 0

theorem steps_wake (phase : Phase J R) : phase.wake.steps = phase.steps := by
  cases phase <;> rfl

end Phase

namespace Action

def isTurn : Action J R E → Bool
  | turn _ => true
  | _ => false

def isAbandon : Action J R E → Bool
  | abandon => true
  | _ => false

end Action

/-- How many steps of the worker are among the actions. -/
def turns (actions : List (Action J R E)) : Nat := actions.countP Action.isTurn

namespace Worker

variable (worker : Worker J R)

/-- Steps of the worker until every accepted decision is answered. -/
def remaining : Nat := worker.phase.steps + 5 * worker.pending.length

/-- The queue takes no call of these bytes. -/
def Refuses (rawBytes : Nat) : Prop :=
  worker.state.queue.closed = true ∨
    worker.state.queue.running ≠ none ∧ worker.state.queue.waiting.length = waitingSlots ∨
      byteCap < worker.state.queue.bytes + rawBytes

variable {worker}

/-! ## Submissions -/

theorem admission_of_refuses {rawBytes : Nat} (refuses : worker.Refuses rawBytes) (job : J) :
    ∃ refused, worker.state.queue.admission job rawBytes = .error refused := by
  cases admitted : worker.state.queue.admission job rawBytes with
  | error refused => exact ⟨refused, rfl⟩
  | ok taken =>
      obtain ⟨placed, queue⟩ := taken
      obtain ⟨isOpen, within, ⟨idle, -⟩ | ⟨-, free, -⟩⟩ := Queue.of_admission admitted
      · rcases refuses with closed | ⟨busy, -⟩ | exceeds
        · exact absurd (isOpen.symm.trans closed) Bool.false_ne_true
        · exact absurd idle busy
        · exact absurd within (Nat.not_le.mpr exceeds)
      · rcases refuses with closed | ⟨-, full⟩ | exceeds
        · exact absurd (isOpen.symm.trans closed) Bool.false_ne_true
        · exact absurd full (Nat.ne_of_lt free)
        · exact absurd within (Nat.not_le.mpr exceeds)

/-- A refused call is answered at once, and changes nothing. -/
theorem submit_of_refuses (overloaded : R) {rawBytes : Nat}
    (refuses : worker.Refuses rawBytes) (job : J) :
    worker.submit overloaded (.proceed job : Before J R E) rawBytes =
      (.answer overloaded, worker) := by
  obtain ⟨refused, admitted⟩ := admission_of_refuses refuses job
  simp only [submit, admitted]

/-- Any other call the gate lets through is accepted. -/
theorem Sound.submit_of_not_refuses (sound : Sound worker) (overloaded : R) {rawBytes : Nat}
    (taken : ¬worker.Refuses rawBytes) (job : J) :
    (worker.submit overloaded (.proceed job : Before J R E) rawBytes).1 = .accepted := by
  rw [Refuses, not_or, not_or] at taken
  obtain ⟨isOpen, free, within⟩ := taken
  have few := sound.accounted.few
  have roomy : worker.state.queue.running = none ∨
      worker.state.queue.waiting.length < waitingSlots := by
    by_contra full
    rw [not_or] at full
    exact free ⟨full.1, Nat.le_antisymm few (Nat.not_lt.mp full.2)⟩
  have capped : ¬ byteCap < min (worker.state.queue.bytes + rawBytes) maxUsize := by
    intro exceeds
    exact within (Nat.lt_of_lt_of_le exceeds (Nat.min_le_left _ _))
  have passes : ¬(¬(worker.state.queue.running = none ∨
      worker.state.queue.waiting.length < waitingSlots) ∨
        byteCap < min (worker.state.queue.bytes + rawBytes) maxUsize) := by
    rintro (full | exceeds)
    · exact full roomy
    · exact capped exceeds
  unfold Worker.submit Queue.admission
  simp only [isOpen, passes, if_false]
  by_cases idle : worker.state.queue.running = none <;> simp [idle]

/-! ## What is left to do -/

/-- A step of the worker shortens what is left, unless nothing is. -/
theorem Sound.remaining_turn (sound : Sound worker) (outcome : Option R) :
    (worker.turn outcome).remaining ≤ worker.remaining - 1 := by
  unfold remaining
  cases phase : worker.phase with
  | idle =>
      cases promoted : worker.state.start with
      | some job =>
          have turned : worker.turn outcome =
              { worker with
                state := { worker.state with start := none }, phase := .deciding job
                begun := worker.begun ++ [(job, worker.state.queue.running.getD 0)] } := by
            simp only [Worker.turn, phase, promoted]
          rw [turned]
          simp only [pending, promoted, Phase.steps, Option.toList_none, List.map_nil,
            List.nil_append, Option.toList_some, List.map_cons, List.cons_append, List.length_cons]
          omega
      | none =>
          have none_pending := (sound.none_pending promoted (by rw [phase]; rfl)).2.2
          have pending_eq : (worker.turn outcome).pending = [] := by
            simp only [Worker.turn, phase, promoted]
            split <;> exact none_pending
          have steps_eq : (worker.turn outcome).phase.steps = 0 := by
            simp only [Worker.turn, phase, promoted]
            split <;> rfl
          rw [pending_eq, steps_eq]
          exact Nat.zero_le _
  | asleep =>
      have unpromoted := (sound.asleep phase).1
      have none_pending := (sound.none_pending unpromoted (by rw [phase]; rfl)).2.2
      simp [Worker.turn, phase, none_pending, Phase.steps]
  | exited =>
      have drained := (sound.exited phase).2
      have unpromoted := (sound.start_of_drained drained).1
      have none_pending := (sound.none_pending unpromoted (by rw [phase]; rfl)).2.2
      simp [Worker.turn, phase, none_pending, Phase.steps]
  | deciding job =>
      simp only [Worker.turn, phase, Phase.steps, pending]
      omega
  | decided job answer =>
      have freed := sound.free phase
      have accepted_eq := sound.accepted_eq
      have same_pending : (worker.turn outcome).pending = worker.pending := by
        have again := freed.accepted_eq
        simp only [accepted_eq] at again
        simp only [Worker.turn, phase]
        exact (List.append_cancel_left (List.append_cancel_right again)).symm
      rw [same_pending]
      simp only [Worker.turn, phase, Phase.steps]
      omega
  | freed job answer =>
      simp only [Worker.turn, phase, Phase.steps, pending]
      omega
  | sent =>
      simp only [Worker.turn, phase, Phase.steps, pending]
      omega

theorem remaining_wake : { worker with phase := worker.phase.wake : Worker J R }.remaining =
    worker.remaining := by
  unfold remaining
  rw [Phase.steps_wake]
  rfl

theorem remaining_abandon : worker.abandon.remaining ≤ worker.remaining := by
  have none_pending : worker.abandon.pending = [] := by
    unfold Worker.abandon State.abandon pending
    cases worker.state.start with
    | none => rfl
    | some job =>
        simp only [Queue.finish, Queue.abandon]
        split <;> rfl
  unfold remaining
  rw [none_pending]
  change worker.phase.wake.steps + 0 ≤ _
  rw [Phase.steps_wake]
  exact Nat.le_add_right _ _

/-! ## A closed session -/

/-- A closed queue takes no call. -/
theorem submit_of_closed (closed : worker.state.queue.closed = true) (overloaded : R)
    (before : Before J R E) (rawBytes : Nat) :
    (worker.submit overloaded before rawBytes).2 = worker := by
  cases before with
  | answer result => rfl
  | protocolError error => rfl
  | proceed job => rw [submit_of_refuses overloaded (Or.inl closed) job]

theorem closed_turn (closed : worker.state.queue.closed = true) (outcome : Option R) :
    (worker.turn outcome).state.queue.closed = true ∧
      (worker.turn outcome).accepted = worker.accepted ∧
      (worker.turn outcome).abandoned = worker.abandoned := by
  unfold turn
  split
  · split
    · exact ⟨closed, rfl, rfl⟩
    · split <;> exact ⟨closed, rfl, rfl⟩
  · exact ⟨closed, rfl, rfl⟩
  · exact ⟨closed, rfl, rfl⟩
  · exact ⟨closed, rfl, rfl⟩
  · refine ⟨?_, rfl, rfl⟩
    unfold Queue.finish
    split
    · exact closed
    · split <;> exact closed
  · exact ⟨closed, rfl, rfl⟩
  · exact ⟨closed, rfl, rfl⟩

theorem closed_abandon : worker.abandon.state.queue.closed = true := by
  unfold Worker.abandon State.abandon
  cases worker.state.start with
  | none => rfl
  | some job =>
      simp only [Queue.finish, Queue.abandon]
      split <;> rfl

/-- Once closed, nothing more is accepted, and only an abandonment abandons. -/
theorem closed_act (closed : worker.state.queue.closed = true) (overloaded : R)
    (action : Action J R E) :
    (worker.act overloaded action).state.queue.closed = true ∧
      (worker.act overloaded action).accepted = worker.accepted ∧
      (action.isAbandon = false → (worker.act overloaded action).abandoned = worker.abandoned) := by
  cases action with
  | submit before rawBytes =>
      have same := submit_of_closed closed overloaded before rawBytes
      rw [act, same]
      exact ⟨closed, rfl, fun _ => rfl⟩
  | close => exact ⟨rfl, rfl, fun _ => rfl⟩
  | abandon => exact ⟨closed_abandon, rfl, fun kept => absurd kept.symm Bool.false_ne_true⟩
  | turn outcome =>
      obtain ⟨still_closed, same_accepted, same_abandoned⟩ := closed_turn closed outcome
      exact ⟨still_closed, same_accepted, fun _ => same_abandoned⟩
  | wake => exact ⟨closed, rfl, fun _ => rfl⟩

/-- Once closed, each step of the worker shortens what is left, and nothing lengthens it. -/
theorem Sound.remaining_act (sound : Sound worker) (closed : worker.state.queue.closed = true)
    (overloaded : R) (action : Action J R E) :
    (worker.act overloaded action).remaining ≤ worker.remaining - turns [action] := by
  cases action with
  | submit before rawBytes =>
      rw [Worker.act, submit_of_closed closed overloaded before rawBytes]
      exact Nat.le_refl _
  | close => exact Nat.le_of_eq remaining_wake
  | abandon => exact remaining_abandon
  | turn outcome => exact sound.remaining_turn outcome
  | wake => exact Nat.le_of_eq remaining_wake

/-- What a closed session comes to. -/
theorem Sound.run_of_closed (sound : Sound worker) (closed : worker.state.queue.closed = true)
    (overloaded : R) (later : List (Action J R E)) :
    (worker.run overloaded later).accepted = worker.accepted ∧
      (worker.run overloaded later).remaining ≤ worker.remaining - turns later ∧
      (later.all (fun action => !action.isAbandon) = true →
        (worker.run overloaded later).abandoned = worker.abandoned) := by
  induction later generalizing worker with
  | nil => exact ⟨rfl, Nat.le_refl _, fun _ => rfl⟩
  | cons action later rest =>
      obtain ⟨still_closed, same_accepted, same_abandoned⟩ := closed_act closed overloaded action
      obtain ⟨later_accepted, later_remaining, later_abandoned⟩ :=
        rest (sound.act overloaded action) still_closed
      have shorter := sound.remaining_act closed overloaded action
      refine ⟨later_accepted.trans same_accepted, ?_, fun kept => ?_⟩
      · have counted : turns (action :: later) = turns [action] + turns later := by
          simp only [turns, List.countP_cons, List.countP_nil]
          omega
        change ((worker.act overloaded action).run overloaded later).remaining ≤ _
        omega
      · rw [List.all_cons, Bool.and_eq_true, Bool.not_eq_true'] at kept
        exact (later_abandoned kept.2).trans (same_abandoned kept.1)

/-- With nothing left to do every decision that began is answered. -/
theorem settled_of_remaining (none_left : worker.remaining = 0) :
    worker.pending = [] ∧ worker.phase.unanswered = none := by
  rw [remaining, Nat.add_eq_zero_iff] at none_left
  obtain ⟨no_steps, no_pending⟩ := none_left
  refine ⟨List.length_eq_zero_iff.mp (by omega), ?_⟩
  cases phase : worker.phase <;> simp_all [Phase.steps, Phase.unanswered]

/-! ## The session queue -/

/-- What a worker promises, `overloaded` being the answer of a call it refuses. -/
structure Orderly (E : Type) (overloaded : R) (worker : Worker J R) : Prop where
  /-- One decision at a time: the slot belongs to the promoted one or to the running one. -/
  one_runs : (worker.state.start = none ∨ worker.phase.held = none) ∧
    (worker.state.queue.running ≠ none ↔
      worker.state.start ≠ none ∨ worker.phase.held ≠ none)
  runs_latest : ∀ job, worker.phase.held = some job →
    worker.begun.getLast? = some (job, worker.state.queue.running.getD 0)
  few_wait : worker.state.queue.waiting.length ≤ 4
  bytes_counted : worker.state.queue.bytes =
    worker.state.queue.running.getD 0 + (worker.state.queue.waiting.map Prod.snd).sum
  bytes_within : worker.state.queue.bytes ≤ 16777216
  /-- Decisions begin in the order they were accepted, each once. -/
  in_order : worker.accepted = worker.begun ++ worker.pending ++ worker.abandoned
  /-- Each that began is answered once, but for the one being decided. -/
  answered_once : worker.begun.map Prod.fst =
    worker.answered.map Prod.fst ++ worker.phase.unanswered.toList
  released : worker.state.queue.running = none → worker.state.queue.waiting = [] →
    worker.state.queue.bytes = 0
  drained_iff : worker.drained = true ↔
    worker.phase.unanswered = none ∧ worker.pending = [] ∧ worker.phase.answering = false
  refused_unchanged : ∀ (job : J) rawBytes, worker.Refuses rawBytes →
    worker.submit overloaded (.proceed job : Before J R E) rawBytes = (.answer overloaded, worker)
  taken_else : ∀ (job : J) rawBytes, ¬worker.Refuses rawBytes →
    (worker.submit overloaded (.proceed job : Before J R E) rawBytes).1 = .accepted
  /-- After closing every accepted decision is answered, but for those abandoned unstarted. -/
  closed_answers : worker.state.queue.closed = true →
    ∀ later : List (Action J R E), worker.remaining ≤ turns later →
      let after := worker.run overloaded later
      after.accepted = worker.accepted ∧ worker.accepted = after.begun ++ after.abandoned ∧
        after.begun.map Prod.fst = after.answered.map Prod.fst ∧
        (later.all (fun action => !action.isAbandon) = true → after.abandoned = worker.abandoned)

theorem Sound.drained_iff (sound : Sound worker) :
    worker.drained = true ↔
      worker.phase.unanswered = none ∧ worker.pending = [] ∧ worker.phase.answering = false := by
  rw [sound.drained_eq, State.isDrained_iff, sound.in_flight]
  constructor
  · rintro ⟨idle, none_wait, unanswering⟩
    have unpromoted : worker.state.start = none := by
      by_contra promoted
      exact sound.slot.mpr (Or.inl promoted) idle
    have unheld : worker.phase.held = none := by
      by_contra held
      exact sound.slot.mpr (Or.inr held) idle
    refine ⟨?_, (sound.none_pending unpromoted unheld).2.2, unanswering⟩
    cases phase : worker.phase <;> simp_all [Phase.held, Phase.unanswered, Phase.answering]
  · rintro ⟨unanswered, none_pending, unanswering⟩
    have unheld : worker.phase.held = none := by
      cases phase : worker.phase <;> simp_all [Phase.held, Phase.unanswered]
    have unpromoted : worker.state.start = none := by
      unfold pending at none_pending
      simpa using (List.append_eq_nil_iff.mp none_pending).1
    obtain ⟨idle, none_wait, -⟩ := sound.none_pending unpromoted unheld
    exact ⟨idle, none_wait, unanswering⟩

theorem Sound.closed_answers (sound : Sound worker) (closed : worker.state.queue.closed = true)
    (overloaded : R) (later : List (Action J R E)) (enough : worker.remaining ≤ turns later) :
    worker.accepted =
        (worker.run overloaded later).begun ++ (worker.run overloaded later).abandoned ∧
      (worker.run overloaded later).begun.map Prod.fst =
        (worker.run overloaded later).answered.map Prod.fst := by
  obtain ⟨same_accepted, shorter, -⟩ := sound.run_of_closed closed overloaded later
  have afterwards := sound.run overloaded later
  have none_left : (worker.run overloaded later).remaining = 0 := by omega
  obtain ⟨none_pending, unanswered⟩ := settled_of_remaining none_left
  have accepted_eq := afterwards.accepted_eq
  have begun_eq := afterwards.begun_eq
  rw [same_accepted, none_pending, List.append_nil] at accepted_eq
  rw [unanswered, Option.toList_none, List.append_nil] at begun_eq
  exact ⟨accepted_eq, begun_eq⟩

/-- Whatever calls and steps of the worker come, in any order: one decision runs, four wait at most,
the bytes stay within the cap, and the accepted decisions are served in order. -/
theorem served_in_order (overloaded : R) (actions : List (Action J R E)) :
    Orderly E overloaded ((start : Worker J R).run overloaded actions) := by
  have sound := (sound_start : Sound (start : Worker J R)).run overloaded actions
  constructor
  · exact ⟨sound.apart, sound.slot⟩
  · exact sound.holding
  · exact sound.accounted.few
  · exact sound.accounted.bytes_eq
  · exact sound.accounted.within_cap
  · exact sound.accepted_eq
  · exact sound.begun_eq
  · intro idle none_wait
    have bytes_eq := sound.accounted.bytes_eq
    rw [idle, none_wait] at bytes_eq
    simpa using bytes_eq
  · exact sound.drained_iff
  · exact fun job rawBytes refuses => submit_of_refuses overloaded refuses job
  · exact fun job rawBytes taken => sound.submit_of_not_refuses overloaded taken job
  · intro closed later enough
    obtain ⟨same_accepted, -, same_abandoned⟩ := sound.run_of_closed closed overloaded later
    obtain ⟨accepted_eq, begun_eq⟩ := sound.closed_answers closed overloaded later enough
    exact ⟨same_accepted, accepted_eq, begun_eq, same_abandoned⟩

end Worker

/-- A refusal carries no work: two calls that a closed queue refuses are refused alike. -/
theorem refusal_drops_the_work :
    ¬∃ handedBack : Except Refused (Placed Nat × Queue Nat) → Option Nat,
      ∀ (queue : Queue Nat) (item bytes : Nat) (refused : Refused),
        queue.admission item bytes = .error refused →
          handedBack (queue.admission item bytes) = some item := by
  rintro ⟨handedBack, hands⟩
  have first := hands Queue.new.close 0 1 .closed rfl
  have second := hands Queue.new.close 1 1 .closed rfl
  exact absurd (first.symm.trans second) (by decide)

end Baley.Session
