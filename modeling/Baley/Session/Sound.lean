import Baley.Session.Worker

/-!
# What every state of the worker keeps

The running slot belongs either to the job the queue promoted or to the one the worker holds, never to
both, and the history of decisions is the accepted ones in order: begun, then pending, then abandoned.
-/

namespace Baley.Session

variable {J R E : Type}

namespace Worker

/-- Holds between any two steps of the worker and its callers. -/
structure Sound (worker : Worker J R) : Prop where
  accounted : worker.state.queue.Accounted
  slot : worker.state.queue.running ≠ none ↔
    worker.state.start ≠ none ∨ worker.phase.held ≠ none
  apart : worker.state.start = none ∨ worker.phase.held = none
  in_flight : worker.state.answerInFlight = worker.phase.answering
  accepted_eq : worker.accepted = worker.begun ++ worker.pending ++ worker.abandoned
  begun_eq : worker.begun.map Prod.fst =
    worker.answered.map Prod.fst ++ worker.phase.unanswered.toList
  holding : ∀ job, worker.phase.held = some job →
    worker.begun.getLast? = some (job, worker.state.queue.running.getD 0)
  drained_eq : worker.drained = worker.state.isDrained
  asleep : worker.phase = .asleep →
    worker.state.start = none ∧ ¬(worker.state.queue.closed = true ∧ worker.state.isDrained = true)
  exited : worker.phase = .exited →
    worker.state.queue.closed = true ∧ worker.state.isDrained = true
  shut : worker.abandoned ≠ [] → worker.state.queue.closed = true

theorem sound_start : Sound (start : Worker J R) := by
  constructor <;> simp [start, pending, Phase.held, Phase.answering, Phase.unanswered, Queue.new,
    State.isDrained, Queue.isDrained]
  exact Queue.accounted_new

variable {worker : Worker J R}

/-! ## The phases a wake leaves alone -/

theorem held_wake (phase : Phase J R) : phase.wake.held = phase.held := by
  cases phase <;> rfl

theorem unanswered_wake (phase : Phase J R) : phase.wake.unanswered = phase.unanswered := by
  cases phase <;> rfl

theorem answering_wake (phase : Phase J R) : phase.wake.answering = phase.answering := by
  cases phase <;> rfl

theorem wake_ne_asleep (phase : Phase J R) : phase.wake ≠ .asleep := by
  cases phase <;> simp [Phase.wake]

theorem exited_of_wake {phase : Phase J R} (exited : phase.wake = .exited) : phase = .exited := by
  cases phase <;> simp_all [Phase.wake]

theorem held_none_of_answering {phase : Phase J R} (answering : phase.answering = true) :
    phase.held = none := by
  cases phase <;> simp_all [Phase.answering, Phase.held]

/-! ## Drained states -/

theorem State.isDrained_iff {state : State J} :
    state.isDrained = true ↔
      state.queue.running = none ∧ state.queue.waiting = [] ∧ state.answerInFlight = false := by
  simp [State.isDrained, Queue.isDrained, and_assoc]

namespace Sound

/-- Nothing is promoted in a drained state. -/
theorem start_of_drained (sound : Sound worker) (drained : worker.state.isDrained = true) :
    worker.state.start = none ∧ worker.phase.held = none := by
  have idle := (State.isDrained_iff.mp drained).1
  by_contra busy
  apply (sound.slot.mpr ?_) idle
  by_contra neither
  rw [not_or, not_not, not_not] at neither
  exact busy neither

/-- With no job promoted and none held nothing waits. -/
theorem none_pending (sound : Sound worker) (unpromoted : worker.state.start = none)
    (unheld : worker.phase.held = none) :
    worker.state.queue.running = none ∧ worker.state.queue.waiting = [] ∧ worker.pending = [] := by
  have idle : worker.state.queue.running = none := by
    by_contra running
    rcases sound.slot.mp running with promoted | held
    · exact promoted unpromoted
    · exact held unheld
  have none_wait : worker.state.queue.waiting = [] := by
    by_contra waits
    exact sound.accounted.waits_behind waits idle
  refine ⟨idle, none_wait, ?_⟩
  rw [pending, unpromoted, none_wait]
  rfl

/-! ## One step -/

theorem wake (sound : Sound worker) : Sound { worker with phase := worker.phase.wake } := by
  constructor
  · exact sound.accounted
  · rw [held_wake]
    exact sound.slot
  · rw [held_wake]
    exact sound.apart
  · rw [answering_wake]
    exact sound.in_flight
  · exact sound.accepted_eq
  · rw [unanswered_wake]
    exact sound.begun_eq
  · rw [held_wake]
    exact sound.holding
  · exact sound.drained_eq
  · exact fun asleep => absurd asleep (wake_ne_asleep _)
  · exact fun exited => sound.exited (exited_of_wake exited)
  · exact sound.shut

/-- An open queue has abandoned nothing. -/
theorem none_abandoned (sound : Sound worker) (isOpen : worker.state.queue.closed = false) :
    worker.abandoned = [] := by
  by_contra some_abandoned
  rw [sound.shut some_abandoned] at isOpen
  exact Bool.noConfusion isOpen

/-- A call that runs now is promoted, and the worker woken. -/
theorem promote (sound : Sound worker) {job : J} {bytes : Nat}
    (isOpen : worker.state.queue.closed = false) (idle : worker.state.queue.running = none)
    (within : worker.state.queue.bytes + bytes ≤ byteCap) :
    Sound { worker with
      state := { worker.state with
        queue := { worker.state.queue with
          bytes := worker.state.queue.bytes + bytes, running := some bytes }
        start := some job }
      drained := false
      phase := worker.phase.wake
      accepted := worker.accepted ++ [(job, bytes)] } := by
  have unpromoted : worker.state.start = none := by
    by_contra promoted
    exact sound.slot.mpr (Or.inl promoted) idle
  have unheld : worker.phase.held = none := by
    by_contra held
    exact sound.slot.mpr (Or.inr held) idle
  obtain ⟨-, none_wait, none_pending⟩ := sound.none_pending unpromoted unheld
  have bytes_eq := sound.accounted.bytes_eq
  rw [idle, none_wait] at bytes_eq
  constructor
  · refine ⟨sound.accounted.few, ?_, within, fun waits => absurd none_wait waits⟩
    simp [none_wait, bytes_eq]
  · simp
  · exact Or.inr ((held_wake _).trans unheld)
  · rw [answering_wake]
    exact sound.in_flight
  · simp [sound.accepted_eq, pending, unpromoted, none_wait, sound.none_abandoned isOpen]
  · rw [unanswered_wake]
    exact sound.begun_eq
  · intro held_job held
    rw [held_wake, unheld] at held
    exact absurd held (Option.some_ne_none held_job).symm
  · simp [State.isDrained, Queue.isDrained]
  · exact fun asleep => absurd asleep (wake_ne_asleep _)
  · intro exited
    have closed := (sound.exited (exited_of_wake exited)).1
    rw [isOpen] at closed
    exact Bool.noConfusion closed
  · exact sound.shut

/-- A call behind a running one waits last. -/
theorem enqueue (sound : Sound worker) {job : J} {bytes : Nat} {queue : Queue J}
    (isOpen : worker.state.queue.closed = false) (busy : worker.state.queue.running ≠ none)
    (accounted : queue.Accounted)
    (queue_eq : queue = { worker.state.queue with
      bytes := worker.state.queue.bytes + bytes
      waiting := worker.state.queue.waiting ++ [(job, bytes)] }) :
    Sound { worker with
      state := { worker.state with queue }
      drained := false
      accepted := worker.accepted ++ [(job, bytes)] } := by
  have not_exited : worker.phase ≠ .exited := by
    intro exited
    exact busy (State.isDrained_iff.mp (sound.exited exited).2).1
  have drained_eq : State.isDrained { worker.state with queue } = false := by
    rw [← Bool.not_eq_true, State.isDrained_iff]
    rintro ⟨idle, -⟩
    rw [queue_eq] at idle
    exact busy idle
  constructor
  · exact accounted
  · rw [queue_eq]
    exact sound.slot
  · exact sound.apart
  · exact sound.in_flight
  · simp [queue_eq, sound.accepted_eq, pending, sound.none_abandoned isOpen]
  · exact sound.begun_eq
  · rw [queue_eq]
    exact sound.holding
  · exact drained_eq.symm
  · intro asleep
    refine ⟨(sound.asleep asleep).1, fun done => ?_⟩
    exact absurd done.2 (by simp [drained_eq])
  · exact fun exited => absurd exited not_exited
  · intro some_abandoned
    exact absurd (sound.none_abandoned isOpen) some_abandoned

theorem submit (sound : Sound worker) (overloaded : R) (before : Before J R E) (rawBytes : Nat) :
    Sound (worker.submit overloaded before rawBytes).2 := by
  cases before with
  | answer result => exact sound
  | protocolError error => exact sound
  | proceed job =>
      cases admitted : worker.state.queue.admission job rawBytes with
      | error refused => simpa only [Worker.submit, admitted] using sound
      | ok taken =>
          obtain ⟨placed, queue⟩ := taken
          simp only [Worker.submit, admitted]
          have accounted := sound.accounted.admission admitted
          obtain ⟨isOpen, within, ⟨idle, rfl, rfl⟩ | ⟨busy, -, rfl, queue_eq⟩⟩ :=
            Queue.of_admission admitted
          · exact sound.promote isOpen idle within
          · exact sound.enqueue isOpen busy accounted queue_eq

theorem close (sound : Sound worker) : Sound worker.close := by
  have woken := sound.wake
  constructor
  · exact sound.accounted.close
  · exact woken.slot
  · exact woken.apart
  · exact woken.in_flight
  · exact sound.accepted_eq
  · exact woken.begun_eq
  · exact woken.holding
  · rfl
  · exact fun asleep => absurd asleep (wake_ne_asleep _)
  · exact fun exited => ⟨rfl, (sound.exited (exited_of_wake exited)).2⟩
  · exact fun _ => rfl

theorem abandon (sound : Sound worker) : Sound worker.abandon := by
  have woken := sound.wake
  have accounted := sound.accounted.abandon
  cases promoted : worker.state.start with
  | none =>
      have state_eq : worker.state.abandon =
          { worker.state with queue := worker.state.queue.abandon.2 } := by
        simp only [State.abandon, promoted]
      have slot := woken.slot
      have drained_eq : worker.state.abandon.isDrained = true ↔
          worker.state.queue.running = none ∧ worker.state.answerInFlight = false := by
        rw [state_eq, State.isDrained_iff]
        simp [Queue.abandon]
      unfold Worker.abandon
      simp only [state_eq] at drained_eq ⊢
      constructor
      · exact accounted
      · exact woken.slot
      · exact woken.apart
      · exact woken.in_flight
      · simp [sound.accepted_eq, pending, promoted, Queue.abandon]
      · exact woken.begun_eq
      · exact woken.holding
      · rfl
      · exact fun asleep => absurd asleep (wake_ne_asleep _)
      · intro exited
        have done := State.isDrained_iff.mp (sound.exited (exited_of_wake exited)).2
        exact ⟨rfl, drained_eq.mpr ⟨done.1, done.2.2⟩⟩
      · exact fun _ => rfl
  | some job =>
      have unheld : worker.phase.held = none :=
        sound.apart.resolve_left (promoted ▸ Option.some_ne_none job)
      obtain ⟨ended, running⟩ := Option.ne_none_iff_exists'.mp
        (sound.slot.mpr (Or.inl (promoted ▸ Option.some_ne_none job)))
      have state_eq : worker.state.abandon =
          { worker.state with queue := worker.state.queue.abandon.2.finish.2, start := none } := by
        simp only [State.abandon, promoted]
      have idle : worker.state.queue.abandon.2.finish.2.running = none := by
        simp only [Queue.finish, Queue.abandon, running]
      have none_wait : worker.state.queue.abandon.2.finish.2.waiting = [] := by
        simp only [Queue.finish, Queue.abandon, running]
      have closed : worker.state.queue.abandon.2.finish.2.closed = true := by
        simp only [Queue.finish, Queue.abandon, running]
      unfold Worker.abandon
      simp only [state_eq]
      constructor
      · exact accounted.finish
      · simp [idle, held_wake, unheld]
      · exact Or.inl rfl
      · exact woken.in_flight
      · simp [sound.accepted_eq, pending, none_wait]
      · exact woken.begun_eq
      · intro held_job held
        rw [held_wake, unheld] at held
        exact absurd held (Option.some_ne_none held_job).symm
      · rfl
      · exact fun asleep => absurd asleep (wake_ne_asleep _)
      · intro exited
        have drained := (sound.exited (exited_of_wake exited)).2
        exact absurd (sound.start_of_drained drained).1 (promoted ▸ Option.some_ne_none job)
      · exact fun _ => closed

/-! ## The worker's own steps -/

/-- The promoted job begins. -/
theorem begin (sound : Sound worker) {job : J} (idle : worker.phase = .idle)
    (promoted : worker.state.start = some job) :
    Sound { worker with
      state := { worker.state with start := none }
      phase := .deciding job
      begun := worker.begun ++ [(job, worker.state.queue.running.getD 0)] } := by
  have busy := sound.slot.mpr (Or.inl (promoted ▸ Option.some_ne_none job))
  have in_flight := sound.in_flight
  have begun_eq := sound.begun_eq
  rw [idle] at in_flight begun_eq
  constructor
  · exact sound.accounted
  · simp [busy, Phase.held]
  · exact Or.inl rfl
  · exact in_flight
  · simp [sound.accepted_eq, pending, promoted]
  · simpa [Phase.unanswered] using begun_eq
  · rintro held_job ⟨⟩
    simp
  · exact sound.drained_eq
  · rintro ⟨⟩
  · rintro ⟨⟩
  · exact sound.shut

/-- With nothing to begin the worker exits when closed and drained, and else sleeps. -/
theorem rest (sound : Sound worker) {phase : Phase J R} (idle : worker.phase = .idle)
    (unpromoted : worker.state.start = none)
    (resting : phase = .asleep ∧
        ¬(worker.state.queue.closed = true ∧ worker.state.isDrained = true) ∨
      phase = .exited ∧ worker.state.queue.closed = true ∧ worker.state.isDrained = true) :
    Sound { worker with phase } := by
  have unheld : phase.held = none := by
    rcases resting with ⟨rfl, -⟩ | ⟨rfl, -⟩ <;> rfl
  have unanswered : phase.unanswered = none := by
    rcases resting with ⟨rfl, -⟩ | ⟨rfl, -⟩ <;> rfl
  have unanswering : phase.answering = false := by
    rcases resting with ⟨rfl, -⟩ | ⟨rfl, -⟩ <;> rfl
  have slot := sound.slot
  have in_flight := sound.in_flight
  have begun_eq := sound.begun_eq
  rw [idle] at slot in_flight begun_eq
  constructor
  · exact sound.accounted
  · rw [unheld]
    exact slot
  · exact Or.inl unpromoted
  · exact in_flight.trans unanswering.symm
  · exact sound.accepted_eq
  · rw [unanswered]
    exact begun_eq
  · intro held_job held
    rw [unheld] at held
    exact absurd held (Option.some_ne_none held_job).symm
  · exact sound.drained_eq
  · intro asleep
    rcases resting with ⟨-, awake⟩ | ⟨exited, -⟩
    · exact ⟨unpromoted, awake⟩
    · exact absurd (exited.symm.trans asleep) (by rintro ⟨⟩)
  · intro exited
    rcases resting with ⟨asleep, -⟩ | ⟨-, done⟩
    · exact absurd (asleep.symm.trans exited) (by rintro ⟨⟩)
    · exact done
  · exact sound.shut

/-- A decision ends, by its result or by a panic. -/
theorem decide (sound : Sound worker) {job : J} (deciding : worker.phase = .deciding job)
    (answer : Answer R) : Sound { worker with phase := .decided job answer } := by
  have same_held : (Phase.decided job answer).held = worker.phase.held := by rw [deciding]; rfl
  constructor
  · exact sound.accounted
  · rw [same_held]
    exact sound.slot
  · rw [same_held]
    exact sound.apart
  · rw [sound.in_flight, deciding]
    rfl
  · exact sound.accepted_eq
  · rw [sound.begun_eq, deciding]
    rfl
  · rw [same_held]
    exact sound.holding
  · exact sound.drained_eq
  · rintro ⟨⟩
  · rintro ⟨⟩
  · exact sound.shut

/-- The slot is freed and the next call promoted, before the answer goes out. -/
theorem free (sound : Sound worker) {job : J} {answer : Answer R}
    (decided : worker.phase = .decided job answer) :
    Sound { worker with
      state :=
        { queue := worker.state.queue.finish.2, start := worker.state.queue.finish.1
          answerInFlight := true }
      phase := .freed job answer } := by
  have held : worker.phase.held = some job := by rw [decided]; rfl
  have unpromoted : worker.state.start = none :=
    sound.apart.resolve_right (held ▸ Option.some_ne_none job)
  obtain ⟨ended, running⟩ := Option.ne_none_iff_exists'.mp
    (sound.slot.mpr (Or.inr (held ▸ Option.some_ne_none job)))
  have undrained : worker.drained = false := by
    rw [sound.drained_eq, ← Bool.not_eq_true]
    intro drained
    rw [(sound.start_of_drained drained).2] at held
    exact absurd held (Option.some_ne_none job).symm
  have pending_eq : worker.pending = worker.state.queue.waiting := by
    rw [pending, unpromoted]
    rfl
  have begun_eq := sound.begun_eq
  rw [decided] at begun_eq
  constructor
  · exact sound.accounted.finish
  · unfold Queue.finish
    cases waiting : worker.state.queue.waiting <;> simp [running, Phase.held]
  · exact Or.inr rfl
  · rfl
  · rw [sound.accepted_eq, pending_eq, pending]
    unfold Queue.finish
    cases waiting : worker.state.queue.waiting <;> simp [running]
  · exact begun_eq
  · rintro held_job ⟨⟩
  · simp [undrained, State.isDrained]
  · rintro ⟨⟩
  · rintro ⟨⟩
  · intro some_abandoned
    have closed := sound.shut some_abandoned
    unfold Queue.finish
    cases waiting : worker.state.queue.waiting <;> simpa [running, waiting] using closed

/-- The answer goes out. -/
theorem send (sound : Sound worker) {job : J} {answer : Answer R}
    (freed : worker.phase = .freed job answer) :
    Sound { worker with phase := .sent, answered := worker.answered ++ [(job, answer)] } := by
  have slot := sound.slot
  have in_flight := sound.in_flight
  have begun_eq := sound.begun_eq
  rw [freed] at slot in_flight begun_eq
  constructor
  · exact sound.accounted
  · exact slot
  · exact Or.inr rfl
  · exact in_flight
  · exact sound.accepted_eq
  · simpa [Phase.unanswered] using begun_eq
  · rintro held_job ⟨⟩
  · exact sound.drained_eq
  · rintro ⟨⟩
  · rintro ⟨⟩
  · exact sound.shut

/-- The sent answer is no longer in flight. -/
theorem land (sound : Sound worker) (sent : worker.phase = .sent) :
    Sound { worker with
      state := { worker.state with answerInFlight := false }
      drained := State.isDrained { worker.state with answerInFlight := false }
      phase := .idle } := by
  have slot := sound.slot
  have begun_eq := sound.begun_eq
  rw [sent] at slot begun_eq
  constructor
  · exact sound.accounted
  · exact slot
  · exact Or.inr rfl
  · rfl
  · exact sound.accepted_eq
  · exact begun_eq
  · rintro held_job ⟨⟩
  · rfl
  · rintro ⟨⟩
  · rintro ⟨⟩
  · exact sound.shut

theorem turn (sound : Sound worker) (outcome : Option R) : Sound (worker.turn outcome) := by
  cases phase : worker.phase with
  | idle =>
      cases promoted : worker.state.start with
      | some job => simpa only [Worker.turn, phase, promoted] using sound.begin phase promoted
      | none =>
          by_cases done : worker.state.queue.closed = true ∧ worker.state.isDrained = true
          · have rests := sound.rest phase promoted (Or.inr ⟨rfl, done⟩)
            simpa only [Worker.turn, phase, promoted, done.1, done.2, Bool.and_self, if_true]
              using rests
          · have rests := sound.rest phase promoted (Or.inl ⟨rfl, done⟩)
            have open_or_busy : (worker.state.queue.closed && worker.state.isDrained) = false := by
              rwa [← Bool.not_eq_true, Bool.and_eq_true]
            simpa only [Worker.turn, phase, promoted, open_or_busy, Bool.false_eq_true, if_false]
              using rests
  | asleep | exited => simpa only [Worker.turn, phase] using sound
  | deciding job => simpa only [Worker.turn, phase] using sound.decide phase _
  | decided job answer => simpa only [Worker.turn, phase] using sound.free phase
  | freed job answer => simpa only [Worker.turn, phase] using sound.send phase
  | sent => simpa only [Worker.turn, phase] using sound.land phase

theorem act (sound : Sound worker) (overloaded : R) (action : Action J R E) :
    Sound (worker.act overloaded action) := by
  cases action with
  | submit before rawBytes => exact sound.submit overloaded before rawBytes
  | close => exact sound.close
  | abandon => exact sound.abandon
  | turn outcome => exact sound.turn outcome
  | wake => exact sound.wake

theorem run (sound : Sound worker) (overloaded : R) (actions : List (Action J R E)) :
    Sound (worker.run overloaded actions) := by
  induction actions generalizing worker with
  | nil => exact sound
  | cons action actions later => exact later (sound.act overloaded action)

end Sound

end Worker

end Baley.Session
