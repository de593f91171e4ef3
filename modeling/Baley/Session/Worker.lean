import Mathlib.Algebra.BigOperators.Group.List.Basic
import Mathlib.Algebra.GroupWithZero.Nat
import Baley.Attempt

/-!
# The session's queue and worker

One decision runs, four wait behind it in arrival order, and the raw bytes of all of them stay under a cap.
A refused call changes nothing, and its work is dropped.  The worker's steps hold a lock only in part, so
calls are submitted, and admission closed or abandoned, between any two of them.
-/

namespace Baley.Session

/-- How many decisions may wait behind the running one. -/
def waitingSlots : Nat := 4

/-- The most raw frame bytes the running decision and the waiting ones may hold together. -/
def byteCap : Nat := 16777216

/-- The largest value of the host's unsigned size type. -/
def maxUsize : Nat := 2 ^ 64 - 1

/-- Where an accepted call went. -/
inductive Placed (α : Type) where
  /-- Nothing was running, so this call runs now. -/
  | started (item : α)
  | queued
  deriving DecidableEq

/-- Why a call was not taken. -/
inductive Refused where
  /-- Every waiting slot is full, or the bytes would pass the cap. -/
  | overloaded
  | closed
  deriving DecidableEq

structure Queue (α : Type) where
  /-- The raw bytes of the running decision. -/
  running : Option Nat
  waiting : List (α × Nat)
  bytes : Nat
  closed : Bool
  deriving DecidableEq

namespace Queue

variable {α : Type}

def new : Queue α := ⟨none, [], 0, false⟩

variable (queue : Queue α)

/-- Take a call, or say why not. -/
def admission (item : α) (bytes : Nat) : Except Refused (Placed α × Queue α) :=
  if queue.closed then .error .closed
  else if ¬ (queue.running = none ∨ queue.waiting.length < waitingSlots) ∨
      byteCap < min (queue.bytes + bytes) maxUsize then .error .overloaded
  else if queue.running = none then
    .ok (.started item, { queue with bytes := queue.bytes + bytes, running := some bytes })
  else
    .ok (.queued,
      { queue with bytes := queue.bytes + bytes, waiting := queue.waiting ++ [(item, bytes)] })

/-- The running decision ended: its slot and bytes are freed, and the oldest waiting call is
promoted. -/
def finish : Option α × Queue α :=
  match queue.running with
  | none => (none, queue)
  | some ended =>
      match queue.waiting with
      | [] => (none, { queue with bytes := queue.bytes - ended, running := none })
      | (item, bytes) :: waiting =>
          (some item, { queue with bytes := queue.bytes - ended, running := some bytes, waiting })

/-- Stop admitting. -/
def close : Queue α := { queue with closed := true }

/-- Close, and drop every waiting call unstarted. -/
def abandon : List α × Queue α :=
  (queue.waiting.map Prod.fst,
    { queue with
      closed := true, waiting := [], bytes := queue.bytes - (queue.waiting.map Prod.snd).sum })

def isDrained : Bool := queue.running.isNone && queue.waiting.isEmpty

/-! ## Accounting -/

/-- The slots and bytes are those of the calls held. -/
structure Accounted (queue : Queue α) : Prop where
  few : queue.waiting.length ≤ waitingSlots
  bytes_eq : queue.bytes = queue.running.getD 0 + (queue.waiting.map Prod.snd).sum
  within_cap : queue.bytes ≤ byteCap
  /-- A call waits only behind a running one. -/
  waits_behind : queue.waiting ≠ [] → queue.running ≠ none

variable {queue} {after : Queue α}

theorem accounted_new : Accounted (new : Queue α) := by
  constructor <;> simp [new]

/-- What an admission did: nothing was running and the call runs now, or it waits last. -/
theorem of_admission {item : α} {bytes : Nat} {placed : Placed α}
    (admitted : queue.admission item bytes = .ok (placed, after)) :
    queue.closed = false ∧ queue.bytes + bytes ≤ byteCap ∧
      (queue.running = none ∧ placed = .started item ∧
          after = { queue with bytes := queue.bytes + bytes, running := some bytes } ∨
        queue.running ≠ none ∧ queue.waiting.length < waitingSlots ∧ placed = .queued ∧
          after = { queue with
            bytes := queue.bytes + bytes, waiting := queue.waiting ++ [(item, bytes)] }) := by
  unfold admission at admitted
  split_ifs at admitted with closed refused idle
  · obtain ⟨rfl, rfl⟩ := Prod.mk.inj (Except.ok.inj admitted)
    rw [not_or, not_not] at refused
    refine ⟨by simpa using closed, ?_, Or.inl ⟨idle, rfl, rfl⟩⟩
    have within := Nat.not_lt.mp refused.2
    unfold byteCap maxUsize at within
    unfold byteCap
    omega
  · obtain ⟨rfl, rfl⟩ := Prod.mk.inj (Except.ok.inj admitted)
    rw [not_or, not_not] at refused
    refine ⟨by simpa using closed, ?_, Or.inr ⟨idle, refused.1.resolve_left idle, rfl, rfl⟩⟩
    have within := Nat.not_lt.mp refused.2
    unfold byteCap maxUsize at within
    unfold byteCap
    omega

theorem Accounted.admission (accounted : Accounted queue) {item : α} {bytes : Nat} {placed : Placed α}
    (admitted : queue.admission item bytes = .ok (placed, after)) : Accounted after := by
  obtain ⟨-, within, ⟨idle, -, rfl⟩ | ⟨busy, free, -, rfl⟩⟩ := of_admission admitted
  · have none_wait : queue.waiting = [] := by
      by_contra waits
      exact accounted.waits_behind waits idle
    refine ⟨accounted.few, ?_, within, fun waits => absurd none_wait waits⟩
    have bytes_eq := accounted.bytes_eq
    rw [idle, none_wait] at bytes_eq
    simp [none_wait, bytes_eq]
  · refine ⟨?_, ?_, within, fun _ => busy⟩
    · rw [List.length_append, List.length_singleton]
      omega
    · have bytes_eq := accounted.bytes_eq
      simp only [List.map_append, List.map_cons, List.map_nil, List.sum_append, List.sum_singleton]
      omega

theorem Accounted.finish (accounted : Accounted queue) : Accounted queue.finish.2 := by
  have bytes_eq := accounted.bytes_eq
  have within := accounted.within_cap
  have few := accounted.few
  unfold Queue.finish
  cases running_eq : queue.running with
  | none => exact accounted
  | some ended =>
      rw [running_eq, Option.getD_some] at bytes_eq
      cases waiting_eq : queue.waiting with
      | nil =>
          rw [waiting_eq] at bytes_eq
          refine ⟨Nat.zero_le _, ?_, ?_, fun waits => absurd rfl waits⟩
          · simp [bytes_eq]
          · simp only
            omega
      | cons next waiting =>
          rw [waiting_eq, List.map_cons, List.sum_cons] at bytes_eq
          rw [waiting_eq, List.length_cons] at few
          refine ⟨?_, ?_, ?_, fun _ => Option.some_ne_none _⟩
          · simp only
            omega
          · simp only [Option.getD_some]
            omega
          · simp only
            omega

theorem Accounted.close (accounted : Accounted queue) : Accounted queue.close :=
  { accounted with }

theorem Accounted.abandon (accounted : Accounted queue) : Accounted queue.abandon.2 := by
  have bytes_eq := accounted.bytes_eq
  have within := accounted.within_cap
  refine ⟨Nat.zero_le _, ?_, ?_, fun waits => absurd rfl waits⟩
  · simp only [Queue.abandon, List.map_nil, List.sum_nil]
    omega
  · simp only [Queue.abandon]
    omega

/-- With nothing running and nothing waiting no bytes are held. -/
theorem Accounted.bytes_of_drained (accounted : Accounted queue) (drained : queue.isDrained = true) :
    queue.running = none ∧ queue.waiting = [] ∧ queue.bytes = 0 := by
  simp only [isDrained, Bool.and_eq_true, Option.isNone_iff_eq_none, List.isEmpty_iff] at drained
  obtain ⟨idle, none_wait⟩ := drained
  have bytes_eq := accounted.bytes_eq
  rw [idle, none_wait] at bytes_eq
  exact ⟨idle, none_wait, by simpa using bytes_eq⟩

end Queue

variable {J R E : Type}

/-- What a caller gets back for an accepted call: the decision's result, or an internal error when the
decision panicked. -/
inductive Answer (R : Type) where
  | result (value : R)
  | internalError

/-- What the gate before the queue says of a call, with the job an admitted call would run. -/
inductive Before (J R E : Type) where
  | proceed (job : J)
  | answer (result : R)
  | protocolError (error : E)

/-- What submitting a call came to. -/
inductive Submission (R E : Type) where
  | answer (result : R)
  | protocolError (error : E)
  | accepted

/-- The state under the lock. -/
structure State (J : Type) where
  queue : Queue J
  /-- The job the queue promoted that the worker has not picked up yet. -/
  start : Option J
  /-- The finished decision keeps drain pending until its answer is sent. -/
  answerInFlight : Bool

def State.isDrained (state : State J) : Bool :=
  state.queue.isDrained && !state.answerInFlight

/-- Close the queue and take every decision that has not begun. -/
def State.abandon (state : State J) : State J :=
  let abandoned := state.queue.abandon.2
  match state.start with
  | some _ => { state with queue := abandoned.finish.2, start := none }
  | none => { state with queue := abandoned }

/-- Where the worker stands between its steps. -/
inductive Phase (J R : Type) where
  /-- About to look for a job. -/
  | idle
  /-- Waiting to be woken. -/
  | asleep
  | deciding (job : J)
  /-- The decision ended and its slot is still held. -/
  | decided (job : J) (answer : Answer R)
  /-- The slot is free and the answer not yet sent. -/
  | freed (job : J) (answer : Answer R)
  | sent
  | exited

namespace Phase

/-- The decision whose slot is held. -/
def held : Phase J R → Option J
  | deciding job | decided job _ => some job
  | _ => none

/-- The decision that has begun and is not answered. -/
def unanswered : Phase J R → Option J
  | deciding job | decided job _ | freed job _ => some job
  | _ => none

def wake : Phase J R → Phase J R
  | asleep => idle
  | phase => phase

/-- Whether an answer is on its way out. -/
def answering : Phase J R → Bool
  | freed _ _ | sent => true
  | _ => false

end Phase

/-- The worker and its shared state, with the history of its decisions: each with its raw bytes, in the order it was
accepted and in the order it began; each that was answered; and those abandoned unstarted. -/
structure Worker (J R : Type) where
  state : State J
  drained : Bool
  phase : Phase J R
  accepted : List (J × Nat)
  begun : List (J × Nat)
  answered : List (J × Answer R)
  abandoned : List (J × Nat)

namespace Worker

def start : Worker J R :=
  ⟨⟨.new, none, false⟩, true, .idle, [], [], [], []⟩

variable (worker : Worker J R)

/-- The decisions accepted and not begun, in the order they will. -/
def pending : List (J × Nat) :=
  (worker.state.start.toList.map fun job => (job, worker.state.queue.running.getD 0)) ++
    worker.state.queue.waiting

/-! ## Calls -/

/-- Admit one call and, when accepted, queue its job; `overloaded` is the answer of a refusal. -/
def submit (overloaded : R) (before : Before J R E) (rawBytes : Nat) :
    Submission R E × Worker J R :=
  match before with
  | .answer result => (.answer result, worker)
  | .protocolError error => (.protocolError error, worker)
  | .proceed job =>
      match worker.state.queue.admission job rawBytes with
      | .error _ => (.answer overloaded, worker)
      | .ok (placed, queue) =>
          let accepted := worker.accepted ++ [(job, rawBytes)]
          match placed with
          | .started job =>
              (.accepted,
                { worker with
                  state := { worker.state with queue, start := some job }
                  drained := false, phase := worker.phase.wake, accepted })
          | .queued =>
              (.accepted,
                { worker with state := { worker.state with queue }, drained := false, accepted })

/-- Stop admitting. -/
def close : Worker J R :=
  let state := { worker.state with queue := worker.state.queue.close }
  { worker with state, drained := state.isDrained, phase := worker.phase.wake }

/-- Close, and drop every waiting decision unstarted. -/
def abandon : Worker J R :=
  let state := worker.state.abandon
  { worker with
    state, drained := state.isDrained, phase := worker.phase.wake
    abandoned := worker.pending ++ worker.abandoned }

/-! ## The worker -/

/-- The worker's next step; `outcome` is what a running decision comes to, nothing when it panics. -/
def turn (outcome : Option R) : Worker J R :=
  match worker.phase with
  | .idle =>
      match worker.state.start with
      | some job =>
          { worker with
            state := { worker.state with start := none }, phase := .deciding job
            begun := worker.begun ++ [(job, worker.state.queue.running.getD 0)] }
      | none =>
          if worker.state.queue.closed && worker.state.isDrained then
            { worker with phase := .exited }
          else { worker with phase := .asleep }
  | .asleep | .exited => worker
  | .deciding job =>
      { worker with phase := .decided job ((outcome.map Answer.result).getD .internalError) }
  | .decided job answer =>
      { worker with
        state :=
          { queue := worker.state.queue.finish.2, start := worker.state.queue.finish.1
            answerInFlight := true }
        phase := .freed job answer }
  | .freed job answer =>
      { worker with phase := .sent, answered := worker.answered ++ [(job, answer)] }
  | .sent =>
      let state := { worker.state with answerInFlight := false }
      { worker with state, drained := state.isDrained, phase := .idle }

/-! ## Runs -/

end Worker

/-- One call, or one step of the worker. -/
inductive Action (J R E : Type) where
  | submit (before : Before J R E) (rawBytes : Nat)
  | close
  | abandon
  | turn (outcome : Option R)
  /-- A wait that ends by itself. -/
  | wake

def Worker.act (overloaded : R) (worker : Worker J R) : Action J R E → Worker J R
  | .submit before rawBytes => (worker.submit overloaded before rawBytes).2
  | .close => worker.close
  | .abandon => worker.abandon
  | .turn outcome => worker.turn outcome
  | .wake => { worker with phase := worker.phase.wake }

/-- The worker after some actions. -/
def Worker.run (overloaded : R) (worker : Worker J R) (actions : List (Action J R E)) :
    Worker J R :=
  actions.foldl (Worker.act overloaded) worker

end Baley.Session
