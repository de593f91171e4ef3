import Baley.Script
import Mathlib.Logic.Function.Basic
import Mathlib.Logic.Relation

/-!
# Interleaved scripts

Calls may have more than one outcome, and many scripts share one state: each call acts on it as the
calls of the others have left it.  What a script relies on is what the others guarantee.
-/

namespace Script

/-- What one call may do: the state it finds, its reply and the state it leaves. -/
abbrev Acts (Op : Type) (Reply : Op → Type) (σ : Type) :=
  (op : Op) → σ → Reply op → σ → Prop

variable {Op : Type} {Reply : Op → Type} {α β σ : Type}

/-- A run of a script by itself. -/
inductive Runs (acts : Acts Op Reply σ) : Script Op Reply α → σ → α → σ → Prop
  | done (result : α) (state : σ) : Runs acts (.done result) state result state
  | call {op : Op} {next : Reply op → Script Op Reply α} {before middle after : σ}
      {reply : Reply op} {result : α} (acted : acts op before reply middle)
      (later : Runs acts (next reply) middle result after) :
      Runs acts (.call op next) before result after

variable {acts : Acts Op Reply σ}

@[simp]
theorem runs_done {result result' : α} {before after : σ} :
    Runs acts (.done result : Script Op Reply α) before result' after ↔
      result' = result ∧ after = before := by
  constructor
  · intro runs
    cases runs
    exact ⟨rfl, rfl⟩
  · rintro ⟨rfl, rfl⟩
    exact .done result' after

theorem runs_call {op : Op} {next : Reply op → Script Op Reply α} {before after : σ} {result : α} :
    Runs acts (.call op next) before result after ↔
      ∃ reply middle, acts op before reply middle ∧ Runs acts (next reply) middle result after := by
  constructor
  · intro runs
    cases runs with
    | call acted later => exact ⟨_, _, acted, later⟩
  · rintro ⟨reply, middle, acted, later⟩
    exact .call acted later

/-- A run against a handler is one of the runs its calls may have. -/
theorem runs_run {handle : (op : Op) → σ → Reply op × σ}
    (within_acts : ∀ op state, acts op state (handle op state).1 (handle op state).2)
    (script : Script Op Reply α) (state : σ) :
    Runs acts script state (script.run handle state).1 (script.run handle state).2 := by
  induction script generalizing state with
  | done result => exact .done result state
  | call op next ih => exact .call (within_acts op state) (ih _ _)

/-- What every call of the script preserves, each of its runs preserves. -/
theorem All.runs {calls : Op → Prop} {ends : α → Prop} {motive : σ → Prop}
    {script : Script Op Reply α} (all : script.All calls ends)
    (step : ∀ op before reply after, calls op → acts op before reply after → motive before →
      motive after) {before after : σ} {result : α} (runs : Runs acts script before result after)
    (holds : motive before) : motive after ∧ ends result := by
  induction runs with
  | done result state => exact ⟨holds, all⟩
  | call acted later ih => exact ih (all.2 _) (step _ _ _ _ all.1 acted holds)

/-- Go on from the result of a script. -/
def bind (script : Script Op Reply α) (next : α → Script Op Reply β) : Script Op Reply β :=
  match script with
  | .done result => next result
  | .call op later => .call op fun reply => (later reply).bind next

theorem runs_bind {script : Script Op Reply α} {next : α → Script Op Reply β} {before after : σ}
    {result : β} :
    Runs acts (script.bind next) before result after ↔
      ∃ value middle, Runs acts script before value middle ∧
        Runs acts (next value) middle result after := by
  induction script generalizing before with
  | done value =>
      constructor
      · intro runs
        exact ⟨value, before, .done value before, runs⟩
      · rintro ⟨value', middle, first, runs⟩
        obtain ⟨rfl, rfl⟩ := runs_done.mp first
        exact runs
  | call op later ih =>
      constructor
      · intro runs
        obtain ⟨reply, middle, acted, runs⟩ := runs_call.mp runs
        obtain ⟨value, last, first, runs⟩ := (ih reply).mp runs
        exact ⟨value, last, .call acted first, runs⟩
      · rintro ⟨value, last, first, runs⟩
        obtain ⟨reply, middle, acted, first⟩ := runs_call.mp first
        exact .call acted ((ih reply).mpr ⟨value, last, first, runs⟩)

theorem All.bind {calls : Op → Prop} {ends : α → Prop} {ends' : β → Prop}
    {script : Script Op Reply α} {next : α → Script Op Reply β} (all : script.All calls ends)
    (next_all : ∀ result, ends result → (next result).All calls ends') :
    (script.bind next).All calls ends' := by
  induction script with
  | done result => exact next_all result all
  | call op later ih => exact ⟨all.1, fun reply => ih reply (all.2 reply)⟩

/-- Try once, and again while the result says so, at most this many times more. -/
def retry (again : α → Bool) (once : Script Op Reply α) : Nat → Script Op Reply α
  | 0 => once
  | more + 1 =>
      once.bind fun result => if again result then retry again once more else .done result

/-! ## What a script did -/

/-- One call that was made: the state it found, its reply and the state it left. -/
structure Made (Op : Type) (Reply : Op → Type) (σ : Type) where
  op : Op
  before : σ
  reply : Reply op
  after : σ

/-- Where some calls lead a script. -/
inductive Follows : Script Op Reply α → List (Made Op Reply σ) → Script Op Reply α → Prop
  | nil (script : Script Op Reply α) : Follows script [] script
  | cons {op : Op} {next : Reply op → Script Op Reply α} {before after : σ} {reply : Reply op}
      {calls : List (Made Op Reply σ)} {last : Script Op Reply α}
      (later : Follows (next reply) calls last) :
      Follows (.call op next) (⟨op, before, reply, after⟩ :: calls) last

theorem Follows.append {script middle last : Script Op Reply α} {calls more : List (Made Op Reply σ)}
    (first : Follows script calls middle) (second : Follows middle more last) :
    Follows script (calls ++ more) last := by
  induction first with
  | nil => exact second
  | cons _ ih => exact .cons (ih second)

@[simp]
theorem follows_done {result : α} {calls : List (Made Op Reply σ)} {last : Script Op Reply α} :
    Follows (.done result) calls last ↔ calls = [] ∧ last = .done result := by
  constructor
  · intro follows
    cases follows
    exact ⟨rfl, rfl⟩
  · rintro ⟨rfl, rfl⟩
    exact .nil _

/-- A script that was followed made no call yet, or its own first one. -/
theorem follows_call {op : Op} {next : Reply op → Script Op Reply α}
    {calls : List (Made Op Reply σ)} {last : Script Op Reply α} :
    Follows (.call op next) calls last ↔
      calls = [] ∧ last = .call op next ∨
        ∃ before reply after rest, calls = ⟨op, before, reply, after⟩ :: rest ∧
          Follows (next reply) rest last := by
  constructor
  · intro follows
    cases follows with
    | nil => exact Or.inl ⟨rfl, rfl⟩
    | cons later => exact Or.inr ⟨_, _, _, _, rfl, later⟩
  · rintro (⟨rfl, rfl⟩ | ⟨before, reply, after, rest, rfl, later⟩)
    · exact .nil _
    · exact .cons later

/-- Every call of a script is as stated whatever the replies, so those it made are. -/
theorem All.follows {calls : Op → Prop} {ends : α → Prop} {script last : Script Op Reply α}
    {made : List (Made Op Reply σ)} (all : script.All calls ends) (follows : Follows script made last) :
    (∀ call ∈ made, calls call.op) ∧ last.All calls ends := by
  induction follows with
  | nil => exact ⟨fun _ call_mem => absurd call_mem List.not_mem_nil, all⟩
  | cons _ ih =>
      obtain ⟨rest, last_all⟩ := ih (all.2 _)
      refine ⟨fun call call_mem => ?_, last_all⟩
      rcases List.mem_cons.mp call_mem with rfl | call_mem
      · exact all.1
      · exact rest call call_mem

/-- The calls of one kind of port, made through another. -/
def through {Op' : Type} {Reply' : Op' → Type} (wrap : Op → Op')
    (unwrap : (op : Op) → Reply' (wrap op) → Reply op) :
    Script Op Reply α → Script Op' Reply' α
  | .done result => .done result
  | .call op next => .call (wrap op) fun reply => (next (unwrap op reply)).through wrap unwrap

theorem all_through {Op' : Type} {Reply' : Op' → Type} {wrap : Op → Op'}
    {unwrap : (op : Op) → Reply' (wrap op) → Reply op} {calls : Op' → Prop}
    (wrapped : ∀ op, calls (wrap op)) (script : Script Op Reply α) :
    (script.through wrap unwrap).All calls fun _ => True := by
  induction script with
  | done result => exact trivial
  | call op next ih => exact ⟨wrapped op, fun reply => ih _⟩

/-! ## Relying and guaranteeing -/

/-- Whatever the others do within what is relied on, each call of the script keeps the invariant and
acts within what is guaranteed, and its result is as stated from then on. -/
def Safe (acts : Acts Op Reply σ) (holds : σ → Prop) (relies guarantees : σ → σ → Prop)
    (ends : σ → α → Prop) : Script Op Reply α → σ → Prop
  | .done result, state => ∀ later, relies state later → holds later → ends later result
  | .call op next, state =>
      ∀ before, relies state before → holds before → ∀ reply after, acts op before reply after →
        holds after ∧ guarantees before after ∧
          (next reply).Safe acts holds relies guarantees ends after

variable {holds : σ → Prop} {relies guarantees : σ → σ → Prop} {ends : σ → α → Prop}

/-- A script is safe after whatever it relies on. -/
theorem Safe.later (trans : ∀ first second third, relies first second → relies second third →
    relies first third) {script : Script Op Reply α} {state later : σ}
    (safe : script.Safe acts holds relies guarantees ends state) (relied : relies state later) :
    script.Safe acts holds relies guarantees ends later := by
  cases script with
  | done result => exact fun last last_relied => safe last (trans _ _ _ relied last_relied)
  | call op next => exact fun before before_relied => safe before (trans _ _ _ relied before_relied)

theorem Safe.imp {ends' : σ → α → Prop} {script : Script Op Reply α} {state : σ}
    (safe : script.Safe acts holds relies guarantees ends state)
    (implied : ∀ state result, holds state → ends state result → ends' state result) :
    script.Safe acts holds relies guarantees ends' state := by
  induction script generalizing state with
  | done result =>
      intro later relied later_holds
      exact implied later result later_holds (safe later relied later_holds)
  | call op next ih =>
      intro before relied before_holds reply after acted
      obtain ⟨after_holds, guaranteed, later_safe⟩ :=
        safe before relied before_holds reply after acted
      exact ⟨after_holds, guaranteed, ih reply later_safe⟩

/-- A script goes on safely from where another ended. -/
theorem Safe.bind {ends' : σ → β → Prop} {script : Script Op Reply α}
    {next : α → Script Op Reply β} {state : σ}
    (refl : ∀ state, relies state state)
    (safe : script.Safe acts holds relies guarantees
      (fun later result => (next result).Safe acts holds relies guarantees ends' later) state)
    (state_holds : holds state) :
    (script.bind next).Safe acts holds relies guarantees ends' state := by
  induction script generalizing state with
  | done result => exact safe state (refl state) state_holds
  | call op later ih =>
      intro before relied before_holds reply after acted
      obtain ⟨after_holds, guaranteed, later_safe⟩ :=
        safe before relied before_holds reply after acted
      exact ⟨after_holds, guaranteed, ih reply later_safe after_holds⟩

/-- Tries that each start where `ready` holds, and leave it so when they are to be made again. -/
theorem safe_retry {again : α → Bool} {once : Script Op Reply α} {ready : σ → Prop}
    (refl : ∀ state, relies state state)
    (stable : ∀ state later result, holds later → relies state later → ends state result →
      ends later result)
    (each : ∀ state, holds state → ready state → once.Safe acts holds relies guarantees
      (fun later result => ends later result ∧ (again result = true → ready later)) state)
    (more : Nat) {state : σ} (state_holds : holds state) (state_ready : ready state) :
    (retry again once more).Safe acts holds relies guarantees ends state := by
  induction more generalizing state with
  | zero => exact (each state state_holds state_ready).imp fun _ _ _ ended => ended.1
  | succ more ih =>
      refine Safe.bind refl ?_ state_holds
      refine (each state state_holds state_ready).imp fun later result later_holds ended => ?_
      split
      · next tried => exact ih later_holds (ended.2 tried)
      · intro last relied last_holds
        exact stable later last result last_holds relied ended.1

end Script

/-- Scripts at work on one state. -/
structure Pool (Op : Type) (Reply : Op → Type) (σ : Type) {ι : Type} (α : ι → Type) where
  state : σ
  scripts : (who : ι) → Script Op Reply (α who)

namespace Pool

variable {Op : Type} {Reply : Op → Type} {σ ι : Type} {α : ι → Type} [DecidableEq ι]

/-- One of the scripts makes its next call; any of them may be the one, and any may make no more. -/
inductive Step (acts : Script.Acts Op Reply σ) : Pool Op Reply σ α → Pool Op Reply σ α → Prop
  | call {pool : Pool Op Reply σ α} (who : ι) {op : Op}
      {next : Reply op → Script Op Reply (α who)} {reply : Reply op} {after : σ}
      (script_eq : pool.scripts who = .call op next) (acted : acts op pool.state reply after) :
      Step acts pool
        { state := after, scripts := Function.update pool.scripts who (next reply) }

/-- The pools that any order of calls leads to. -/
def Reaches (acts : Script.Acts Op Reply σ) : Pool Op Reply σ α → Pool Op Reply σ α → Prop :=
  Relation.ReflTransGen (Step acts)

/-- The calls that were made, in order, each with the script that made it, and where they led. -/
inductive Run (acts : Script.Acts Op Reply σ) (start : Pool Op Reply σ α) :
    List (ι × Script.Made Op Reply σ) → Pool Op Reply σ α → Prop
  | start : Run acts start [] start
  | call {made : List (ι × Script.Made Op Reply σ)} {pool : Pool Op Reply σ α} (who : ι) {op : Op}
      {next : Reply op → Script Op Reply (α who)} {reply : Reply op} {after : σ}
      (run : Run acts start made pool) (script_eq : pool.scripts who = .call op next)
      (acted : acts op pool.state reply after) :
      Run acts start (made ++ [(who, ⟨op, pool.state, reply, after⟩)])
        { state := after, scripts := Function.update pool.scripts who (next reply) }

/-- The calls of one script among those that were made. -/
def callsOf (who : ι) (made : List (ι × Script.Made Op Reply σ)) : List (Script.Made Op Reply σ) :=
  (made.filter fun call => call.1 = who).map Prod.snd

section Run

variable {acts : Script.Acts Op Reply σ} {start pool : Pool Op Reply σ α}
  {made : List (ι × Script.Made Op Reply σ)}

theorem callsOf_append (who : ι) (made : List (ι × Script.Made Op Reply σ))
    (call : ι × Script.Made Op Reply σ) :
    callsOf who (made ++ [call]) = callsOf who made ++ if call.1 = who then [call.2] else [] := by
  unfold callsOf
  rw [List.filter_append, List.map_append]
  congr 1
  by_cases same : call.1 = who
  · simp [same]
  · simp [same]

/-- Each script stands where its own calls led it. -/
theorem Run.follows (run : Run acts start made pool) (who : ι) :
    Script.Follows (start.scripts who) (callsOf who made) (pool.scripts who) := by
  induction run with
  | start => exact .nil _
  | @call made pool other op next reply after run script_eq acted ih =>
      rw [callsOf_append]
      by_cases same : other = who
      · subst same
        simp only [if_pos, Function.update_self]
        rw [script_eq] at ih
        exact ih.append (.cons (.nil _))
      · simp only [if_neg same, List.append_nil, Function.update_of_ne (Ne.symm same)]
        exact ih

/-- Every call that was made is one of those it may be. -/
theorem Run.acted (run : Run acts start made pool) :
    ∀ call ∈ made, acts call.2.op call.2.before call.2.reply call.2.after := by
  induction run with
  | start => exact fun _ call_mem => absurd call_mem List.not_mem_nil
  | call who run script_eq acted ih =>
      intro call call_mem
      rcases List.mem_append.mp call_mem with call_mem | call_mem
      · exact ih call call_mem
      · obtain rfl := List.mem_singleton.mp call_mem
        exact acted

/-- What every call keeps of a state holds between any call and those after it. -/
theorem Run.between (kept : σ → σ → Prop) (refl : ∀ state, kept state state)
    (trans : ∀ first second third, kept first second → kept second third → kept first third)
    (step : ∀ op before reply after, acts op before reply after → kept before after)
    (run : Run acts start made pool) :
    (∀ call ∈ made, kept call.2.after pool.state) ∧
      made.Pairwise fun earlier later => kept earlier.2.after later.2.before := by
  induction run with
  | start => exact ⟨fun _ call_mem => absurd call_mem List.not_mem_nil, .nil⟩
  | call who run script_eq acted ih =>
      have kept_step := step _ _ _ _ acted
      refine ⟨fun call call_mem => ?_, ?_⟩
      · rcases List.mem_append.mp call_mem with call_mem | call_mem
        · exact trans _ _ _ (ih.1 call call_mem) kept_step
        · obtain rfl := List.mem_singleton.mp call_mem
          exact refl _
      · refine List.pairwise_append.mpr ⟨ih.2, List.pairwise_singleton _ _, ?_⟩
        intro earlier earlier_mem later later_mem
        obtain rfl := List.mem_singleton.mp later_mem
        exact ih.1 earlier earlier_mem

end Run

variable {acts : Script.Acts Op Reply σ} {holds : σ → Prop}
  {relies guarantees : ι → σ → σ → Prop} {ends : (who : ι) → σ → α who → Prop}

/-- What each script relies on is kept while it waits, and is within what every other guarantees. -/
structure Discipline (relies guarantees : ι → σ → σ → Prop) : Prop where
  refl : ∀ who state, relies who state state
  trans : ∀ who first second third, relies who first second → relies who second third →
    relies who first third
  granted : ∀ {who other}, who ≠ other → ∀ {before after}, guarantees who before after →
    relies other before after

/-- The invariant holds and every script is safe from here on. -/
structure Safe (acts : Script.Acts Op Reply σ) (holds : σ → Prop)
    (relies guarantees : ι → σ → σ → Prop) (ends : (who : ι) → σ → α who → Prop)
    (pool : Pool Op Reply σ α) : Prop where
  kept : holds pool.state
  each : ∀ who, (pool.scripts who).Safe acts holds (relies who) (guarantees who) (ends who) pool.state

variable {pool later : Pool Op Reply σ α}

theorem Safe.step (discipline : Discipline relies guarantees)
    (safe : pool.Safe acts holds relies guarantees ends) (stepped : Step acts pool later) :
    later.Safe acts holds relies guarantees ends := by
  obtain ⟨who, script_eq, acted⟩ := stepped
  have who_safe := safe.each who
  rw [script_eq] at who_safe
  obtain ⟨after_kept, guaranteed, next_safe⟩ :=
    who_safe pool.state (discipline.refl who pool.state) safe.kept _ _ acted
  refine ⟨after_kept, fun other => ?_⟩
  by_cases same : other = who
  · subst same
    simpa using next_safe
  · have relied : relies other pool.state _ := discipline.granted (Ne.symm same) guaranteed
    simp only [Function.update_of_ne same]
    exact (safe.each other).later (discipline.trans other) relied

/-- Scripts that rely on no more than the others guarantee are safe in every order of their calls. -/
theorem Safe.reaches (discipline : Discipline relies guarantees)
    (safe : pool.Safe acts holds relies guarantees ends) (reaches : Reaches acts pool later) :
    later.Safe acts holds relies guarantees ends := by
  induction reaches with
  | refl => exact safe
  | tail _ stepped ih => exact ih.step discipline stepped

omit [DecidableEq ι] in
/-- The result of a script that came to its end is as stated. -/
theorem Safe.result (discipline : Discipline relies guarantees)
    (safe : pool.Safe acts holds relies guarantees ends) {who : ι} {result : α who}
    (ended : pool.scripts who = .done result) : ends who pool.state result := by
  have who_safe := safe.each who
  rw [ended] at who_safe
  exact who_safe pool.state (discipline.refl who pool.state) safe.kept

end Pool
