/-!
# Scripts

A script is a computation that can only act through calls, and goes on from each reply.  Run against
a handler of the calls, it does to the handler's state what its calls do and nothing else.
-/

/-- A computation over calls `Op`, each with its own type of reply. -/
inductive Script (Op : Type) (Reply : Op → Type) (α : Type) where
  | done (result : α)
  | call (op : Op) (next : Reply op → Script Op Reply α)

namespace Script

variable {Op : Type} {Reply : Op → Type} {α σ : Type}

/-- Run a script, threading the state of a handler through its calls. -/
def run (handle : (op : Op) → σ → Reply op × σ) : Script Op Reply α → σ → α × σ
  | .done result, state => (result, state)
  | .call op next, state =>
      let (reply, state) := handle op state
      (next reply).run handle state

variable (handle : (op : Op) → σ → Reply op × σ)

@[simp]
theorem run_done (result : α) (state : σ) :
    (Script.done result : Script Op Reply α).run handle state = (result, state) := rfl

@[simp]
theorem run_call (op : Op) (next : Reply op → Script Op Reply α) (state : σ) :
    (Script.call op next).run handle state =
      (next (handle op state).1).run handle (handle op state).2 := rfl

/-- Whatever the replies, every call the script makes and its result are as stated. -/
def All (calls : Op → Prop) (ends : α → Prop) : Script Op Reply α → Prop
  | .done result => ends result
  | .call op next => calls op ∧ ∀ reply, (next reply).All calls ends

variable {calls : Op → Prop} {ends : α → Prop}

theorem all_of_forall (calls_hold : ∀ op, calls op) (ends_hold : ∀ result, ends result)
    (script : Script Op Reply α) : script.All calls ends := by
  induction script with
  | done result => exact ends_hold result
  | call op next ih => exact ⟨calls_hold op, ih⟩

/-- What every call of the script preserves, its run preserves. -/
theorem All.run {motive : σ → Prop} {script : Script Op Reply α} (all : script.All calls ends)
    (step : ∀ op state, calls op → motive state → motive (handle op state).2) {state : σ}
    (holds : motive state) :
    motive (script.run handle state).2 ∧ ends (script.run handle state).1 := by
  induction script generalizing state with
  | done result => exact ⟨holds, all⟩
  | call op next ih => exact ih _ (all.2 _) (step op state all.1 holds)

/-- Some call of the run got a reply as stated. -/
def Meets (stated : (op : Op) → Reply op → Prop) : Script Op Reply α → σ → Prop
  | .done _, _ => False
  | .call op next, state =>
      stated op (handle op state).1 ∨ (next (handle op state).1).Meets stated (handle op state).2

/-- What a reply as stated brings about and every call preserves holds after a run that met one. -/
theorem Meets.run {stated : (op : Op) → Reply op → Prop} {motive : σ → Prop}
    (brings : ∀ op state, stated op (handle op state).1 → motive (handle op state).2)
    (step : ∀ op state, motive state → motive (handle op state).2) {script : Script Op Reply α}
    {state : σ} (meets : script.Meets handle stated state) : motive (script.run handle state).2 := by
  induction script generalizing state with
  | done result => exact meets.elim
  | call op next ih =>
      rcases meets with met | later
      · exact ((all_of_forall (fun _ => trivial) (fun _ => trivial) _ :
          (next (handle op state).1).All (fun _ => True) fun _ => True).run handle
            (fun op state _ => step op state) (brings op state met)).1
      · exact ih _ later

end Script
