import Baley.Ledger.Lasting
import Baley.Mcp.Ordered

/-!
# What one delivery did

A delivery that saw a record of its request makes no further step and only runs its transaction; any
other runs it after every step was performed.
-/

namespace Baley.Mcp

open Json Script Seen

variable {S : Surroundings} {server : Server} {call : Call} {request : WriteRequest}

/-- No call yet that comes after the check, and none of a first lookup after the check itself. -/
structure Quiet (again : Bool) (earlier : List (MadeCall S)) : Prop where
  early : ∀ made ∈ earlier, ¬ made.op.Late
  unchecked : again = false → ∀ made ∈ earlier, ∀ answer, ¬ Checks answer made

theorem Recalls.quiet {front : List (MadeCall S)} {seen : Seen S}
    (recalls : Recalls server call request front seen) {again : Bool}
    (first : again = false → seen.replay = none)
    (second : again = true → ∃ answer, seen.Refused call answer) : Quiet again front where
  early := by
    intro made made_mem late
    obtain ⟨unrecorded, passed⟩ := recalls.late made made_mem late
    cases again with
    | false => exact nomatch unrecorded.symm.trans (first rfl)
    | true =>
        obtain ⟨answer, refused⟩ := second rfl
        exact nomatch (passed refused.checks).symm.trans refused.checked
  unchecked := by
    intro again_eq made made_mem answer checks
    exact nomatch (recalls.checks made made_mem answer checks).2.1.symm.trans (first again_eq)

/-- A lookup that found a record is the last call of a preparation so far. -/
theorem Leads.alone {front : List (MadeCall S)} {seen : Seen S} (write : call.write = some request)
    (led : Leads server call front seen) {earlier later : List (MadeCall S)} {look : MadeCall S}
    (split : front = earlier ++ look :: later) {again : Bool} {project : ProjectId} {key : DocKey}
    {document : Document} (looks : LooksUp again project key (.ok (some document)) look) :
    later = [] ∧ Quiet again earlier := by
  induction led generalizing later with
  | start => exact absurd split (by simp)
  | @step front first seen step observed led wanted performed ih =>
      have asks : Asks call request seen step := by
        have wants := wants_next write seen
        rwa [wanted] at wants
      have recalls := led.recalls write
      rcases split_append split with ⟨middle, rfl, -⟩ | ⟨middle, rfl, first_eq⟩
      · have look_mem : look ∈ earlier ++ look :: middle :=
          List.mem_append_right _ List.mem_cons_self
        exact absurd asks (recalls.settled look_mem looks (Or.inr ⟨document, rfl⟩)).not_asks
      · have look_mem : look ∈ first := by
          rw [first_eq]
          exact List.mem_append_right _ List.mem_cons_self
        obtain ⟨alone, -, -, first_look, second_look, -⟩ :=
          looked_of_performed asks performed look_mem looks
        rw [alone] at first_eq
        obtain ⟨rfl, -, rfl⟩ : middle = [] ∧ look = look ∧ later = [] := by
          cases middle with
          | nil => simpa using first_eq.symm
          | cons other middle => simp at first_eq
        rw [List.append_nil]
        exact ⟨rfl, recalls.quiet first_look second_look⟩

/-! ## Where a delivery stands -/

/-- A delivery that is ready is at work on its transaction. -/
structure Settling (server : Server) (write : ServedWrite S) (front rest : List (MadeCall S))
    (seen : Seen S) (prepared : Prepared S) (last : Serving S Served) : Prop where
  led : Leads server write.call front seen
  ready : next write.call seen = .ready prepared
  follows : Follows (write.settle server prepared) rest last

/-- The call of a write's own transaction. -/
def IsDomain (prepared : Prepared S) (made : MadeCall S) : Prop :=
  ∃ command decide before reply after, prepared.command = some command ∧
    made = ⟨.domain prepared.project command decide, before, reply, after⟩

/-- A replay runs its transaction at once. -/
theorem follows_settle_replay {write : ServedWrite S} {prepared : Prepared S}
    (replayed : prepared.stepped = none) {rest : List (MadeCall S)} {last : Serving S Served}
    (follows : Follows (write.settle server prepared) rest last) :
    rest = [] ∨ ∃ made, rest = [made] ∧ IsDomain prepared made := by
  unfold ServedWrite.settle at follows
  split at follows
  · exact Or.inl (follows_done.mp follows).1
  · next command command_eq =>
      have prepared_eq : prepared.command = some command := Option.eq_some_of_filter_eq_some command_eq
      rw [replayed] at follows
      rcases follows_call.mp follows with ⟨rfl, -⟩ | ⟨before, reply, after, more, rfl, ended⟩
      · exact Or.inl rfl
      · obtain ⟨rfl, -⟩ := follows_done.mp ended
        exact Or.inr ⟨_, rfl, command, _, before, reply, after, prepared_eq, rfl⟩

/-- A request that was recorded in a project stays recorded. -/
def RequestsLast (key : DocKey) (before after : Ledgers) : Prop :=
  ∀ project, ((before project).document requestView key).isSome = true →
    ((after project).document requestView key).isSome = true

end Baley.Mcp
