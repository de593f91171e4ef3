import Baley.Mcp.Recalled

/-!
# In which order a preparation calls

The invariant that every step of a preparation keeps, from the calls made to what was observed.
-/

namespace Baley.Mcp

open Json Script Seen

variable {S : Surroundings}

/-- A check that passed was run before. -/
def PassedBefore (call : Call) (earlier : List (MadeCall S)) : Prop :=
  call.checks = true → ∃ made ∈ earlier, Checks (.ok ()) made

/-- The policy step ran among the calls and returned this version. -/
def StepReturned (server : Server) (call : Call) (version : Nat) (calls : List (MadeCall S)) : Prop :=
  ∃ earlier inside rest project recorded, calls = earlier ++ (inside ++ rest) ∧
    Follows (policyStep server call project recorded) inside (.done (.ok version))

/-- What the calls of a preparation say about what it observed, and how they are ordered. -/
structure Recalls (server : Server) (call : Call) (request : WriteRequest)
    (front : List (MadeCall S)) (seen : Seen S) : Prop where
  prepares : ∀ made ∈ front, made.op.Prepares
  late : ∀ made ∈ front, made.op.Late → seen.Unrecorded ∧ seen.Passed call
  checks : ∀ made ∈ front, ∀ answer, Checks answer made →
    call.checks = true ∧ seen.Unrecorded ∧ seen.checked = some answer
  looks : ∀ made ∈ front, ∀ again project key found, LooksUp again project key found made →
    seen.Known project ∧ key = request.key ∧
      (again = true → ∃ answer, seen.Refused call answer) ∧
      (if again then seen.relooked else seen.replay) = some (looked found)
  found : ∀ (again : Bool) body,
    (if again then seen.relooked else seen.replay) = some (.ok (some body)) → ∃ made ∈ front,
      ∃ again project key document, LooksUp again project key (.ok (some document)) made
  passes : call.checks = true → ∀ answer, seen.checked = some answer →
    ∃ made ∈ front, Checks answer made
  relooks : seen.relooked = some (.ok none) → ∃ earlier made project key, front = earlier ++ [made] ∧
    LooksUp true project key (.ok none) made
  steps : ∀ version, seen.stepped = some (.ok version) → StepReturned server call version front
  ordered : ∀ earlier made rest, front = earlier ++ made :: rest → made.op.Late →
    PassedBefore call earlier

/-- A lookup found a record of the request, or one after a check that refused was made. -/
structure Settled (call : Call) (seen : Seen S) : Prop where
  known : ∃ project, seen.Known project
  lookedUp : (∃ body, seen.replay = some (.ok (some body))) ∨
    (∃ answer, seen.Refused call answer) ∧ seen.relooked.isSome = true

/-- After such a lookup no step is asked for. -/
theorem Settled.not_asks {call : Call} {request : WriteRequest} {seen : Seen S} {step : Step S}
    (settled : Settled call seen) : ¬ Asks call request seen step := by
  intro asks
  obtain ⟨⟨project, known⟩, lookedUp⟩ := settled
  have not_passed (unrecorded : seen.Unrecorded) (passed : seen.Passed call) : False := by
    rcases lookedUp with ⟨body, recorded⟩ | ⟨⟨answer, refused⟩, -⟩
    · exact nomatch unrecorded.symm.trans recorded
    · exact nomatch (passed refused.checks).symm.trans refused.checked
  cases step with
  | discover directory => exact absurd known.ancestors (by rw [show _ = _ from asks]; simp)
  | readProjectFile path => exact absurd known.working (by rw [asks.2]; simp)
  | listProjects => exact absurd known.projects (by rw [asks.2.2]; simp)
  | lookUpRequest project key =>
      rcases lookedUp with ⟨body, recorded⟩ | ⟨⟨answer, refused⟩, -⟩
      · exact nomatch asks.2.1.symm.trans recorded
      · exact nomatch asks.2.1.symm.trans refused.unrecorded
  | check project =>
      rcases lookedUp with ⟨body, recorded⟩ | ⟨⟨answer, refused⟩, -⟩
      · exact nomatch asks.2.1.symm.trans recorded
      · exact nomatch asks.2.2.2.symm.trans refused.checked
  | lookUpRequestAgain project key =>
      rcases lookedUp with ⟨body, recorded⟩ | ⟨-, relooked⟩
      · obtain ⟨answer, refused⟩ := asks.2.1
        exact nomatch refused.unrecorded.symm.trans recorded
      · rw [asks.2.2.1] at relooked
        cases relooked
  | readSettings root working => exact not_passed asks.2.1 asks.2.2.1
  | admitCheckout project root policy path => exact not_passed asks.2.1 asks.2.2.1
  | recordPolicy project recorded => exact not_passed asks.2.1 asks.2.2.1

section Recalls

variable {server : Server} {call : Call} {request : WriteRequest}

theorem recalls_nothing : Recalls server call request [] (Seen.nothing S) where
  prepares := fun _ made_mem => absurd made_mem List.not_mem_nil
  late := fun _ made_mem => absurd made_mem List.not_mem_nil
  checks := fun _ made_mem => absurd made_mem List.not_mem_nil
  looks := fun _ made_mem => absurd made_mem List.not_mem_nil
  found := fun again _ observed => by cases again <;> cases observed
  passes := nofun
  relooks := nofun
  steps := nofun
  ordered := fun _ _ _ split => absurd split (by simp)

variable {front first : List (MadeCall S)} {seen : Seen S} {step : Step S}

/-- What the calls of a step itself are preceded by. -/
theorem Recalls.passedBefore (recalls : Recalls server call request front seen)
    (asks : Asks call request seen step) {made : MadeCall S} (makes : step.Makes made.op)
    (late : made.op.Late) : PassedBefore call front := by
  intro checks
  have passed := (asks_of_late makes late asks).2 checks
  exact recalls.passes checks _ passed

/-- A call of some more calls is one of the first, or one of the others. -/
theorem split_append {α : Type} {front first earlier rest : List α} {item : α}
    (split : front ++ first = earlier ++ item :: rest) :
    (∃ middle, front = earlier ++ item :: middle ∧ rest = middle ++ first) ∨
      ∃ middle, earlier = front ++ middle ∧ first = middle ++ item :: rest := by
  rcases List.append_eq_append_iff.mp split with ⟨middle, earlier_eq, first_eq⟩ |
      ⟨middle, front_eq, rest_eq⟩
  · exact Or.inr ⟨middle, earlier_eq, first_eq⟩
  · cases middle with
    | nil =>
        rw [List.append_nil] at front_eq
        exact Or.inr ⟨[], by rw [front_eq, List.append_nil], by simpa using rest_eq.symm⟩
    | cons other middle =>
        rw [List.cons_append, List.cons.injEq] at rest_eq
        obtain ⟨rfl, rfl⟩ := rest_eq
        exact Or.inl ⟨middle, front_eq, rfl⟩

/-- A late call of a step that is under way comes after a check that passed, too. -/
theorem Recalls.ordered_inside (recalls : Recalls server call request front seen)
    (asks : Asks call request seen step) (makes : ∀ made ∈ first, step.Makes made.op) :
    ∀ earlier made rest, front ++ first = earlier ++ made :: rest → made.op.Late →
      PassedBefore call earlier := by
  intro earlier made rest split late
  rcases split_append split with ⟨middle, front_eq, -⟩ | ⟨middle, rfl, first_eq⟩
  · exact recalls.ordered earlier made middle front_eq late
  · intro checks
    have made_mem : made ∈ first := by rw [first_eq]; exact List.mem_append_right _ List.mem_cons_self
    obtain ⟨passed, passed_mem, passes⟩ :=
      recalls.passedBefore asks (makes made made_mem) late checks
    exact ⟨passed, List.mem_append_left _ passed_mem, passes⟩

/-- A lookup that found a record, and any second one, settles the call. -/
theorem Recalls.settled (recalls : Recalls server call request front seen) {made : MadeCall S}
    (made_mem : made ∈ front) {again : Bool} {project : ProjectId} {key : DocKey}
    {found : Except StoreError (Option Document)} (looks : LooksUp again project key found made)
    (record : again = true ∨ ∃ document, found = .ok (some document)) : Settled call seen := by
  obtain ⟨known, -, refused, observed⟩ := recalls.looks made made_mem _ _ _ _ looks
  refine ⟨⟨project, known⟩, ?_⟩
  cases again with
  | true => exact Or.inr ⟨refused rfl, by rw [show seen.relooked = _ from observed]; rfl⟩
  | false =>
      obtain ⟨document, rfl⟩ := record.resolve_left nofun
      exact Or.inl ⟨document.body, observed⟩

theorem relooks_of_performed (recalls : Recalls server call request front seen)
    {observed : step.Observed} (asks : Asks call request seen step)
    (performed : Follows (perform server call step) first (.done observed))
    (relooked : (seen.note step observed).relooked = some (.ok none)) :
    ∃ earlier made project key, front ++ first = earlier ++ [made] ∧
      LooksUp true project key (.ok none) made := by
  have before (unchanged : seen.relooked = some (.ok none)) : False := by
    obtain ⟨earlier, made, project, key, front_eq, looks⟩ := recalls.relooks unchanged
    have made_mem : made ∈ front := by rw [front_eq]; exact List.mem_append_right _ List.mem_cons_self
    exact (recalls.settled made_mem looks (Or.inl rfl)).not_asks asks
  cases step with
  | lookUpRequestAgain project key =>
      have observed_eq : observed = .ok none := Option.some.inj relooked
      rcases follows_lookUp performed with ⟨-, not_ok⟩ | ⟨made, reply, rfl, looks, same⟩
      · exact absurd (congrArg Script.done observed_eq) (not_ok none)
      · refine ⟨front, made, project, key, rfl, ?_⟩
        have reply_eq : looked reply = .ok none := (Script.done.inj same).symm.trans observed_eq
        obtain rfl : reply = .ok none := by
          match reply with
          | .error error => cases reply_eq
          | .ok none => rfl
          | .ok (some document) => cases reply_eq
        exact looks
  | discover | readProjectFile | listProjects | lookUpRequest | check | readSettings
    | admitCheckout | recordPolicy => exact (before relooked).elim

theorem looked_eq_some {reply : Except StoreError (Option Document)} {body : Value}
    (looked_eq : looked reply = .ok (some body)) : ∃ document, reply = .ok (some document) := by
  match reply with
  | .error error => cases looked_eq
  | .ok none => cases looked_eq
  | .ok (some document) => exact ⟨document, rfl⟩

theorem found_of_performed (recalls : Recalls server call request front seen)
    {observed : step.Observed}
    (performed : Follows (perform server call step) first (.done observed)) {again : Bool}
    {body : Value} (observed_eq : (if again then (seen.note step observed).relooked
      else (seen.note step observed).replay) = some (.ok (some body))) :
    ∃ made ∈ front ++ first, ∃ again project key document,
      LooksUp again project key (.ok (some document)) made := by
  have before (unchanged : (if again then seen.relooked else seen.replay) =
      some (.ok (some body))) : ∃ made ∈ front ++ first, ∃ again project key document,
        LooksUp again project key (.ok (some document)) made := by
    obtain ⟨made, made_mem, looks⟩ := recalls.found again body unchanged
    exact ⟨made, List.mem_append_left _ made_mem, looks⟩
  have now {second : Bool} {project : ProjectId} {key : DocKey} {body : Value}
      (follows : Follows (lookUp (S := S) server second project key) first
        (.done (.ok (some body)))) : ∃ made ∈ front ++ first, ∃ again project key document,
          LooksUp again project key (.ok (some document)) made := by
    rcases follows_lookUp follows with ⟨-, not_ok⟩ | ⟨made, reply, rfl, looks, same⟩
    · exact absurd rfl (not_ok _)
    · obtain ⟨document, rfl⟩ := looked_eq_some (Script.done.inj same).symm
      exact ⟨made, List.mem_append_right _ List.mem_cons_self, second, project, key, document, looks⟩
  cases step with
  | lookUpRequest project key =>
      cases again with
      | true => exact before observed_eq
      | false =>
          obtain rfl : observed = .ok (some body) := Option.some.inj observed_eq
          exact now performed
  | lookUpRequestAgain project key =>
      cases again with
      | true =>
          obtain rfl : observed = .ok (some body) := Option.some.inj observed_eq
          exact now performed
      | false => exact before observed_eq
  | discover | readProjectFile | listProjects | check | readSettings | admitCheckout
    | recordPolicy => exact before observed_eq

theorem passes_of_performed (recalls : Recalls server call request front seen)
    {observed : step.Observed}
    (performed : Follows (perform server call step) first (.done observed))
    (checks : call.checks = true) {answer : Except Value Unit}
    (checked : (seen.note step observed).checked = some answer) :
    ∃ made ∈ front ++ first, Checks answer made := by
  have before (unchanged : seen.checked = some answer) : ∃ made ∈ front ++ first,
      Checks answer made := by
    obtain ⟨made, made_mem, made_checks⟩ := recalls.passes checks answer unchanged
    exact ⟨made, List.mem_append_left _ made_mem, made_checks⟩
  cases step with
  | check project =>
      obtain rfl : observed = answer := Option.some.inj checked
      rcases follows_check checks performed with ⟨-, not_done⟩ | ⟨made, answer, rfl, made_checks, same⟩
      · exact absurd rfl (not_done _)
      · obtain rfl := Script.done.inj same
        exact ⟨made, List.mem_append_right _ List.mem_cons_self, made_checks⟩
  | discover | readProjectFile | listProjects | lookUpRequest | lookUpRequestAgain | readSettings
    | admitCheckout | recordPolicy => exact before checked

theorem StepReturned.append {version : Nat} (returned : StepReturned server call version front)
    (more : List (MadeCall S)) : StepReturned server call version (front ++ more) := by
  obtain ⟨earlier, inside, rest, project, recorded, rfl, follows⟩ := returned
  exact ⟨earlier, inside, rest ++ more, project, recorded, by simp, follows⟩

theorem steps_of_performed (recalls : Recalls server call request front seen)
    {observed : step.Observed}
    (performed : Follows (perform server call step) first (.done observed)) {version : Nat}
    (stepped : (seen.note step observed).stepped = some (.ok version)) :
    StepReturned server call version (front ++ first) := by
  cases step with
  | recordPolicy project recorded =>
      obtain rfl : observed = .ok version := Option.some.inj stepped
      simp only [perform] at performed
      split_ifs at performed
      · exact ⟨front, first, [], project, recorded, by simp, performed⟩
      · cases (follows_done.mp performed).2
  | discover | readProjectFile | listProjects | lookUpRequest | check | lookUpRequestAgain
    | readSettings | admitCheckout => exact (recalls.steps version stepped).append first

/-- Each step keeps what the calls say. -/
theorem Recalls.performed (recalls : Recalls server call request front seen) {observed : step.Observed}
    (asks : Asks call request seen step)
    (performed : Follows (perform server call step) first (.done observed)) :
    Recalls server call request (front ++ first) (seen.note step observed) where
  prepares := by
    intro made made_mem
    rcases List.mem_append.mp made_mem with earlier_mem | first_mem
    · exact recalls.prepares made earlier_mem
    · exact prepares_of_makes ((all_perform step).follows performed |>.1 made first_mem)
  late := by
    have grows := grows_note asks.lacks observed
    intro made made_mem late
    have before : seen.Unrecorded ∧ seen.Passed call := by
      rcases List.mem_append.mp made_mem with earlier_mem | first_mem
      · exact recalls.late made earlier_mem late
      · exact asks_of_late ((all_perform step).follows performed |>.1 made first_mem) late asks
    exact ⟨before.1.grows grows, before.2.grows grows⟩
  checks := by
    have grows := grows_note asks.lacks observed
    intro made made_mem answer checks
    rcases List.mem_append.mp made_mem with earlier_mem | first_mem
    · obtain ⟨has_check, unrecorded, checked⟩ := recalls.checks made earlier_mem answer checks
      exact ⟨has_check, unrecorded.grows grows, grows.checked _ checked⟩
    · obtain ⟨has_check, unrecorded, checked⟩ :=
        checked_of_performed asks performed first_mem checks
      exact ⟨has_check, unrecorded.grows grows, checked⟩
  looks := by
    have grows := grows_note asks.lacks observed
    have refused_grows {answer : Value} (refused : seen.Refused call answer) :
        (seen.note step observed).Refused call answer :=
      ⟨refused.checks, refused.unrecorded.grows grows, grows.checked _ refused.checked⟩
    intro made made_mem again project key found looks
    rcases List.mem_append.mp made_mem with earlier_mem | first_mem
    · obtain ⟨known, key_eq, refused, observed_eq⟩ := recalls.looks made earlier_mem _ _ _ _ looks
      refine ⟨known.grows grows, key_eq, fun second => ?_, ?_⟩
      · obtain ⟨answer, refused⟩ := refused second
        exact ⟨answer, refused_grows refused⟩
      · cases again with
        | true => exact grows.relooked _ observed_eq
        | false => exact grows.replay _ observed_eq
    · obtain ⟨-, known, key_eq, -, refused, observed', same, observed_eq⟩ :=
        looked_of_performed asks performed first_mem looks
      obtain rfl := Script.done.inj same
      refine ⟨known.grows grows, key_eq, fun second => ?_, observed_eq⟩
      obtain ⟨answer, refused⟩ := refused second
      exact ⟨answer, refused_grows refused⟩
  found := fun _ _ observed_eq => found_of_performed recalls performed observed_eq
  passes := fun checks _ checked => passes_of_performed recalls performed checks checked
  relooks := relooks_of_performed recalls asks performed
  steps := fun _ stepped => steps_of_performed recalls performed stepped
  ordered := recalls.ordered_inside asks fun made made_mem =>
    (all_perform step).follows performed |>.1 made made_mem

/-- What led a preparation to where it stands says what it observed. -/
theorem Leads.recalls (write : call.write = some request) (led : Leads server call front seen) :
    Recalls server call request front seen := by
  induction led with
  | start => exact recalls_nothing
  | @step front first seen step observed led wanted performed ih =>
      have wants := wants_next write seen
      rw [wanted] at wants
      exact ih.performed wants performed

end Recalls

end Baley.Mcp
