import Baley.Mcp.Delivered

/-!
# Retries of a served write

Any number of deliveries of one write request and any other commands, in every order of their calls.
-/

namespace Baley.Mcp

open Json Script Seen

variable {S : Surroundings} {request : WriteRequest} {port : Port}

/-- What one caller does: a delivery of the request, or the calls of another command. -/
inductive Task (S : Surroundings) (request : WriteRequest) where
  | delivery (server : Server) (write : ServedWrite S) (same : write.request = request)
  | other (script : Serving S Served)
      (others : script.All (fun op => ∃ project call, op = .other project call) fun _ => True)

def Task.script : Task S request → Serving S Served
  | .delivery server write _ => write.serve server
  | .other script _ => script

/-- A call whose decision was recorded in a project as the request. -/
def Commits (project : ProjectId) (request : WriteRequest) (made : MadeCall S) : Prop :=
  ∃ command decide before outcome head noted after, requestKey command = request.key ∧
    made = ⟨.domain project command decide, before, (.ok (.new outcome head), noted), after⟩

/-- A transaction that answered from the record of the request, or could not: its decision was not
asked and nothing was appended. -/
def AnswersRecorded (project : ProjectId) (request : WriteRequest) (made : MadeCall S) : Prop :=
  ∃ command decide before reply, made = ⟨.domain project command decide, before, (reply, none), before⟩ ∧
    ∀ recorded, reply = .ok recorded → ∃ document outcome replayed,
      (before project).document requestView request.key = some document ∧
        requestState document.body = some (.completed request.digest outcome) ∧
        Ledger.Replays outcome replayed ∧ recorded = .replayed replayed

/-- A transaction of a request that was recorded runs no decision. -/
theorem answersRecorded {project : ProjectId} {command : Command} {decide : Noting Noted Decision}
    {before after : Ledgers} {reply : Except StoreError Recorded × Option Noted}
    (key_eq : requestKey command = request.key) (digest_eq : command.digest = request.digest)
    (requested : ((before project).document requestView request.key).isSome = true)
    (performs : (ServedCall.domain project command decide : ServedCall S).Performs port before reply
      after) :
    AnswersRecorded project request
      (⟨.domain project command decide, before, reply, after⟩ : MadeCall S) := by
  obtain ⟨transacts, others⟩ := performs
  have not_fresh (fresh : (before project).request command = none) : False := by
    rw [Ledger.request, key_eq] at fresh
    rw [fresh] at requested
    cases requested
  have unchanged (same : after project = before project) : after = before := by
    funext other
    by_cases other_eq : other = project
    · rw [other_eq, same]
    · exact others other other_eq
  generalize after_eq : after project = now at transacts
  cases transacts with
  | refused error =>
      obtain rfl := unchanged after_eq
      exact ⟨command, decide, after, .error error, rfl, nofun⟩
  | failed error fresh decided => exact (not_fresh fresh).elim
  | @replayed document digest outcome replayed found state_eq same replays =>
      obtain rfl := unchanged after_eq
      refine ⟨command, decide, after, .ok (.replayed replayed), rfl, ?_⟩
      rintro _ ⟨⟩
      rw [Ledger.request, key_eq] at found
      rw [same, digest_eq] at state_eq
      exact ⟨document, outcome, replayed, found, state_eq, replays, rfl⟩
  | recorded head head_eq commits => exact (not_fresh commits.fresh).elim

section Delivery

variable {server : Server} {write : ServedWrite S} {calls front rest : List (MadeCall S)}
  {last : Serving S Served} {seen : Seen S} {prepared : Prepared S}

/-- Each call is one that may be made, and what it recorded lasts. -/
structure Acted (port : Port) (request : WriteRequest) (calls : List (MadeCall S)) : Prop where
  performs : ∀ made ∈ calls, made.op.Performs port made.before made.reply made.after
  lasts : calls.Pairwise fun earlier later => RequestsLast request.key earlier.after later.before

theorem lookUp_unchanged {made : MadeCall S} {again : Bool} {project : ProjectId} {key : DocKey}
    {found : Except StoreError (Option Document)} (looks : LooksUp again project key found made)
    (performs : made.op.Performs port made.before made.reply made.after) :
    made.after = made.before ∧
      ∀ document, found = .ok document → document = (made.before project).document requestView key := by
  obtain ⟨before, after, rfl⟩ := looks
  exact performs

theorem Quiet.unchanged {again : Bool} {earlier : List (MadeCall S)} (quiet : Quiet again earlier)
    (prepares : ∀ made ∈ earlier, made.op.Prepares)
    (performs : ∀ made ∈ earlier, made.op.Performs port made.before made.reply made.after) :
    ∀ made ∈ earlier, made.after = made.before := by
  intro made made_mem
  refine ServedCall.eq_of_performs (fun changes => ?_) (performs made made_mem)
  exact quiet.early made made_mem
    (ServedCall.late_of_changes (prepares made made_mem) changes)

/-- What was observed when a write is ready. -/
theorem Settling.readies (settling : Settling server write front rest seen prepared last) :
    Readies write.call write.request seen prepared := by
  have wants := wants_next write.write_eq seen
  rwa [settling.ready] at wants

/-- A write that is a replay saw a record of its request. -/
theorem Settling.exists_look (settling : Settling server write front rest seen prepared last)
    (replayed : prepared.stepped = none) : ∃ earlier look later again project key document,
      front = earlier ++ look :: later ∧ LooksUp again project key (.ok (some document)) look := by
  have recalls := settling.led.recalls write.write_eq
  have found : ∃ again : Bool, ∃ body,
      (if again then seen.relooked else seen.replay) = some (.ok (some body)) := by
    rcases (settling.readies.replayed replayed).1 with ⟨body, observed, -⟩ | ⟨body, observed, -⟩
    · exact ⟨false, body, observed⟩
    · exact ⟨true, body, observed⟩
  obtain ⟨again, body, observed⟩ := found
  obtain ⟨look, look_mem, again, project, key, document, looks⟩ := recalls.found again body observed
  obtain ⟨earlier, later, split⟩ := List.append_of_mem look_mem
  exact ⟨earlier, look, later, again, project, key, document, split, looks⟩

/-- A write that is ready and saw a record of its request is a replay. -/
theorem Settling.stepped_eq_none (settling : Settling server write front rest seen prepared last)
    {look : MadeCall S} (look_mem : look ∈ front) {again : Bool} {project : ProjectId} {key : DocKey}
    {document : Document} (looks : LooksUp again project key (.ok (some document)) look) :
    prepared.stepped = none := by
  have recalls := settling.led.recalls write.write_eq
  have settled := recalls.settled look_mem looks (Or.inr ⟨document, rfl⟩)
  refine Option.not_isSome_iff_eq_none.mp fun stepped => ?_
  obtain ⟨unrecorded, passed, -⟩ := settling.readies.stepped stepped
  rcases settled.lookedUp with ⟨body, recorded⟩ | ⟨⟨answer, refused⟩, -⟩
  · exact nomatch unrecorded.symm.trans recorded
  · exact nomatch (passed refused.checks).symm.trans refused.checked

/-- The transaction of a write that saw a record of its request answers from the record. -/
theorem Settling.answers (settling : Settling server write front rest seen prepared last)
    (acted : Acted port write.request (front ++ rest)) {look : MadeCall S} (look_mem : look ∈ front)
    {again : Bool} {project : ProjectId} {key : DocKey} {document : Document}
    (looks : LooksUp again project key (.ok (some document)) look) :
    rest = [] ∨ ∃ made, rest = [made] ∧ AnswersRecorded project write.request made := by
  have replayed := settling.stepped_eq_none look_mem looks
  obtain ⟨known, rfl, -⟩ :=
    (settling.led.recalls write.write_eq).looks look look_mem _ _ _ _ looks
  rcases follows_settle_replay replayed settling.follows with rest_eq | ⟨made, rfl, domain⟩
  · exact Or.inl rest_eq
  · refine Or.inr ⟨made, rfl, ?_⟩
    obtain ⟨command, decide, before, reply, after, same, rfl⟩ := domain
    have project_eq : prepared.project = project :=
      Option.some.inj (settling.readies.known.project_eq.symm.trans known.project_eq)
    obtain rfl := Option.some.inj (same.symm.trans (settling.readies.replayed replayed).2)
    obtain ⟨unchanged, found⟩ :=
      lookUp_unchanged looks (acted.performs look (List.mem_append_left _ look_mem))
    have lasts := (List.pairwise_append.mp acted.lasts).2.2 look look_mem _ List.mem_cons_self
    have requested : ((before prepared.project).document requestView write.request.key).isSome =
        true := by
      refine lasts prepared.project ?_
      rw [project_eq, unchanged, ← found _ rfl]
      rfl
    rw [← project_eq]
    exact answersRecorded rfl rfl requested
      (acted.performs _ (List.mem_append_right _ List.mem_cons_self))

theorem AnswersRecorded.unchanged {project : ProjectId} {made : MadeCall S}
    (answers : AnswersRecorded project request made) : made.after = made.before := by
  obtain ⟨command, decide, before, reply, rfl, -⟩ := answers
  rfl

/-- A write that is ready and appends ran every step of its preparation. -/
theorem Settling.stepped (settling : Settling server write front rest seen prepared last)
    (acted : Acted port write.request (front ++ rest)) {made : MadeCall S} (made_mem : made ∈ rest)
    (appends : ∀ project, ¬ AnswersRecorded project write.request made) :
    prepared.stepped.isSome = true := by
  refine Option.isSome_iff_ne_none.mpr fun replayed => ?_
  obtain ⟨earlier, look, later, again, project, key, document, rfl, looks⟩ :=
    settling.exists_look replayed
  rcases settling.answers acted (List.mem_append_right _ List.mem_cons_self) looks with
    rfl | ⟨only, rfl, answers⟩
  · exact absurd made_mem List.not_mem_nil
  · obtain rfl := List.mem_singleton.mp made_mem
    exact appends project answers

end Delivery

/-! ## Every order of the calls -/

variable {ι : Type} [DecidableEq ι] {ledgers : Ledgers}

end Baley.Mcp
