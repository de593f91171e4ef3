import Baley.Guard.Record

/-!
# Torn settings never open the door

Over any history of guard records, what torn settings read under a key is what the last complete
policy recorded under it denied, and it denies what that policy denied.
-/

namespace Baley

open Json

instance : DecidableEq GuardKey := fun first second =>
  decidable_of_iff (first.docKey = second.docKey) GuardKey.docKey_injective.eq_iff

/-- The complete policy a record was judged under and the key its denials are remembered under. -/
def Judged.policy (host : HostName) : Judged → Option (GuardKey × GuardSettings)
  | .complete _ settings key => some (⟨key.project, key.checkout, host⟩, settings)
  | _ => none

/-- The views after a history of recorded answers, with the complete policies they were judged
under. -/
inductive GuardRun : List (GuardKey × GuardSettings) → GuardViews → Prop
  | start : GuardRun [] .empty
  | recorded {policies : List (GuardKey × GuardSettings)} {views after : GuardViews}
      {host : HostName} {caller : HookCaller} {selected : Selected} {judged : Judged}
      {answer : GuardAnswer} {events : List NewEvent} {envelope : NewEvent → Event}
      (run : GuardRun policies views)
      (settled : views.settle host caller selected judged = .ok (.staged answer events))
      (committed : views.commit (events.map fun new => new.sealedIn (envelope new)) = .ok after) :
      GuardRun (policies ++ (judged.policy host).toList) after

/-- The last complete policy recorded under a key. -/
def lastPolicy (policies : List (GuardKey × GuardSettings)) (key : GuardKey) :
    Option GuardSettings :=
  ((policies.filter fun policy => policy.1 = key).getLast?).map Prod.snd

/-- The denials the last complete policy recorded under a key left behind. -/
def lastDenials (policies : List (GuardKey × GuardSettings)) (key : GuardKey) : DenialParts :=
  ((lastPolicy policies key).map denialParts).getD .none

theorem lastPolicy_append (policies : List (GuardKey × GuardSettings)) (key key' : GuardKey)
    (settings : GuardSettings) :
    lastPolicy (policies ++ [(key', settings)]) key =
      if key' = key then some settings else lastPolicy policies key := by
  unfold lastPolicy
  rw [List.filter_append]
  split_ifs with same
  · rw [List.filter_cons_of_pos (by simpa using same), List.filter_nil, List.getLast?_append_cons]
    rfl
  · rw [List.filter_cons_of_neg (by simpa using same), List.filter_nil, List.append_nil]

/-- The denials read under a key: none without a document. -/
def GuardViews.denials (views : GuardViews) (key : GuardKey) : Option DenialParts :=
  match views.policies.lookup key.docKey with
  | none => some .none
  | some document => storedParts document

theorem denialsChanged_iff (views : GuardViews) (key : GuardKey) (parts : DenialParts) :
    denialsChanged (views.policies.lookup key.docKey) parts = true ↔
      views.denials key ≠ some parts := by
  unfold denialsChanged GuardViews.denials
  cases views.policies.lookup key.docKey <;> simp

/-! ## One record -/

/-- Folding recorded denials puts them under their key. -/
theorem project_policyRecorded (policies : Table DocKey Value) (key : GuardKey) (parts : DenialParts)
    (envelope : Event) :
    ∃ body, guardPolicyProjector.project policies ((policyRecorded key parts).sealedIn envelope) =
        .ok (policies.insert key.docKey body) ∧ storedParts body = some parts := by
  let event := (policyRecorded key parts).sealedIn envelope
  have project_eq : GuardPolicyProjector.text event "project_root" = some key.project.text := by
    simp [GuardPolicyProjector.text, textOf, event, policyRecorded, NewEvent.sealedIn,
      policyRecordedPayload, Members.lookup_ofEntries, key.project.text_ne]
  have host_eq : GuardPolicyProjector.text event "host" = some key.host.text.val := by
    simp [GuardPolicyProjector.text, textOf, event, policyRecorded, NewEvent.sealedIn,
      policyRecordedPayload, Members.lookup_ofEntries, key.host.text.val_ne]
  have checkout_eq : GuardPolicyProjector.checkout event =
      some (key.checkout.map Root.text) := by
    cases checkout : key.checkout with
    | none =>
        simp [GuardPolicyProjector.checkout, event, policyRecorded, NewEvent.sealedIn, checkout,
          policyRecordedPayload, Members.lookup_ofEntries, textOrNull]
    | some root =>
        simp [GuardPolicyProjector.checkout, event, policyRecorded, NewEvent.sealedIn, checkout,
          policyRecordedPayload, Members.lookup_ofEntries, textOrNull, root.text_ne]
  have parts_eq : storedParts event.payload = some parts :=
    storedParts_payload key.project.text (key.checkout.map Root.text) key.host.text.val parts
  refine ⟨GuardPolicyProjector.document key.project.text (key.checkout.map Root.text)
    key.host.text.val parts event.seq, ?_, GuardPolicyProjector.storedParts_document _ _ _ _ _⟩
  rw [Projector.project, if_pos (by rfl)]
  change (GuardPolicyProjector.apply event [] >>= fun changes =>
    .ok (changes.foldl Projector.change policies)) = _
  simp only [GuardPolicyProjector.apply, project_eq, host_eq, checkout_eq, parts_eq,
    Except.ofOption]
  rfl

namespace GuardViews

variable {views after : GuardViews} {host : HostName} {caller : HookCaller} {selected : Selected}
  {judged : Judged} {answer : GuardAnswer} {events : List NewEvent}

/-- A new answer is recorded after what the decision records. -/
theorem settle_eq_staged
    (settled : views.settle host caller selected judged = .ok (.staged answer events)) :
    answer = (views.decide host judged).answer ∧
      ∃ payload, events = (views.decide host judged).recorded.toList ++ [answered payload] := by
  simp only [settle] at settled
  split at settled
  · cases settled
  · cases settled
  · simp only [Except.bind_eq_ok, Except.ofOption_eq_ok, Except.ok.injEq, GuardSettled.staged.injEq]
      at settled
    obtain ⟨payload, -, rfl, rfl⟩ := settled
    exact ⟨rfl, payload, rfl⟩

/-- What a recorded answer does to the remembered policies. -/
theorem commit_policies
    (settled : views.settle host caller selected judged = .ok (.staged answer events))
    {envelope : NewEvent → Event}
    (committed : views.commit (events.map fun new => new.sealedIn (envelope new)) = .ok after) :
    guardPolicyProjector.projectAll views.policies
      ((views.decide host judged).recorded.toList.map fun new => new.sealedIn (envelope new)) =
        .ok after.policies := by
  obtain ⟨-, payload, rfl⟩ := settle_eq_staged settled
  simp only [commit, Except.bind_eq_ok, Except.ok.injEq] at committed
  obtain ⟨_, -, policies, policies_eq, rfl⟩ := committed
  have unhandled (documents : Table DocKey Value) : guardPolicyProjector.project documents
      ((answered payload).sealedIn (envelope (answered payload))) = .ok documents := by
    rw [Projector.project, if_neg]
    exact (by decide : ¬ guardPolicyProjector.handles.contains guardAnswered = true)
  rw [List.map_append, Projector.projectAll, List.foldlM_append] at policies_eq
  obtain ⟨middle, middle_eq, policies_eq⟩ := Except.bind_eq_ok.mp policies_eq
  rw [List.map_singleton, List.foldlM_cons, unhandled] at policies_eq
  obtain rfl := Except.ok.inj policies_eq
  exact middle_eq

/-- What torn settings read under each key after a recorded answer: its own denials under the key of
a complete policy, and what was read before under every other key. -/
theorem denials_commit
    (settled : views.settle host caller selected judged = .ok (.staged answer events))
    {envelope : NewEvent → Event}
    (committed : views.commit (events.map fun new => new.sealedIn (envelope new)) = .ok after)
    (key : GuardKey) :
    after.denials key =
      match judged.policy host with
      | some (key', settings) => if key' = key then some (denialParts settings) else views.denials key
      | none => views.denials key := by
  have policies_eq := commit_policies settled committed
  have kept_of_eq (unchanged : views.policies = after.policies) :
      after.denials key = views.denials key := by
    rw [denials, denials, unchanged]
  cases judged with
  | absent answer => exact kept_of_eq (Except.ok.inj policies_eq)
  | torn unavailable excerpt verb branch key' => exact kept_of_eq (Except.ok.inj policies_eq)
  | complete answer settings key' =>
      simp only [Judged.policy]
      by_cases changed : denialsChanged (views.policies.lookup
          (GuardKey.docKey ⟨key'.project, key'.checkout, host⟩)) (denialParts settings) = true
      · obtain ⟨body, projected, body_parts⟩ := project_policyRecorded views.policies
          ⟨key'.project, key'.checkout, host⟩ (denialParts settings)
          (envelope (policyRecorded ⟨key'.project, key'.checkout, host⟩ (denialParts settings)))
        simp only [decide, if_pos changed, Option.toList_some, List.map_cons, List.map_nil,
          Projector.projectAll_cons, projected] at policies_eq
        have after_eq : views.policies.insert _ body = after.policies := Except.ok.inj policies_eq
        rw [denials, ← after_eq, Table.lookup_put]
        by_cases same : (⟨key'.project, key'.checkout, host⟩ : GuardKey) = key
        · rw [if_pos same, if_pos (congrArg GuardKey.docKey same.symm)]
          exact body_parts
        · rw [if_neg same, if_neg fun keys => same (GuardKey.docKey_injective keys).symm]
          rfl
      · simp only [decide, if_neg changed, Option.toList_none, List.map_nil] at policies_eq
        rw [denialsChanged_iff, not_not] at changed
        rw [kept_of_eq (Except.ok.inj policies_eq)]
        split_ifs with same
        · rw [← same]
          exact changed
        · rfl

end GuardViews

/-! ## Histories -/

/-- After any history, the denials read under a key are those of the last complete policy recorded
under it. -/
theorem GuardRun.denials {policies : List (GuardKey × GuardSettings)} {views : GuardViews}
    (run : GuardRun policies views) (key : GuardKey) :
    views.denials key = some (lastDenials policies key) := by
  induction run with
  | start => rfl
  | @recorded policies views after host caller selected judged answer events envelope _ settled
      committed ih =>
      rw [GuardViews.denials_commit settled committed key]
      cases policy : judged.policy host with
      | none => rw [Option.toList_none, List.append_nil]; exact ih
      | some recorded =>
          obtain ⟨key', settings⟩ := recorded
          rw [Option.toList_some, lastDenials, lastPolicy_append]
          simp only
          split_ifs with same
          · rfl
          · exact ih

theorem lastDenials_kept (policies : List (GuardKey × GuardSettings)) (key : GuardKey) :
    (lastDenials policies key).Kept := by
  rw [lastDenials]
  cases lastPolicy policies key with
  | none => exact fun _ _ => rfl
  | some settings => exact denialParts_kept settings

/-- What torn settings are handed is the denials read under the key. -/
theorem GuardViews.remembered_parts {views : GuardViews} {key : GuardKey} {parts : DenialParts}
    (denials_eq : views.denials key = some parts) (kept : parts.Kept) :
    ((views.remembered key).map denialParts).getD .none = parts := by
  rw [denials] at denials_eq
  rw [remembered]
  cases found : views.policies.lookup key.docKey with
  | none =>
      rw [found] at denials_eq
      exact Option.some.inj denials_eq
  | some document =>
      rw [found] at denials_eq
      obtain ⟨settings, settings_eq, parts_eq⟩ := denialParts_rememberedSettings kept denials_eq
      rw [Option.bind_some, settings_eq]
      exact parts_eq

/-- A remembered policy that denies the same denies the same commits under torn settings. -/
theorem commit_torn_denies {settings : GuardSettings} {last remembered : Option GuardSettings}
    {branch : BranchObservation} (torn : Unavailable)
    (same : (remembered.map denialParts).getD .none = denialParts settings)
    (denied : (commitPushAnswer .commit true (.complete settings) last branch).Denies) :
    (commitPushAnswer .commit true (.torn torn) remembered branch).Denies := by
  have commit_denied : (completeCommit settings branch).Denies := denied
  change (tornCommit torn.words remembered branch).Denies
  cases remembered with
  | some kept => exact tornCommit_denies_of_parts same commit_denied
  | none =>
      have refuse_eq : decide (settings.onProtected = .refuse) = false :=
        (congrArg DenialParts.refuse same).symm
      have hard_eq : settings.hardFail = false := (congrArg DenialParts.hardFail same).symm
      rcases completeCommit_denies.mp commit_denied with
        ⟨_, _, refused, _⟩ | ⟨_, _, _, hard, _⟩
      · rw [refused] at refuse_eq
        cases refuse_eq
      · rw [hard] at hard_eq
        cases hard_eq

/-- Denials are recorded beside an answer exactly when a complete policy changed them. -/
theorem GuardRun.recorded_iff {policies : List (GuardKey × GuardSettings)} {views : GuardViews}
    (run : GuardRun policies views) {host : HostName} {caller : HookCaller} {selected : Selected}
    {judged : Judged} {answer : GuardAnswer} {events : List NewEvent}
    (settled : views.settle host caller selected judged = .ok (.staged answer events)) :
    (∃ new ∈ events, new.typeName = guardPolicyRecorded) ↔
      ∃ key settings, judged.policy host = some (key, settings) ∧
        denialParts settings ≠ lastDenials policies key := by
  obtain ⟨-, payload, rfl⟩ := GuardViews.settle_eq_staged settled
  have answered_type : (answered payload).typeName ≠ guardPolicyRecorded :=
    (by decide : guardAnswered ≠ guardPolicyRecorded)
  cases judged with
  | absent => simp [GuardViews.decide, Judged.policy, answered_type]
  | torn => simp [GuardViews.decide, Judged.policy, answered_type]
  | complete answer settings key =>
      have changed_iff := denialsChanged_iff views ⟨key.project, key.checkout, host⟩
        (denialParts settings)
      rw [run.denials, Ne, Option.some.injEq, ← Ne, ne_comm] at changed_iff
      simp only [GuardViews.decide, Judged.policy, Option.some.injEq, Prod.mk.injEq]
      constructor
      · rintro ⟨new, new_mem, named⟩
        refine ⟨_, _, ⟨rfl, rfl⟩, changed_iff.mp ?_⟩
        by_contra unchanged
        rw [if_neg unchanged, Option.toList_none, List.nil_append, List.mem_singleton] at new_mem
        exact answered_type (new_mem ▸ named)
      · rintro ⟨_, _, ⟨rfl, rfl⟩, changed⟩
        rw [if_pos (changed_iff.mpr changed)]
        exact ⟨_, List.mem_cons_self, rfl⟩

/-- Torn settings never open the door: after any history they read under a key exactly the denials of
the last complete policy recorded under it, which is recorded when it changes them; they deny every
commit it denied; and whatever is remembered, no commit passes. -/
theorem torn_never_opens {policies : List (GuardKey × GuardSettings)} {views : GuardViews}
    (run : GuardRun policies views) (key : GuardKey) :
    ((views.remembered key).map denialParts).getD .none = lastDenials policies key ∧
      (∀ other : GuardKey, other.docKey = key.docKey → other = key) ∧
      (∀ host caller selected judged answer events,
        views.settle host caller selected judged = .ok (.staged answer events) →
        ((∃ new ∈ events, new.typeName = guardPolicyRecorded) ↔
          ∃ key settings, judged.policy host = some (key, settings) ∧
            denialParts settings ≠ lastDenials policies key)) ∧
      (∀ torn excerpt branch settings last,
        lastPolicy policies key = some settings →
        (commitPushAnswer .commit true (.complete settings) last branch).Denies →
        (views.decide key.host
          (.torn torn excerpt .commit branch ⟨key.project, key.checkout⟩)).answer.Denies) ∧
      (∀ torn remembered branch settings last,
        (remembered.map denialParts).getD .none = denialParts settings →
        (commitPushAnswer .commit true (.complete settings) last branch).Denies →
        (commitPushAnswer .commit true (.torn torn) remembered branch).Denies) ∧
      ∀ torn remembered branch,
        (commitPushAnswer .commit true (.torn torn) remembered branch).Holds := by
  have denials_eq := run.denials key
  have remembered_eq := GuardViews.remembered_parts denials_eq (lastDenials_kept policies key)
  refine ⟨remembered_eq, fun other keys => GuardKey.docKey_injective keys, ?_, ?_, ?_, ?_⟩
  · exact fun host caller selected judged answer events settled => run.recorded_iff settled
  · intro torn excerpt branch settings last last_eq denied
    refine commit_torn_denies torn ?_ denied
    exact remembered_eq.trans (by rw [lastDenials, last_eq]; rfl)
  · exact fun torn remembered branch settings last same denied => commit_torn_denies torn same denied
  · exact fun torn remembered branch => tornCommit_holds torn.words remembered branch

/-! ### A refusal remembered -/

theorem no_instructions_bound :
    ([] : List InstructionEvidence).length ≤ maxInstructions := by decide

/-- A commit in a repository on the branch `main`. -/
def mainCommit : HookCaller where
  common :=
    { workingDirectory := ⟨⟨"/repo", by decide, by decide⟩, by decide⟩
      host := claudeCode
      call := ⟨⟨"call", by decide, by decide⟩, fun other => by cases other⟩
      instructions_bound := no_instructions_bound }

def mainSelected : Selected where
  tool := "Bash"
  inputDigest := "digest"
  target := none
  verb := some .commit
  branch := some "main"

/-- A complete policy that refuses commits on `main`. -/
def refuseMain : GuardSettings := ⟨["main"], .refuse, false⟩

def repoRoot : Root := ⟨"/repo", by decide⟩

/-- The envelope of a project's first event. -/
def mainEnvelope : Event :=
  { projectId := "user", seq := 1, stream := guardStream, streamVersion := 1
    typeName := guardAnswered, typeVersion := 1, actor := .baley, caller := none
    recordedAt := "2026-09-25T18:00:00Z", requestId := "request", git := none, policyVersion := 0
    payload := .null, prevHash := none, hash := .replicate 0 }

/-- The commit denied under that policy. -/
def mainDenied : Judged :=
  .complete (completeCommit refuseMain (.read "main")) refuseMain ⟨repoRoot, some repoRoot⟩

/-- After a commit was refused and recorded, the same commit is refused under torn settings. -/
theorem torn_never_opens_main :
    ∃ policies views, GuardRun policies views ∧
      lastPolicy policies ⟨repoRoot, some repoRoot, claudeCode⟩ = some refuseMain ∧
      (views.decide claudeCode (.torn ⟨"/repo/.baley/config.toml", .described "torn"⟩ none .commit
        (.read "main") ⟨repoRoot, some repoRoot⟩)).answer.Denies := by
  let payload := answeredPayload mainCommit mainSelected (.complete refuseMain)
    (completeCommit refuseMain (.read "main"))
  have settled : GuardViews.empty.settle claudeCode mainCommit mainSelected mainDenied =
      .ok (.staged (completeCommit refuseMain (.read "main"))
        [policyRecorded ⟨repoRoot, some repoRoot, claudeCode⟩ (denialParts refuseMain),
          answered (payload.getD .null)]) := rfl
  have committed : ∃ after, GuardViews.empty.commit
      ([policyRecorded ⟨repoRoot, some repoRoot, claudeCode⟩ (denialParts refuseMain),
        answered (payload.getD .null)].map fun new => new.sealedIn mainEnvelope) = .ok after :=
    ⟨_, rfl⟩
  obtain ⟨after, committed⟩ := committed
  have run : GuardRun ([] ++ (mainDenied.policy claudeCode).toList) after :=
    .recorded .start settled committed
  have last_eq : lastPolicy ([] ++ (mainDenied.policy claudeCode).toList)
      ⟨repoRoot, some repoRoot, claudeCode⟩ = some refuseMain := by
    rw [mainDenied, Judged.policy, Option.toList_some, lastPolicy_append, if_pos rfl]
  refine ⟨_, after, run, last_eq, ?_⟩
  obtain ⟨-, -, -, denies, -⟩ := torn_never_opens run ⟨repoRoot, some repoRoot, claudeCode⟩
  exact denies _ none (.read "main") refuseMain none last_eq ⟨_, rfl⟩

end Baley
