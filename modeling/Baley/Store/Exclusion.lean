import Baley.Store.Handled

/-!
# Claims hold their scope alone

Every run of calls files its requests: the `claim_scope` view names for each token the one open claim that
holds it.  A command that shares a token with another open claim commits nothing, and a completed request
stays as it is.
-/

namespace Baley

open Json Attempt Register

/-- The requests of every project are filed. -/
def Db.Filed (db : Db) : Prop :=
  ∀ project, (db.rows project).Filed

/-- A store that stays filed while the requests of each project make some moves. -/
def Db.Advances (db after : Db) : Prop :=
  after.Filed ∧ ∀ project, Register.Moves OpenRequest.scope (db.rows project).requests (after.rows project).requests

theorem Db.Filed.advances {db after : Db} (filed : db.Filed) (same : ∀ project, after.rows project = db.rows project) :
    db.Advances after := by
  refine ⟨fun project => ?_, fun project => ?_⟩
  · rw [same]
    exact filed project
  · rw [same]
    exact .refl

namespace ProjectRows

variable {store : Store} {rows : ProjectRows}

/-- A project without documents files no request. -/
theorem filed_empty : ProjectRows.empty.Filed := by
  have requests_eq (id : ClaimId) : ProjectRows.empty.shown.requests id = none := rfl
  refine ⟨fun view _ => ⟨fun key row found => ?_, fun key change body found => ?_⟩, ?_, ?_, ?_⟩
  · simp [ProjectRows.empty] at found
  · simp at found
  · intro id body found
    cases found
  · intro id claim opens
    cases opens
  · refine ⟨fun _ => none, ⟨fun token id noted => ⟨fun named => (by cases named), ?_⟩⟩, fun _ => rfl⟩
    rintro ⟨claim, opens, -⟩
    cases opens

theorem Filed.requests_eq_none (filed : rows.Filed) {id : ClaimId}
    (found : store.lookupRequest rows id = .ok none) : rows.requests id = none :=
  Shown.requests_eq_none (filed.lookupRequest_eq found)

theorem Filed.requests_eq (filed : rows.Filed) {id : ClaimId} {document : Document} {state : RequestState}
    (found : store.lookupRequest rows id = .ok (some document)) (state_eq : requestState document.body = some state) :
    rows.requests id = some state.standing :=
  Shown.requests_eq (filed.lookupRequest_eq found) state_eq

/-- A request that was looked up and is open. -/
theorem Filed.opens_of_looked (filed : rows.Filed) {id : ClaimId} {document : Document} {state : RequestState}
    {doc : ClaimDoc} (found : store.lookupRequest rows id = .ok (some document))
    (state_eq : requestState document.body = some state)
    (open_eq : state = .claimed doc ∨ ∃ seq, state = .awaitingOwner doc seq) :
    ∃ heldAt, rows.requests.Opens id ⟨doc, heldAt⟩ := by
  have stands := filed.requests_eq found state_eq
  rcases open_eq with rfl | ⟨seq, rfl⟩
  · exact ⟨none, stands⟩
  · exact ⟨some seq, stands⟩

end ProjectRows

namespace Work

variable {store : Store} {command : Command} {db final : Db} {shown : Shown} {work : Work} {head : Head}

/-- A turn starts from what its project shows. -/
theorem Files.start (filed : (db.rows command.project).Filed) (before : Option Head) :
    Files command db (db.rows command.project).shown (Work.new command db before (db.rows command.project).liveGen) where
  within := Within.start command db before
  sound := filed.sound
  shown_eq _ _ := rfl

/-- The write stores the documents that the turn showed. -/
theorem Files.written (files : Files command db shown work) (filed : shown.Filed)
    (wrote : work.write store = .ok (head, final)) :
    (final.rows command.project).Filed ∧ (final.rows command.project).requests = shown.requests ∧
      ∀ project, project ≠ command.project → final.rows project = db.rows project := by
  obtain ⟨rows, written_as⟩ := Work.write_eq_ok wrote
  have within := files.within
  have own_eq : final.rows command.project = rows := by
    rw [written_as.db_eq, within.command_eq, Db.rows_setRows, if_pos rfl]
  have others_eq (project : ProjectId) (differs : project ≠ command.project) :
      final.rows project = db.rows project := by
    rw [written_as.db_eq, within.command_eq, Db.rows_setRows, if_neg differs, within.others_eq project differs]
  have generation_eq : rows.liveGen = work.generation := by
    have kept : rows.liveGen = work.rows.liveGen := (congrArg ProjectRows.liveGen written_as.inserted.rest_eq :)
    have first : work.rows.liveGen = (db.rows command.project).liveGen :=
      (congrArg ProjectRows.liveGen within.rows_eq :)
    rw [kept, first, within.generation_eq]
  have stored (view : String) (spec : ViewSpec) (view_mem : view ∈ ownViews) (declared : store.table view = .ok spec) :
      SoundOver rows.documents rows.liveGen ∅ view ∧ rows.shown view = shown view := by
    obtain ⟨sound, shown_eq⟩ := (files.sound view view_mem).written declared written_as.documents_eq
    rw [← generation_eq] at sound shown_eq
    exact ⟨sound, shown_eq.trans (generation_eq ▸ files.shown_eq view view_mem)⟩
  obtain ⟨scope_sound, scope_eq⟩ := stored claimScopeView claimScopeSpec (by decide) table_claimScope
  obtain ⟨request_sound, request_eq⟩ := stored requestView requestSpec (by decide) table_request
  obtain ⟨rows_filed, requests_eq⟩ := filed.congr scope_eq request_eq
  rw [own_eq]
  exact ⟨⟨List.forall_mem_cons.mpr ⟨scope_sound, List.forall_mem_singleton.mpr request_sound⟩, rows_filed⟩,
    requests_eq, others_eq⟩

/-- What a turn leaves is what its command writes. -/
theorem Leaves.written {requests : Requests} (leaves : Leaves command db requests work) (filed : db.Filed)
    (moves : Register.Moves OpenRequest.scope (db.rows command.project).requests requests)
    (wrote : work.write store = .ok (head, final)) : db.Advances final := by
  obtain ⟨shown, files, shown_filed, rfl⟩ := leaves
  obtain ⟨own_filed, own_eq, others_eq⟩ := files.written shown_filed wrote
  refine ⟨fun project => ?_, fun project => ?_⟩
  all_goals
    by_cases same : project = command.project
  · exact same ▸ own_filed
  · exact others_eq project same ▸ filed project
  · rw [same, own_eq]
    exact moves
  · rw [others_eq project same]
    exact .refl

end Work

/-! ## The holders of a scope -/

theorem exists_of_mapM_eq_ok {α β ε : Type} {read : α → Except ε β} {items : List α} {results : List β}
    (read_eq : items.mapM read = .ok results) {item : α} (item_mem : item ∈ items) :
    ∃ result ∈ results, read item = .ok result := by
  induction items generalizing results with
  | nil => exact absurd item_mem List.not_mem_nil
  | cons head items ih =>
      simp only [List.mapM_cons, Except.bind_eq_ok, Except.ok.injEq, pure, Except.pure] at read_eq
      obtain ⟨first, first_eq, rest, rest_eq, rfl⟩ := read_eq
      rcases List.mem_cons.mp item_mem with rfl | item_mem
      · exact ⟨first, List.mem_cons_self, first_eq⟩
      · obtain ⟨result, result_mem, result_eq⟩ := ih rest_eq item_mem
        exact ⟨result, List.mem_cons_of_mem _ result_mem, result_eq⟩

theorem minBySeq_eq_none {claims : List Claim} (none_eq : minBySeq claims = none) : claims = [] := by
  cases claims with
  | nil => rfl
  | cons claim claims =>
      unfold minBySeq at none_eq
      split at none_eq
      · cases none_eq
      · split_ifs at none_eq

namespace ProjectRows

variable {store : Store} {rows : ProjectRows} {excluded : Option ClaimId} {token : String}

/-- The holder of a token is the open claim that the token's document names. -/
theorem Filed.scopeHolder_eq_ok (filed : rows.Filed) {holder : Option Claim}
    (found : store.scopeHolder rows excluded token = .ok holder) :
    rows.shown claimScopeView [.text token] = none ∨
      ∃ id claim, rows.requests.Opens id claim ∧ token ∈ claim.doc.scope ∧
        (excluded = some id ∨ ∃ held, holder = some held ∧ held.scope = claim.doc.scope) := by
  rw [Store.scopeHolder, table_claimScope] at found
  simp only [Except.bind_eq_ok, Except.ok.injEq] at found
  obtain ⟨_, rfl, document, read, found⟩ := found
  have stands := (filed.sound claimScopeView (by decide)).getDocument_eq claimScopeSpec rfl read
  cases document with
  | none => exact .inl stands
  | some document =>
      right
      simp only [Except.bind_eq_ok, Except.ofOption_eq_ok, Except.require_eq_ok] at found
      obtain ⟨_, -, kind, -, requestId, -, seq, -, -, -, _, looked_eq, requestDoc, rfl, found⟩ := found
      -- Either state of an open claim is followed in the same way.
      have followed {doc : ClaimDoc} {heldAt : Option Nat}
          (opens : rows.requests.Opens ⟨kind, requestId⟩ ⟨doc, heldAt⟩)
          (rest : (Except.require (doc.id.kind = kind ∧ doc.id.requestId = requestId ∧ doc.seq = seq ∧
              token ∈ doc.scope) Store.invalidHolder >>= fun _ =>
                if excluded = some doc.id then Except.ok none
                else Except.ok (some (claimFromDoc rows doc (heldSeq requestDoc.body)))) = .ok holder) :
          ∃ id claim, rows.requests.Opens id claim ∧ token ∈ claim.doc.scope ∧
            (excluded = some id ∨ ∃ held, holder = some held ∧ held.scope = claim.doc.scope) := by
        simp only [Except.bind_eq_ok, Except.require_eq_ok] at rest
        obtain ⟨-, ⟨-, -, -, token_mem⟩, rest⟩ := rest
        have id_eq : doc.id = ⟨kind, requestId⟩ := filed.filed.named _ _ opens
        refine ⟨_, _, opens, token_mem, ?_⟩
        split_ifs at rest with same
        · exact .inl (same.trans (congrArg some id_eq))
        · exact .inr ⟨_, (Except.ok.inj rest).symm, rfl⟩
      split at found
      · next doc state_eq => exact followed (filed.requests_eq looked_eq state_eq) found
      · next doc heldAt state_eq => exact followed (filed.requests_eq looked_eq state_eq) found
      · cases found

/-- The tokens of a command that is not blocked are free or held by the claim it may overlap. -/
theorem Filed.unblocked (filed : rows.Filed) {command : Command}
    (unblocked : store.checkScope rows command excluded = .ok ()) (token_mem : token ∈ command.scope) :
    rows.shown claimScopeView [.text token] = none ∨
      ∃ id claim, excluded = some id ∧ rows.requests.Opens id claim ∧ token ∈ claim.doc.scope := by
  rw [Store.checkScope, if_neg (List.ne_nil_of_mem token_mem), Except.bind_eq_ok] at unblocked
  obtain ⟨holders, holders_eq, unblocked⟩ := unblocked
  obtain ⟨holder, holder_mem, holder_eq⟩ := exists_of_mapM_eq_ok holders_eq token_mem
  have none_block : blocking command.scope (holders.filterMap id) command.recordedAt = some none := by
    split at unblocked
    · cases unblocked
    · cases unblocked
    · assumption
  rcases filed.scopeHolder_eq_ok holder_eq with free | ⟨other, claim, opens, held, excluded_eq | ⟨found, rfl, scope_eq⟩⟩
  · exact .inl free
  · exact .inr ⟨other, claim, excluded_eq, opens, held⟩
  · have found_mem : found ∈ (holders.filterMap id).filter
        fun holder => holder.scope.any fun token => command.scope.contains token := by
      refine List.mem_filter.mpr ⟨List.mem_filterMap.mpr ⟨some found, holder_mem, rfl⟩, ?_⟩
      exact List.any_eq_true.mpr ⟨token, scope_eq ▸ held, by simpa using token_mem⟩
    unfold blocking at none_block
    split at none_block
    · next none_eq =>
        rw [minBySeq_eq_none none_eq] at found_mem
        exact absurd found_mem List.not_mem_nil
    · obtain ⟨_, -, block_eq⟩ := Option.bind_eq_some_iff.mp none_block
      cases block_eq

/-- The tokens of a command that may overlap no claim are free. -/
theorem Filed.apart_of_unblocked (filed : rows.Filed) {command : Command}
    (unblocked : store.checkScope rows command none = .ok ()) (token_mem : token ∈ command.scope) :
    rows.shown claimScopeView [.text token] = none := by
  rcases filed.unblocked unblocked token_mem with free | ⟨_, _, excluded_eq, -⟩
  · exact free
  · cases excluded_eq

end ProjectRows

/-! ## Calls -/

/-- A reconciliation holds or closes its claim. -/
theorem OpenRequest.Settled.move {claim : OpenRequest} {standing : Standing OpenRequest (Hash × Outcome)}
    (settled : claim.Settled standing) {requests : Requests} {id : ClaimId} (opens : requests.Opens id claim) :
    Move OpenRequest.scope requests (requests.put id standing) := by
  cases settled with
  | held seq => exact .hold opens _ rfl
  | closed outcome => exact .close opens _

namespace Store

variable {store : Store} {command : Command} {db : Db}

/-- A command path advances the store when each turn it may run does. -/
theorem commandPathFor_advances {α : Type} {engine : Engine} {entry : Entry}
    {replay : Db → RequestState → Nat → Except StoreError α} {new : Option Claim → Turn α} (filed : db.Filed)
    (turned : ∀ own before value work, store.Looked command entry (db.rows command.project) own →
      store.checkScope (db.rows command.project) command (entry.excluded own) = .ok () →
      new own (Work.new command db before (db.rows command.project).liveGen) = .ok (value, work) →
      ∃ requests, Register.Moves OpenRequest.scope (db.rows command.project).requests requests ∧
        Work.Leaves command db requests work) :
    db.Advances (store.commandPathFor engine command entry replay new db).2 := by
  rcases commandPathFor_cases store engine command entry replay new db with
    ⟨error, path_eq⟩ | ⟨value, path_eq, -⟩ | ⟨value, head, written, before, own, work, path_eq, ran⟩
  · rw [path_eq]
    exact filed.advances fun _ => rfl
  · rw [path_eq]
    exact filed.advances fun _ => rfl
  · rw [path_eq]
    obtain ⟨requests, moves, leaves⟩ := turned own before value work ran.looked ran.unblocked ran.turned
    exact leaves.written filed moves ran.wrote

/-- A new command that completes no claim finds no request of its own. -/
theorem Looked.free {entry : Entry} {rows : ProjectRows} {own : Option Claim} (filed : rows.Filed)
    (looked : store.Looked command entry rows own) (other : ∀ owner, entry ≠ .complete owner) :
    rows.requests command.id = none := by
  cases looked with
  | absent found => exact filed.requests_eq_none found
  | owned entry_eq => exact absurd entry_eq (other _)

/-- A command that only completes its own request advances the store. -/
theorem commandPath_advances {α : Type} {engine : Engine} {replay : Db → Outcome → Nat → Except StoreError α}
    {new : Turn (α × Outcome × Option GitFacts × Option Observed)} (filed : db.Filed)
    (completes : ∀ before value work, (db.rows command.project).requests command.id = none →
      Work.completing store new (Work.new command db before (db.rows command.project).liveGen) = .ok (value, work) →
      ∃ outcome, Work.Leaves command db
        ((db.rows command.project).requests.put command.id (.closed (command.digest, outcome))) work) :
    db.Advances (store.commandPath engine command replay new db).2 := by
  refine commandPathFor_advances filed fun own before value work looked _ turned => ?_
  have free := looked.free (filed command.project) fun _ => by simp
  obtain ⟨outcome, leaves⟩ := completes before value work free turned
  exact ⟨_, .single (.answer free _), leaves⟩

/-- Every call advances the store. -/
theorem perform_advances (call : Call) (filed : db.Filed) : db.Advances (store.perform call db).2 := by
  cases call with
  | transact engine command script =>
      exact commandPath_advances filed fun before value work free turned =>
        (Work.Files.start (filed _) before).transacted (filed _).filed free turned
  | claim engine command script =>
      refine commandPathFor_advances filed fun own before value work looked unblocked turned => ?_
      have free := looked.free (filed command.project) fun _ => by simp
      have apart (token : String) (token_mem : token ∈ command.scope) :=
        (filed command.project).apart_of_unblocked unblocked token_mem
      rcases (Work.Files.start (filed _) before).claimed (filed _).filed free apart turned with
        ⟨outcome, leaves⟩ | ⟨claim, taken, leaves⟩
      · exact ⟨_, .single (.answer free _), leaves⟩
      · refine ⟨_, .single (.take free claim fun token token_mem other held opens held_mem => ?_), leaves⟩
        have held_eq := (filed command.project).filed.holder_eq opens held_mem
        rw [apart token (taken.scope_eq ▸ token_mem)] at held_eq
        cases held_eq
  | complete engine command owner script =>
      refine commandPathFor_advances filed fun own before value work looked _ turned => ?_
      cases looked with
      | absent found not_complete => exact absurd rfl (not_complete owner)
      | @owned _ document state doc entry_eq found state_eq open_eq =>
          obtain ⟨heldAt, opens⟩ := (filed command.project).opens_of_looked found state_eq open_eq
          have id_eq : doc.id = command.id := (filed command.project).filed.named _ _ opens
          exact ⟨_, .single (.close opens _),
            (Work.Files.start (filed _) before).ended (filed _).filed opens id_eq rfl turned⟩
  | reconcile engine command id authority script =>
      simp only [perform, reconcile, resultOf]
      split_ifs
      · exact filed.advances fun _ => rfl
      · exact filed.advances fun _ => rfl
      · refine commandPathFor_advances filed fun own before value work looked _ turned => ?_
        have free := looked.free (filed command.project) fun _ => by simp
        obtain ⟨claim, opens, -, differs, standing, outcome, settled, leaves⟩ :=
          (Work.Files.start (filed _) before).settled (filed _).filed free rfl turned
        refine ⟨_, (Relation.ReflTransGen.single (settled.move opens)).tail (.answer ?_ _), leaves⟩
        rw [Register.put_apply, if_neg differs]
        exact free
  | renewLease engine project id owner renewedAt =>
      rcases perform_renewLease store engine project id owner renewedAt db with same | ⟨leases, renewed⟩
      · rw [same]
        exact filed.advances fun _ => rfl
      · rw [renewed]
        refine ⟨fun other => ?_, fun other => ?_⟩
        all_goals
          rw [Db.rows_setRows]
          split_ifs with same
        · exact ⟨(filed project).sound, (filed project).filed⟩
        · exact filed other
        · rw [same]
          exact .refl
        · exact .refl
  | reduce engine command reference =>
      exact commandPath_advances filed fun before value work free turned =>
        (Work.Files.start (filed _) before).reduced (filed _).filed free turned
  | purge engine command hashes reason scrubbed =>
      have logical : db.Advances (store.logicalPurge engine command hashes reason db).2 :=
        commandPath_advances filed fun before value work free turned =>
          (Work.Files.start (filed _) before).purged (filed _).filed free turned
      obtain ⟨scrubPending, purged⟩ := perform_purge store engine command hashes reason scrubbed db
      rw [purged]
      exact logical

/-- After any calls the store is filed and its requests only moved. -/
theorem run_advances (calls : List Call) (filed : db.Filed) : db.Advances (store.run calls db) := by
  induction calls generalizing db with
  | nil => exact filed.advances fun _ => rfl
  | cons call calls ih =>
      obtain ⟨after_filed, moves⟩ := @perform_advances store db call filed
      obtain ⟨last_filed, rest⟩ := ih after_filed
      exact ⟨last_filed, fun project => (moves project).trans (rest project)⟩

theorem created_filed (projects : List ProjectId) : (Db.create projects).Filed := by
  intro project
  rw [Db.rows_create]
  exact ProjectRows.filed_empty

theorem run_filed (store : Store) (calls : List Call) (projects : List ProjectId) :
    (store.run calls (Db.create projects)).Filed :=
  (run_advances calls (created_filed projects)).1

/-- After any run no scope token is held by two open claims, and the `claim_scope` view has one document for
each token of each open claim, which names that claim, and none for any other token. -/
theorem scopes_held_apart (store : Store) (calls : List Call) (projects : List ProjectId) (project : ProjectId) :
    Exclusive OpenRequest.scope ((store.run calls (Db.create projects)).rows project).requests ∧
      ∀ token body, ((store.run calls (Db.create projects)).rows project).shown claimScopeView [.text token] =
          some body ↔
        ∃ id claim, ((store.run calls (Db.create projects)).rows project).requests.Opens id claim ∧
          token ∈ claim.doc.scope ∧
          body = ClaimScopeProjector.holder token claim.doc.seq id.kind id.requestId := by
  have filed := (run_filed store calls projects project).filed
  have moves := (@run_advances store _ calls (created_filed projects)).2 project
  refine ⟨moves.exclusive ?_, fun token body => ⟨fun found => ?_, ?_⟩⟩
  · rw [Db.rows_create]
    intro id other claim claim' token opens
    cases opens
  · obtain ⟨holder, directory, shows⟩ := filed.directory
    rw [shows, Option.map_eq_some_iff] at found
    obtain ⟨⟨id, seq⟩, named, rfl⟩ := found
    obtain ⟨claim, opens, token_mem, rfl⟩ := (directory.holds_iff token id seq).mp named
    exact ⟨id, claim, opens, token_mem, rfl⟩
  · rintro ⟨id, claim, opens, token_mem, rfl⟩
    exact filed.holder_eq opens token_mem

/-- Between any two states of a run the requests of a project only moved: new requests were answered or took
free tokens, open ones were held or closed, and closed ones stayed as they are. -/
theorem requests_only_move (store : Store) (calls later : List Call) (projects : List ProjectId)
    (project : ProjectId) :
    Register.Moves OpenRequest.scope ((store.run calls (Db.create projects)).rows project).requests
        ((store.run (calls ++ later) (Db.create projects)).rows project).requests ∧
      ∀ id result, ((store.run calls (Db.create projects)).rows project).requests id = some (.closed result) →
        ((store.run (calls ++ later) (Db.create projects)).rows project).requests id = some (.closed result) := by
  have moves := (@run_advances store _ later (run_filed store calls projects)).2 project
  have run_eq : store.run (calls ++ later) (Db.create projects) =
      store.run later (store.run calls (Db.create projects)) := List.foldl_append
  rw [run_eq]
  exact ⟨moves, fun id result closed => moves.closed closed⟩

end Store

/-! ## Calls that share a token -/

/-- The claim that a call may overlap: the one it completes or reconciles. -/
def Call.overlaps : Call → Option ClaimId
  | .complete _ command _ _ => some command.id
  | .reconcile _ _ id _ _ => some id
  | _ => none

/-- Whether a call's command shares a scope token with an open claim of its project. -/
def Call.Shares (call : Call) (db : Db) (id : ClaimId) : Prop :=
  ∃ command claim token, call.command? = some command ∧ (db.rows command.project).requests.Opens id claim ∧
    token ∈ claim.doc.scope ∧ token ∈ command.scope

namespace Store

variable {store : Store} {command : Command} {db : Db}

/-- A command that is not blocked shares no token but with the claim it may overlap. -/
theorem shares_excluded (filed : db.Filed) {excluded : Option ClaimId}
    (unblocked : store.checkScope (db.rows command.project) command excluded = .ok ()) {id : ClaimId}
    {claim : OpenRequest} (opens : (db.rows command.project).requests.Opens id claim) {token : String}
    (token_mem : token ∈ claim.doc.scope) (shared : token ∈ command.scope) : excluded = some id := by
  have project_filed := filed command.project
  rcases project_filed.unblocked unblocked shared with free | ⟨other, held, excluded_eq, other_opens, other_mem⟩
  · have held_eq := project_filed.filed.holder_eq opens token_mem
    rw [free] at held_eq
    cases held_eq
  · rw [excluded_eq, project_filed.filed.exclusive opens other_opens token_mem other_mem]

/-- A command path leaves every row as it was, or its command was not blocked. -/
theorem commandPathFor_unblocked {α : Type} {engine : Engine} {entry : Entry}
    {replay : Db → RequestState → Nat → Except StoreError α} {new : Option Claim → Turn α} :
    (∀ project, (store.commandPathFor engine command entry replay new db).2.rows project = db.rows project) ∨
      ∃ own, store.Looked command entry (db.rows command.project) own ∧
        store.checkScope (db.rows command.project) command (entry.excluded own) = .ok () := by
  rcases commandPathFor_cases store engine command entry replay new db with
    ⟨error, path_eq⟩ | ⟨value, path_eq, -⟩ | ⟨value, head, written, before, own, work, path_eq, ran⟩
  · rw [path_eq]
    exact .inl fun _ => rfl
  · rw [path_eq]
    exact .inl fun _ => rfl
  · exact .inr ⟨own, ran.looked, ran.unblocked⟩

/-- After any run, a call that shares a scope token with an open claim, other than the one it completes or
reconciles, leaves every row as it was, whether that claim's lease is live or not. -/
theorem shared_scope_commits_nothing (store : Store) (calls : List Call) (projects : List ProjectId) (call : Call) :
    (∀ project, (store.perform call (store.run calls (Db.create projects))).2.rows project =
        (store.run calls (Db.create projects)).rows project) ∨
      ∀ id, call.Shares (store.run calls (Db.create projects)) id → call.overlaps = some id := by
  have filed := run_filed store calls projects
  generalize store.run calls (Db.create projects) = db at filed ⊢
  have shares_of {named : Command} {excluded : Option ClaimId} (command_eq : call.command? = some named)
      (unblocked : store.checkScope (db.rows named.project) named excluded = .ok ())
      (overlaps : ∀ id, excluded = some id → call.overlaps = some id) :
      ∀ id, call.Shares db id → call.overlaps = some id := by
    rintro id ⟨command, claim, token, command_eq', opens, token_mem, shared⟩
    obtain rfl := Option.some.inj (command_eq.symm.trans command_eq')
    exact overlaps id (shares_excluded filed unblocked opens token_mem shared)
  have nothing_excluded (id : ClaimId) : (none : Option ClaimId) = some id → call.overlaps = some id := by simp
  cases call with
  | transact engine command script =>
      refine commandPathFor_unblocked.imp_right ?_
      rintro ⟨own, looked, unblocked⟩
      exact shares_of rfl unblocked nothing_excluded
  | claim engine command script =>
      refine commandPathFor_unblocked.imp_right ?_
      rintro ⟨own, looked, unblocked⟩
      exact shares_of rfl unblocked nothing_excluded
  | complete engine command owner script =>
      refine commandPathFor_unblocked.imp_right ?_
      rintro ⟨own, looked, unblocked⟩
      refine shares_of rfl unblocked fun id excluded_eq => ?_
      cases looked with
      | absent => cases excluded_eq
      | owned entry_eq found state_eq open_eq =>
          obtain ⟨heldAt, opens⟩ := (filed command.project).opens_of_looked found state_eq open_eq
          rw [← excluded_eq]
          exact congrArg some ((filed command.project).filed.named _ _ opens).symm
  | reconcile engine command id authority script =>
      simp only [perform, reconcile, resultOf]
      split_ifs
      · exact .inl fun _ => rfl
      · exact .inl fun _ => rfl
      · refine commandPathFor_unblocked.imp_right ?_
        rintro ⟨own, looked, unblocked⟩
        exact shares_of rfl unblocked fun _ same => same
  | renewLease engine project id owner renewedAt =>
      refine .inr fun id shares => ?_
      obtain ⟨_, _, _, named, -⟩ := shares
      cases named
  | reduce engine command reference =>
      refine commandPathFor_unblocked.imp_right ?_
      rintro ⟨own, looked, unblocked⟩
      exact shares_of rfl unblocked nothing_excluded
  | purge engine command hashes reason scrubbed =>
      have logical : (∀ project, (store.logicalPurge engine command hashes reason db).2.rows project =
          db.rows project) ∨ ∀ id, Call.Shares (.purge engine command hashes reason scrubbed) db id →
            Call.overlaps (.purge engine command hashes reason scrubbed) = some id := by
        refine commandPathFor_unblocked.imp_right ?_
        rintro ⟨own, looked, unblocked⟩
        exact shares_of rfl unblocked nothing_excluded
      obtain ⟨scrubPending, purged⟩ := perform_purge store engine command hashes reason scrubbed db
      rw [purged]
      exact logical

end Store

/-! ## Who moves a request

Each request turns in one way at a time: a command answers its own new request or opens it with its tokens,
only the owner of a claim that is not held completes it, and only a reconciliation holds a claim or closes it
in its owner's place.
-/

namespace Call

/-- The call completes the claim as its owner, with the claim's digest and scope, and the claim is not
held for the owner. -/
def Completes (call : Call) (project : ProjectId) (id : ClaimId) (claim : OpenRequest) : Prop :=
  ∃ engine command script, call = .complete engine command claim.doc.owner script ∧ command.project = project ∧
    command.id = id ∧ command.digest = claim.doc.digest ∧ command.scope = claim.doc.scope ∧ claim.heldAt = none

/-- The call reconciles the claim, which was interrupted, or waits for the owner who now acts. -/
def Reconciles (call : Call) (db : Db) (project : ProjectId) (id : ClaimId) (claim : OpenRequest) : Prop :=
  ∃ engine command authority script, call = .reconcile engine command id authority script ∧
    command.project = project ∧ claim.Settleable (db.rows project) command.recordedAt authority ∧
    (authority = .owner → command.actor = .owner)

/-- How a call may turn one request of a project. -/
inductive Turns (call : Call) (db : Db) (project : ProjectId) (id : ClaimId) :
    Option (Standing OpenRequest (Hash × Outcome)) → Option (Standing OpenRequest (Hash × Outcome)) → Prop
  /-- The request stays as it is. -/
  | stays (standing : Option (Standing OpenRequest (Hash × Outcome))) : Turns call db project id standing standing
  /-- A new request is completed at once. -/
  | answers {command : Command} (own : call.command? = some command) (project_eq : command.project = project)
      (id_eq : command.id = id) (outcome : Outcome) :
      Turns call db project id none (some (.closed (command.digest, outcome)))
  /-- A new request is opened. -/
  | takes {engine : Engine} {command : Command} {script : Decide ClaimDecision}
      (own : call = .claim engine command script) (project_eq : command.project = project)
      (id_eq : command.id = id) {claim : OpenRequest} (taken : claim.Taken command) :
      Turns call db project id none (some (.opened claim))
  /-- An open claim is completed by its owner. -/
  | completes {claim : OpenRequest} (completes : call.Completes project id claim) (outcome : Outcome) :
      Turns call db project id (some (.opened claim)) (some (.closed (claim.doc.digest, outcome)))
  /-- An open claim is held or closed by a reconciliation. -/
  | reconciles {claim : OpenRequest} (reconciles : call.Reconciles db project id claim)
      {standing : Standing OpenRequest (Hash × Outcome)} (settled : claim.Settled standing) :
      Turns call db project id (some (.opened claim)) (some standing)

variable {call : Call} {db : Db} {project : ProjectId}

/-- Putting a request turns no other one. -/
theorem Turns.put {requests : Requests} {id : ClaimId} {standing : Standing OpenRequest (Hash × Outcome)}
    (turns : call.Turns db project id (requests id) (some standing)) (other : ClaimId) :
    call.Turns db project other (requests other) (requests.put id standing other) := by
  rw [Register.put_apply]
  split_ifs with same
  · rw [same]
    exact turns
  · exact .stays _

end Call

/-- A document of a claim held for the owner says so. -/
theorem state_of_awaitingOwner {body : Value} {doc : ClaimDoc} {seq : Nat}
    (state_eq : requestState body = some (.awaitingOwner doc seq)) :
    (body.get? "state").bind Value.asStr = some "awaiting_owner" := by
  simp only [requestState, Option.bind_eq_bind, Option.bind_eq_some_iff] at state_eq
  obtain ⟨found, found_eq, name, name_eq, state_eq⟩ := state_eq
  rw [found_eq, Option.bind_some, name_eq]
  split_ifs at state_eq with completed claimed awaiting
  · simp only [Option.bind_eq_some_iff, Prod.exists] at state_eq
    obtain ⟨_, -, _, -, _, _, -, other⟩ := state_eq
    cases other
  · simp only [Option.bind_eq_some_iff] at state_eq
    obtain ⟨_, -, other⟩ := state_eq
    cases other
  · rw [awaiting]

namespace Store

variable {store : Store} {command : Command} {db : Db}

/-- A command path turns the requests as each turn it may run does. -/
theorem commandPathFor_turns {α : Type} {call : Call} {engine : Engine} {entry : Entry}
    {replay : Db → RequestState → Nat → Except StoreError α} {new : Option Claim → Turn α}
    (turned : ∀ own before value work, store.Looked command entry (db.rows command.project) own →
      store.checkScope (db.rows command.project) command (entry.excluded own) = .ok () →
      new own (Work.new command db before (db.rows command.project).liveGen) = .ok (value, work) →
      ∃ requests, Work.Leaves command db requests work ∧
        ∀ id, call.Turns db command.project id ((db.rows command.project).requests id) (requests id))
    (project : ProjectId) (id : ClaimId) :
    call.Turns db project id ((db.rows project).requests id)
      (((store.commandPathFor engine command entry replay new db).2.rows project).requests id) := by
  rcases commandPathFor_cases store engine command entry replay new db with
    ⟨error, path_eq⟩ | ⟨value, path_eq, -⟩ | ⟨value, head, written, before, own, work, path_eq, ran⟩
  · rw [path_eq]
    exact .stays _
  · rw [path_eq]
    exact .stays _
  · rw [path_eq]
    obtain ⟨requests, ⟨shown, files, shown_filed, rfl⟩, turns⟩ :=
      turned own before value work ran.looked ran.unblocked ran.turned
    obtain ⟨-, own_eq, others_eq⟩ := files.written shown_filed ran.wrote
    by_cases same : project = command.project
    · subst same
      rw [own_eq]
      exact turns id
    · rw [others_eq project same]
      exact .stays _

/-- A command that only completes its own request turns that one. -/
theorem commandPath_turns {α : Type} {call : Call} {engine : Engine}
    {replay : Db → Outcome → Nat → Except StoreError α}
    {new : Turn (α × Outcome × Option GitFacts × Option Observed)} (filed : db.Filed)
    (own : call.command? = some command)
    (completes : ∀ before value work, (db.rows command.project).requests command.id = none →
      Work.completing store new (Work.new command db before (db.rows command.project).liveGen) = .ok (value, work) →
      ∃ outcome, Work.Leaves command db
        ((db.rows command.project).requests.put command.id (.closed (command.digest, outcome))) work)
    (project : ProjectId) (id : ClaimId) :
    call.Turns db project id ((db.rows project).requests id)
      (((store.commandPath engine command replay new db).2.rows project).requests id) := by
  refine commandPathFor_turns (fun _ before value work looked _ turned => ?_) project id
  have free := looked.free (filed command.project) fun _ => by simp
  obtain ⟨outcome, leaves⟩ := completes before value work free turned
  exact ⟨_, leaves, Call.Turns.put (free ▸ .answers own rfl rfl outcome)⟩

/-- Every call turns each request in one of the ways it may. -/
theorem perform_turns (call : Call) (filed : db.Filed) (project : ProjectId) (id : ClaimId) :
    call.Turns db project id ((db.rows project).requests id)
      (((store.perform call db).2.rows project).requests id) := by
  cases call with
  | transact engine command script =>
      exact commandPath_turns filed rfl (fun before value work free turned =>
        (Work.Files.start (filed _) before).transacted (filed _).filed free turned) project id
  | claim engine command script =>
      refine commandPathFor_turns (fun own before value work looked unblocked turned => ?_) project id
      have free := looked.free (filed command.project) fun _ => by simp
      rcases (Work.Files.start (filed _) before).claimed (filed _).filed free
        (fun token token_mem => (filed _).apart_of_unblocked unblocked token_mem) turned with
        ⟨outcome, leaves⟩ | ⟨claim, taken, leaves⟩
      · exact ⟨_, leaves, Call.Turns.put (free ▸ .answers rfl rfl rfl outcome)⟩
      · exact ⟨_, leaves, Call.Turns.put (free ▸ .takes rfl rfl rfl taken)⟩
  | complete engine command owner script =>
      refine commandPathFor_turns (fun own before value work looked _ turned => ?_) project id
      cases looked with
      | absent found not_complete => exact absurd rfl (not_complete owner)
      | @owned _ document state doc entry_eq found state_eq open_eq not_held digest_eq owner_eq scope_eq =>
          obtain rfl := Entry.complete.inj entry_eq
          have claimed : state = .claimed doc := by
            rcases open_eq with claimed | ⟨seq, rfl⟩
            · exact claimed
            · exact absurd (state_of_awaitingOwner state_eq) not_held
          subst claimed
          have opens : (db.rows command.project).requests.Opens command.id ⟨doc, none⟩ :=
            (filed command.project).requests_eq found state_eq
          have id_eq : doc.id = command.id := (filed command.project).filed.named _ _ opens
          have leaves := (Work.Files.start (filed _) before).ended (filed _).filed opens id_eq rfl turned
          rw [show command.digest = doc.digest from digest_eq.symm] at leaves
          refine ⟨_, leaves, Call.Turns.put ?_⟩
          rw [opens]
          exact .completes ⟨engine, command, script, owner_eq ▸ rfl, rfl, rfl, digest_eq.symm, scope_eq.symm, rfl⟩
            value.recorded
  | reconcile engine command named authority script =>
      simp only [perform, reconcile, resultOf]
      split_ifs with refused
      · exact .stays _
      · exact .stays _
      · refine commandPathFor_turns (fun own before value work looked _ turned => ?_) project id
        have free := looked.free (filed command.project) fun _ => by simp
        obtain ⟨claim, opens, settleable, differs, standing, outcome, settled, leaves⟩ :=
          (Work.Files.start (filed _) before).settled (filed _).filed free rfl turned
        refine ⟨_, leaves, fun other => ?_⟩
        rw [Register.put_apply]
        split_ifs with same
        · rw [same, free]
          exact .answers rfl rfl rfl outcome
        · refine Call.Turns.put ?_ other
          rw [show (db.rows command.project).requests named = some (.opened claim) from opens]
          refine .reconciles ⟨engine, command, authority, script, rfl, rfl, settleable, fun owner => ?_⟩ settled
          by_contra not_owner
          exact refused ⟨owner, not_owner⟩
  | renewLease engine named owned owner renewedAt =>
      rcases perform_renewLease store engine named owned owner renewedAt db with same | ⟨leases, renewed⟩
      · rw [same]
        exact .stays _
      · rw [renewed, Db.rows_setRows]
        split_ifs with same
        · rw [same]
          exact .stays _
        · exact .stays _
  | reduce engine command reference =>
      exact commandPath_turns filed rfl (fun before value work free turned =>
        (Work.Files.start (filed _) before).reduced (filed _).filed free turned) project id
  | purge engine command hashes reason scrubbed =>
      have logical : Call.Turns (.purge engine command hashes reason scrubbed) db project id
          ((db.rows project).requests id)
          (((store.logicalPurge engine command hashes reason db).2.rows project).requests id) :=
        commandPath_turns filed rfl (fun before value work free turned =>
          (Work.Files.start (filed _) before).purged (filed _).filed free turned) project id
      obtain ⟨scrubPending, purged⟩ := perform_purge store engine command hashes reason scrubbed db
      rw [purged]
      exact logical

/-- After any run, a call turns each request of each project in one of the ways it may: an open claim is
completed only by its owner while it is not held, and held or closed only by a reconciliation that may act on
it, and a completed request stays as it is. -/
theorem requests_turn (store : Store) (calls : List Call) (projects : List ProjectId) (call : Call)
    (project : ProjectId) (id : ClaimId) :
    call.Turns (store.run calls (Db.create projects)) project id
      (((store.run calls (Db.create projects)).rows project).requests id)
      (((store.perform call (store.run calls (Db.create projects))).2.rows project).requests id) :=
  perform_turns call (run_filed store calls projects) project id

end Store

end Baley
