import Baley.Json.Alike
import Baley.Store.Chained
import Baley.Store.Filed

/-!
# What the store's own events write

The documents that a claim, a completion and a reconciliation leave in the `request` and `claim_scope` views,
and what is read back from them.
-/

namespace Baley

open Json

/-! ## The documents they write -/

@[simp]
theorem canonicalForm_texts (items : List String) : canonicalForm (texts items) = texts items := by
  simp [texts, canonicalForm, canonicalItems_eq_map]

theorem ClaimedPayload.fromValue_toValue (payload : ClaimedPayload) :
    ClaimedPayload.fromValue payload.toValue = some payload := by
  obtain ⟨kind, requestId, digest, intent, scope, owner⟩ := payload
  simp [fromValue, toValue, ClaimOwner.fromValue, ClaimOwner.toValue, Members.lookup_cons,
    Hash.fromHex_toHex]

theorem ReconciledPayload.fromValue_toValue (payload : ReconciledPayload) (fits : payload.claimSeq < 2 ^ 64) :
    ReconciledPayload.fromValue payload.toValue = some payload := by
  obtain ⟨claim, claimSeq, finding, resolution⟩ := payload
  cases resolution <;>
    simp [fromValue, toValue, Members.lookup_cons, Value.asU64_ofNat fits, ReconciledResolution.name]

theorem lt_of_inDomain_ofNat {n : Nat} (inDomain : InDomain (.ofNat n)) : n < 2 ^ 64 := by
  have small := inDomain_ofNat_iff.mp inDomain
  rw [maxSafeInteger] at small
  omega

theorem Event.inDomain_seq {event : Event} (inDomain : InDomain event.envelope) : InDomain (.ofNat event.seq) := by
  have found : event.envelope.get? "seq" = some (.ofNat event.seq) := by
    simp [envelope, envelopeEntries, Members.lookup_cons, Members.lookup_append, Members.lookup_optional,
      Members.reverse_optional]
  exact inDomain.get? found

/-- The claim that a `command.claimed` event opens. -/
def ClaimedPayload.doc (payload : ClaimedPayload) (seq : Nat) (claimedAt : String) : ClaimDoc where
  id := ⟨payload.kind, payload.requestId⟩
  digest := payload.digest
  seq := seq
  claimedAt := claimedAt
  scope := payload.scope
  owner := payload.owner
  intent := canonicalForm payload.intent

theorem requestState_claimedBody {event : Event} (payload : ClaimedPayload)
    (inDomain : InDomain (.ofNat event.seq)) :
    requestState (canonicalForm (RequestProjector.claimedBody event payload)) =
      some (.claimed (payload.doc event.seq event.recordedAt)) := by
  simp [RequestProjector.claimedBody, requestState, claimDoc, Members.lookup_cons,
    canonicalForm_ofNat inDomain, Value.asU64_ofNat (lt_of_inDomain_ofNat inDomain), Hash.fromHex_toHex,
    ClaimOwner.fromValue, ClaimOwner.toValue, ClaimedPayload.doc]

theorem canonicalForm_holder (token : String) {seq : Nat} (kind requestId : String)
    (inDomain : InDomain (.ofNat seq)) :
    canonicalForm (ClaimScopeProjector.holder token seq kind requestId) =
      ClaimScopeProjector.holder token seq kind requestId := by
  simp [ClaimScopeProjector.holder, canonicalForm_ofNat inDomain]

/-- A body whose canonical form is a token's document names the claim that holds it. -/
theorem names_of_canonicalForm {body : Value} {token : String} {seq : Nat} {kind requestId : String}
    (form_eq : canonicalForm body = ClaimScopeProjector.holder token seq kind requestId) :
    ClaimScopeProjector.names body kind requestId = true := by
  have claim_eq := congrArg (fun value => (value.get? "claim").bind fun claim =>
    (claim.get? "kind").bind Value.asStr) form_eq
  have request_eq := congrArg (fun value => (value.get? "claim").bind fun claim =>
    (claim.get? "request_id").bind Value.asStr) form_eq
  have asStr_eq (found : Option Value) : (found.map canonicalForm).bind Value.asStr = found.bind Value.asStr := by
    cases found <;> simp
  have under_eq (key : String) : (((body.get? "claim").map canonicalForm).bind fun claim =>
      (claim.get? key).bind Value.asStr) =
        (body.get? "claim").bind fun claim => (claim.get? key).bind Value.asStr := by
    cases body.get? "claim" with
    | none => rfl
    | some claim => simp [asStr_eq]
  simp only [get?_canonicalForm, under_eq] at claim_eq request_eq
  simp [ClaimScopeProjector.names, claim_eq, request_eq, ClaimScopeProjector.holder, Members.lookup_cons]

theorem get?_set_of_isSome {value : Value} (key : String) (isObject : (value.get? key).isSome = true)
    (name other : String) (item : Value) :
    (value.set name item).get? other = if other = name then some item else value.get? other := by
  cases value with
  | object members => rw [Value.set, Value.get?_object, Members.lookup_insert, Value.get?_object]
  | _ => cases isObject

theorem wellFormed_set {value item : Value} (wellFormed : value.WellFormed) (name : String)
    (item_wellFormed : item.WellFormed) : (value.set name item).WellFormed := by
  cases wellFormed with
  | object sorted members_wellFormed =>
      refine .object (Members.sorted_insert sorted name item) fun member member_mem => ?_
      rcases Members.mem_insert member_mem with rfl | member_mem
      · exact item_wellFormed
      · exact members_wellFormed member member_mem
  | null => exact .null
  | bool flag => exact .bool flag
  | number text => exact .number text
  | string text => exact .string text
  | array items_wellFormed => exact .array items_wellFormed

/-- Holding an open claim's document leaves the claim. -/
theorem requestState_held {body held : Value} {state : RequestState} {claim : OpenRequest}
    (state_eq : requestState body = some state) (opened : state.standing = .opened claim) {seq : Nat}
    (fits : seq < 2 ^ 64) (has_finding : (held.get? "finding").isSome = true)
    (seq_eq : held.get? "seq" = some (.ofNat seq)) :
    requestState ((body.set "state" (.string "awaiting_owner")).set "held" held) =
      some (.awaitingOwner claim.doc seq) := by
  obtain ⟨finding, finding_eq⟩ := Option.isSome_iff_exists.mp has_finding
  have isObject : (body.get? "state").isSome = true := by
    cases found : body.get? "state" with
    | none => simp [requestState, found] at state_eq
    | some _ => rfl
  have doc_eq : claimDoc body = some claim.doc := by
    simp only [requestState, Option.bind_eq_bind, Option.bind_eq_some_iff] at state_eq
    obtain ⟨_, -, name, -, state_eq⟩ := state_eq
    split_ifs at state_eq with completed claimed awaiting
    · simp only [Option.bind_eq_some_iff, Option.some.injEq, Prod.exists] at state_eq
      obtain ⟨_, -, _, -, _, _, -, rfl⟩ := state_eq
      cases opened
    · simp only [Option.bind_eq_some_iff, Option.some.injEq] at state_eq
      obtain ⟨doc, doc_eq, rfl⟩ := state_eq
      cases opened
      exact doc_eq
    · simp only [Option.bind_eq_some_iff, Option.some.injEq] at state_eq
      obtain ⟨doc, doc_eq, _, -, _, -, _, -, _, -, rfl⟩ := state_eq
      cases opened
      exact doc_eq
  have set_isObject : ((body.set "state" (.string "awaiting_owner")).get? "state").isSome = true := by
    rw [get?_set_of_isSome _ isObject, if_pos rfl]
    rfl
  have get_eq (key : String) (other_state : key ≠ "state") (other_held : key ≠ "held") :
      ((body.set "state" (.string "awaiting_owner")).set "held" held).get? key = body.get? key := by
    rw [get?_set_of_isSome _ set_isObject, if_neg other_held, get?_set_of_isSome _ isObject, if_neg other_state]
  have kept : claimDoc ((body.set "state" (.string "awaiting_owner")).set "held" held) = claimDoc body := by
    unfold claimDoc
    rw [get_eq "claim" (by decide) (by decide), get_eq "kind" (by decide) (by decide),
      get_eq "request_id" (by decide) (by decide), get_eq "digest" (by decide) (by decide)]
  have state_get : ((body.set "state" (.string "awaiting_owner")).set "held" held).get? "state" =
      some (.string "awaiting_owner") := by
    rw [get?_set_of_isSome _ set_isObject, if_neg (by decide), get?_set_of_isSome _ isObject, if_pos rfl]
  have held_get : ((body.set "state" (.string "awaiting_owner")).set "held" held).get? "held" = some held := by
    rw [get?_set_of_isSome _ set_isObject, if_pos rfl]
  unfold requestState
  rw [state_get, held_get, kept, doc_eq]
  simp [finding_eq, seq_eq, Value.asU64_ofNat fits]

/-- An outcome as its completion records it. -/
def Outcome.recorded (outcome : Outcome) : Outcome :=
  { outcome with
    answer :=
      match outcome.answer with
      | .inline value => .inline (canonicalForm value)
      | .stored reference => .stored reference
      | .tombstone reference _ => .stored reference }

theorem PayloadRef.fromValue_canonicalForm {reference : PayloadRef}
    (inDomain : InDomain (.ofNat reference.bytes)) :
    fromValue (canonicalForm reference.toValue) = some reference := by
  obtain ⟨hash, bytes, retention⟩ := reference
  have length_eq : (Members.ofEntries [("payload", .string hash.toHex), ("bytes", .ofNat bytes),
      ("class", .string retention.asStr)]).length = 3 :=
    (Members.perm_ofEntries (by simp)).length_eq
  have form_eq : canonicalForm (toValue { hash, bytes, retention }) =
      .object (Members.ofEntries [("payload", .string hash.toHex), ("bytes", .ofNat bytes),
        ("class", .string retention.asStr)]) := by
    simp only [toValue, canonicalForm_ofEntries, List.map_cons, List.map_nil, canonicalForm_string,
      canonicalForm_ofNat inDomain]
    rfl
  simp only at inDomain
  rw [form_eq]
  simp [fromValue, Members.lookup_cons, Hash.fromHex_toHex,
    Value.asU64_ofNat (lt_of_inDomain_ofNat inDomain), length_eq]

/-- A completed request's document holds its digest and its outcome. -/
theorem requestState_completed (id : ClaimId) (digest : Hash) (scope : List String) {outcome : Outcome}
    (inDomain : InDomain outcome.answer.toValue) :
    requestState (canonicalForm ((completedPayloadFor id.kind id.requestId digest scope outcome).set "state"
      (.string "completed"))) = some (.completed digest outcome.recorded) := by
  obtain ⟨kind, answer⟩ := outcome
  have object_eq (key : String) (value : Value) :
      Value.asObject (Value.ofEntries [(key, value)]) = some [(key, value)] := rfl
  have stored_reads {reference : PayloadRef} (stored : InDomain (Answer.stored reference).toValue) :
      PayloadRef.fromValue (canonicalForm reference.toValue) = some reference := by
    have reference_eq : (Answer.stored reference).toValue.get? "stored" = some reference.toValue := by
      simp [Answer.toValue, Members.lookup_cons]
    have bytes_eq : reference.toValue.get? "bytes" = some (.ofNat reference.bytes) := by
      simp [PayloadRef.toValue, Members.lookup_cons]
    exact PayloadRef.fromValue_canonicalForm ((stored.get? reference_eq).get? bytes_eq)
  cases answer with
  | inline value =>
      cases kind <;>
        simp [completedPayloadFor, requestState, recordedOutcome, Members.lookup_cons, Hash.fromHex_toHex,
          get?_set_of_isSome "kind", Answer.toValue, OutcomeKind.name, Outcome.recorded, object_eq]
  | stored reference =>
      cases kind <;>
        simp [completedPayloadFor, requestState, recordedOutcome, Members.lookup_cons, Hash.fromHex_toHex,
          get?_set_of_isSome "kind", Answer.toValue, OutcomeKind.name, Outcome.recorded, object_eq,
          stored_reads inDomain]
  | tombstone reference =>
      cases kind <;>
        simp [completedPayloadFor, requestState, recordedOutcome, Members.lookup_cons, Hash.fromHex_toHex,
          get?_set_of_isSome "kind", Answer.toValue, OutcomeKind.name, Outcome.recorded, object_eq,
          stored_reads inDomain]

namespace ClaimScopeProjector

variable {event : Event} {scope : List String} {kind requestId : String} {given : List (DocKey × Value)}
  {changes : List Change} {shows after : DocKey → Option Value}

/-- The event names a request and these tokens. -/
structure Names (event : Event) (scope : List String) (kind requestId : String) : Prop where
  scope_eq : event.payload.get? "scope" = some (texts scope)
  kind_eq : event.payload.get? "kind" = some (.string kind)
  request_eq : event.payload.get? "request_id" = some (.string requestId)

theorem Names.keys_eq (names : Names event scope kind requestId) :
    keys event = scope.map fun token => [.text token] := by
  simp only [keys, names.scope_eq, texts, Option.bind_some, Value.asArray_array, List.filterMap_map]
  rw [show Value.asStr ∘ Value.string = some from rfl, List.filterMap_some]

theorem Names.changes_eq (names : Names event scope kind requestId) (made : String → Option Change)
    (change_eq : ∀ token, change event given kind requestId (.string token) = .ok (made token))
    (applied : apply event given = .ok changes) : changes = scope.filterMap made := by
  have made_eq (tokens : List String) :
      (tokens.map Value.string).mapM (change event given kind requestId) = .ok (tokens.map made) := by
    induction tokens with
    | nil => rfl
    | cons token tokens ih =>
        rw [List.map_cons, List.mapM_cons, change_eq, ih]
        rfl
  simp only [apply, names.scope_eq, names.kind_eq, names.request_eq, texts, Option.bind_some,
    Value.asArray_array, Value.asStr_string] at applied
  rw [made_eq] at applied
  rw [← Except.ok.inj applied, List.filterMap_map]
  rfl

/-- A claim's tokens are held by it from its event on. -/
theorem Names.taken (names : Names event scope kind requestId) (typeName_eq : event.typeName = commandClaimed)
    (applied : apply event given = .ok changes) (changed : Changed changes shows after) (token : String) :
    (after [.text token] =
      if token ∈ scope then some (canonicalForm (holder token event.seq kind requestId)) else shows [.text token]) ∧
      ∀ change ∈ changes, ∀ body, change.body = some body → body.WellFormed := by
  have changes_eq := names.changes_eq (fun token => some (.put [.text token] (holder token event.seq kind
    requestId))) (fun token => by simp [change, typeName_eq]) applied
  rw [List.filterMap_eq_map'] at changes_eq
  subst changes_eq
  refine ⟨?_, fun change change_mem body body_eq => ?_⟩
  · split_ifs with token_mem
    · refine changed.made (.put [.text token] (holder token event.seq kind requestId))
        (List.mem_map.mpr ⟨token, token_mem, rfl⟩) fun other other_mem key_eq => ?_
      obtain ⟨held, -, rfl⟩ := List.mem_map.mp other_mem
      obtain rfl : held = token := by simpa [Change.key] using key_eq
      rfl
    · refine changed.rest _ fun key_mem => token_mem ?_
      obtain ⟨other, other_mem, key_eq⟩ := List.mem_map.mp key_mem
      obtain ⟨held, held_mem, rfl⟩ := List.mem_map.mp other_mem
      obtain rfl : held = token := by simpa [Change.key] using key_eq
      exact held_mem
  · obtain ⟨held, -, rfl⟩ := List.mem_map.mp change_mem
    obtain rfl := Option.some.inj body_eq
    have claim_wellFormed : (Value.ofEntries
        [("seq", .ofNat event.seq), ("kind", .string kind), ("request_id", .string requestId)]).WellFormed :=
      Value.wellFormed_ofEntries (by simp)
    exact Value.wellFormed_ofEntries (by simp [claim_wellFormed])

/-- The tokens that a completed claim held are free after its completion. -/
theorem Names.freed (names : Names event scope kind requestId)
    (typeName_eq : event.typeName = commandCompleted) (read : Given shows (keys event) given)
    (applied : apply event given = .ok changes) (changed : Changed changes shows after)
    (held : ∀ token ∈ scope, ∃ seq, shows [.text token] = some (holder token seq kind requestId)) (token : String) :
    after [.text token] = (if token ∈ scope then none else shows [.text token]) ∧
      ∀ change ∈ changes, change.body = none := by
  have not_claimed : commandCompleted ≠ commandClaimed := by decide
  have changes_eq := names.changes_eq (fun token =>
    if given.any fun found => found.1 = [.text token] && ClaimScopeProjector.names found.2 kind requestId then
      some (.delete [.text token])
    else none) (fun token => by
      simp only [change, Value.asStr_string, typeName_eq, if_neg not_claimed]
      split_ifs <;> rfl) applied
  have deletes {change : Change} (change_mem : change ∈ changes) :
      ∃ token ∈ scope, change = .delete [.text token] := by
    rw [changes_eq] at change_mem
    obtain ⟨token, token_mem, made⟩ := List.mem_filterMap.mp change_mem
    split_ifs at made
    exact ⟨token, token_mem, (Option.some.inj made).symm⟩
  refine ⟨?_, fun change change_mem => ?_⟩
  · split_ifs with token_mem
    · have deleted : Change.delete [.text token] ∈ changes := by
        obtain ⟨seq, shows_eq⟩ := held token token_mem
        obtain ⟨found, found_mem, key_eq, form_eq⟩ := read.all [.text token]
          (names.keys_eq ▸ List.mem_map.mpr ⟨token, token_mem, rfl⟩) _ shows_eq
        rw [changes_eq]
        refine List.mem_filterMap.mpr ⟨token, token_mem, if_pos ?_⟩
        exact List.any_eq_true.mpr ⟨found, found_mem, by simp [key_eq, names_of_canonicalForm form_eq]⟩
      refine changed.made _ deleted fun other other_mem _ => ?_
      obtain ⟨_, -, rfl⟩ := deletes other_mem
      rfl
    · refine changed.rest _ fun key_mem => token_mem ?_
      obtain ⟨other, other_mem, key_eq⟩ := List.mem_map.mp key_mem
      obtain ⟨held_token, held_mem, rfl⟩ := deletes other_mem
      obtain rfl : held_token = token := by simpa [Change.key] using key_eq
      exact held_mem
  · obtain ⟨_, -, rfl⟩ := deletes change_mem
    rfl

end ClaimScopeProjector

namespace RequestProjector

variable {event : Event} {key : DocKey} {given : List (DocKey × Value)} {changes : List Change}

theorem apply_claimed (typeName_eq : event.typeName = commandClaimed) (key_eq : keyOf event = some key)
    {payload : ClaimedPayload} (payload_eq : ClaimedPayload.fromValue event.payload = some payload) :
    apply event given = .ok [.put key (claimedBody event payload)] := by
  simp [apply, key_eq, typeName_eq, payload_eq]

theorem apply_completed (typeName_eq : event.typeName = commandCompleted) (key_eq : keyOf event = some key) :
    apply event given = .ok [.put key (event.payload.set "state" (.string "completed"))] := by
  have not_claimed : commandCompleted ≠ commandClaimed := by decide
  have not_reconciled : commandCompleted ≠ commandReconciled := by decide
  simp [apply, key_eq, typeName_eq, not_claimed, not_reconciled]

theorem apply_reconciled (typeName_eq : event.typeName = commandReconciled) (key_eq : keyOf event = some key)
    {payload : ReconciledPayload} (payload_eq : ReconciledPayload.fromValue event.payload = some payload)
    (applied : apply event given = .ok changes) :
    (payload.resolution = .resolved → changes = []) ∧
      (payload.resolution = .awaitingOwner → ∃ body, (key, body) ∈ given ∧
        changes = [.put key (heldBody event payload.finding body)]) := by
  have not_claimed : commandReconciled ≠ commandClaimed := by decide
  simp only [apply, key_eq, typeName_eq, payload_eq, if_neg not_claimed, if_true] at applied
  constructor
  · intro resolution_eq
    rw [if_pos resolution_eq] at applied
    exact (Except.ok.inj applied).symm
  · intro resolution_eq
    rw [resolution_eq, if_neg (by decide)] at applied
    cases found : (given.find? fun found => found.1 = key).map Prod.snd with
    | none =>
        rw [found] at applied
        cases applied
    | some body =>
        rw [found] at applied
        obtain ⟨held, held_eq, rfl⟩ := Option.map_eq_some_iff.mp found
        have held_key : held.1 = key := by simpa using List.find?_some held_eq
        simp only at applied
        split_ifs at applied
        exact ⟨held.2, held_key ▸ List.mem_of_find?_eq_some held_eq, (Except.ok.inj applied).symm⟩

end RequestProjector

/-! ## What the store's own events do to the requests

Taking a claim opens a request and hands it its tokens, a completion closes one and frees them, and a
reconciliation that waits for the owner holds one.  Every other event leaves the requests as they are.
-/

/-- An open claim after a reconciliation at a sequence. -/
def OpenRequest.reconciled (claim : OpenRequest) (resolution : ReconciledResolution) (seq : Nat) : OpenRequest :=
  match resolution with
  | .resolved => claim
  | .awaitingOwner => { claim with heldAt := some seq }

namespace Work

/-- An event that the store's own projectors do not handle. -/
def Quiet (event : NewEvent) : Prop :=
  event.typeName ≠ commandClaimed ∧ event.typeName ≠ commandCompleted ∧ event.typeName ≠ commandReconciled

/-- The turn of a command on a project shows these documents in the store's own views. -/
structure Files (command : Command) (db : Db) (shown : Shown) (work : Work) : Prop where
  within : Within command db work
  sound : ∀ view ∈ ownViews, SoundOver work.rows.documents work.generation work.staged view
  shown_eq : ∀ view ∈ ownViews, work.shown view = shown view

variable {store : Store} {command : Command} {db : Db} {shown : Shown}
  {work after : Work} {event : NewEvent} {recorded copy : Event}

theorem Pushed.copy_typeName (pushed : Pushed store event work after recorded copy) :
    copy.typeName = event.typeName := by
  have copied := pushed.copied
  unfold Store.projectionCopy at copied
  rw [← pushed.records.typeName_eq]
  split_ifs at copied
  · rw [← Except.ok.inj copied]
  · obtain ⟨upcast, -, rfl⟩ := Except.map_eq_ok.mp copied
    rfl

/-- Projectors see the store's own events as they are recorded. -/
theorem Pushed.copy_eq (pushed : Pushed store event work after recorded copy)
    (owned : storeOwned event.typeName = true) : copy = recorded := by
  have copied := pushed.copied
  unfold Store.projectionCopy at copied
  rw [pushed.records.typeName_eq, if_pos owned] at copied
  split_ifs at copied
  exact (Except.ok.inj copied).symm

theorem Pushed.generation_eq (pushed : Pushed store event work after recorded copy) :
    after.generation = work.generation ∧ after.rows.documents = work.rows.documents := by
  rw [pushed.after_eq]
  exact ⟨rfl, rfl⟩

theorem mem_allProjectors_own (store : Store) {projector : Projector}
    (own : projector = claimScopeProjector ∨ projector = requestProjector) :
    projector ∈ store.allProjectors ∧ projector.spec.name ∈ ownViews := by
  rcases own with rfl | rfl <;> simp [Store.allProjectors, ownViews, claimScopeProjector, requestProjector,
    claimScopeSpec, requestSpec]

/-- A push folds its event into each of the store's own views. -/
theorem Files.folds (files : Files command db shown work)
    (pushed : Pushed store event work after recorded copy) {projector : Projector}
    (own : projector = claimScopeProjector ∨ projector = requestProjector) :
    Folds projector copy work.rows.documents work.generation work.staged after.staged := by
  obtain ⟨projector_mem, view_mem⟩ := mem_allProjectors_own store own
  exact Store.fold_eq_ok projector_mem (files.sound _ view_mem) pushed.folded

theorem Files.shown_after (pushed : Pushed store event work after recorded copy) (view : String) :
    after.shown view = shownOver work.rows.documents work.generation after.staged view := by
  obtain ⟨generation_eq, documents_eq⟩ := pushed.generation_eq
  rw [Work.shown, generation_eq, documents_eq]

/-- What an own projector that handles an event is given and does. -/
theorem Files.handled (files : Files command db shown work)
    (pushed : Pushed store event work after recorded copy) (projector : Projector)
    (own : projector = claimScopeProjector ∨ projector = requestProjector)
    (handles : projector.handles.contains event.typeName = true) :
    ∃ given changes, Given (shown projector.spec.name) (projector.keys copy) given ∧
      projector.apply copy given = .ok changes ∧
      Changed changes (shown projector.spec.name) (after.shown projector.spec.name) ∧
      ((∀ change ∈ changes, ∀ body, change.body = some body → body.WellFormed) →
        SoundOver work.rows.documents work.generation after.staged projector.spec.name) := by
  have shown_eq := files.shown_eq _ (mem_allProjectors_own store own).2
  cases files.folds pushed own with
  | unhandled other =>
      rw [pushed.copy_typeName, handles] at other
      cases other
  | @handled given changes _ read applied changed sound =>
      refine ⟨given, changes, shown_eq ▸ read, applied, ?_, sound⟩
      rw [shown_after pushed, ← shown_eq]
      exact changed

/-- What a push leaves of the turn, when what it stages in the store's own views can be written. -/
theorem Files.of_pushed (files : Files command db shown work)
    (pushed : Pushed store event work after recorded copy)
    (sound : ∀ view ∈ ownViews, SoundOver work.rows.documents work.generation after.staged view)
    (shown' : Shown) (shown_eq : ∀ view ∈ ownViews, after.shown view = shown' view) :
    Files command db shown' after := by
  obtain ⟨generation_eq, documents_eq⟩ := pushed.generation_eq
  refine ⟨?_, ?_, shown_eq⟩
  · rw [pushed.after_eq]
    exact ⟨files.within.1, files.within.2, files.within.3, files.within.4⟩
  · rw [generation_eq, documents_eq]
    exact sound

/-- A completion closes its request: a new one at once, or an open one, whose tokens are free again. -/
theorem Files.completed (files : Files command db shown work) (filed : shown.Filed) {id : ClaimId}
    {digest : Hash} {scope : List String} {outcome : Outcome} {git : Option GitFacts} {seq : Nat}
    (succeeded : completeFor store id.kind id.requestId digest scope outcome git work = .ok (seq, after))
    (wellFormed : outcome.answer.toValue.WellFormed)
    (held : shown.requests id = none ∧ scope = [] ∨
      ∃ claim, shown.requests.Opens id claim ∧ scope = claim.doc.scope) :
    ∃ shown', Files command db shown' after ∧
      shown'.Filed ∧ shown'.requests = shown.requests.put id (.closed (digest, outcome.recorded)) := by
  obtain ⟨recorded, copy, -, pushed⟩ := push_eq_ok succeeded
  have owned : storeOwned commandCompleted = true := by decide
  have copy_eq := pushed.copy_eq owned
  have typeName_eq : recorded.typeName = commandCompleted := pushed.records.typeName_eq
  have payload_eq : recorded.payload = completedPayloadFor id.kind id.requestId digest scope outcome :=
    pushed.records.payload_eq
  have inDomain := (Event.inDomain_of_computeHash pushed.computed).2
  have kind_eq : recorded.payload.get? "kind" = some (.string id.kind) := by
    simp [payload_eq, completedPayloadFor, Members.lookup_cons]
  have request_eq : recorded.payload.get? "request_id" = some (.string id.requestId) := by
    simp [payload_eq, completedPayloadFor, Members.lookup_cons]
  have scope_eq : recorded.payload.get? "scope" = some (texts scope) := by
    simp [payload_eq, completedPayloadFor, Members.lookup_cons]
  have answer_eq : recorded.payload.get? "answer" = some outcome.answer.toValue := by
    simp [payload_eq, completedPayloadFor, Members.lookup_cons]
  have answer_inDomain := inDomain.get? answer_eq
  -- The request's document.
  obtain ⟨_, changes, -, applied, request_changed, request_sound⟩ :=
    files.handled pushed requestProjector (.inr rfl)
      (show requestProjector.handles.contains commandCompleted = true by decide)
  have keyOf_eq : RequestProjector.keyOf recorded = some id.key := by
    simp [RequestProjector.keyOf, kind_eq, request_eq, ClaimId.key]
  rw [copy_eq] at applied
  obtain rfl := Except.ok.inj ((RequestProjector.apply_completed typeName_eq keyOf_eq).symm.trans applied)
  have body_wellFormed : (recorded.payload.set "state" (.string "completed")).WellFormed := by
    refine wellFormed_set ?_ _ (.string _)
    rw [payload_eq]
    exact wellFormed_completedPayloadFor _ _ _ _ wellFormed
  have state_eq := requestState_completed id digest scope answer_inDomain
  rw [← payload_eq] at state_eq
  -- The documents of its tokens.
  obtain ⟨given, changes, read, applied, scope_changed, scope_sound⟩ :=
    files.handled pushed claimScopeProjector (.inl rfl)
      (show claimScopeProjector.handles.contains commandCompleted = true by decide)
  rw [copy_eq] at read applied
  have names : ClaimScopeProjector.Names recorded scope id.kind id.requestId := ⟨scope_eq, kind_eq, request_eq⟩
  have holds : ∀ token ∈ scope, ∃ seq, shown claimScopeView [.text token] =
      some (ClaimScopeProjector.holder token seq id.kind id.requestId) := by
    intro token token_mem
    rcases held with ⟨-, rfl⟩ | ⟨claim, opens, rfl⟩
    · exact absurd token_mem List.not_mem_nil
    · exact ⟨_, filed.holder_eq opens token_mem⟩
  have freed (token : String) := names.freed typeName_eq read applied scope_changed holds token
  have sound : ∀ view ∈ ownViews, SoundOver work.rows.documents work.generation after.staged view := by
    refine List.forall_mem_cons.mpr ⟨scope_sound fun change change_mem body body_eq => ?_,
      List.forall_mem_singleton.mpr (request_sound fun change change_mem body body_eq => ?_)⟩
    · rw [(freed "").2 change change_mem] at body_eq
      cases body_eq
    · rw [List.mem_singleton.mp change_mem] at body_eq
      exact Option.some.inj body_eq ▸ body_wellFormed
  refine ⟨after.shown, ?_, ?_⟩
  · exact files.of_pushed pushed sound _ fun _ _ => rfl
  · have standing_eq : (RequestState.completed digest outcome.recorded).standing =
        .closed (digest, outcome.recorded) := rfl
    obtain ⟨holder, directory, shows⟩ := filed.directory
    rw [← standing_eq]
    rcases held with ⟨free, rfl⟩ | ⟨claim, opens, rfl⟩
    · refine filed.put request_changed.put state_eq (fun claim opened => by cases opened)
        (directory.answer free _) fun token => ?_
      refine (freed token).1.trans ?_
      rw [if_neg List.not_mem_nil]
      exact shows token
    · refine filed.put request_changed.put state_eq (fun claim opened => by cases opened)
        (directory.close opens _) fun token => ?_
      refine (freed token).1.trans ?_
      change _ = Option.map _ (if token ∈ claim.doc.scope then none else holder token)
      split_ifs
      · rfl
      · exact shows token

/-- Taking a claim opens its request and hands it its tokens. -/
theorem Files.taken (files : Files command db shown work) (filed : shown.Filed)
    {payload : ClaimedPayload} {stream : StreamName} {git : Option GitFacts} {attachments : List PayloadRef}
    {seq : Nat}
    (succeeded : push store
      { stream, typeName := commandClaimed, typeVersion := commandClaimedVersion, git
        payload := payload.toValue, attachments } work = .ok (seq, after))
    (wellFormed : payload.intent.WellFormed) (free : shown.requests ⟨payload.kind, payload.requestId⟩ = none)
    (apart : ∀ token ∈ payload.scope, shown claimScopeView [.text token] = none) :
    ∃ shown', Files command db shown' after ∧ shown'.Filed ∧
      shown'.requests = shown.requests.put ⟨payload.kind, payload.requestId⟩
        (.opened ⟨payload.doc seq command.recordedAt, none⟩) := by
  obtain ⟨recorded, copy, rfl, pushed⟩ := push_eq_ok succeeded
  have owned : storeOwned commandClaimed = true := by decide
  have copy_eq := pushed.copy_eq owned
  have typeName_eq : recorded.typeName = commandClaimed := pushed.records.typeName_eq
  have payload_eq : recorded.payload = payload.toValue := pushed.records.payload_eq
  have recordedAt_eq : recorded.recordedAt = command.recordedAt := by
    rw [pushed.records.recordedAt_eq, files.within.command_eq]
  have seq_inDomain : InDomain (.ofNat recorded.seq) := recorded.inDomain_seq (Event.inDomain_of_computeHash pushed.computed).1
  have names : ClaimScopeProjector.Names recorded payload.scope payload.kind payload.requestId :=
    ⟨by simp [payload_eq, ClaimedPayload.toValue, Members.lookup_cons],
      by simp [payload_eq, ClaimedPayload.toValue, Members.lookup_cons],
      by simp [payload_eq, ClaimedPayload.toValue, Members.lookup_cons]⟩
  obtain ⟨_, changes, -, applied, request_changed, request_sound⟩ :=
    files.handled pushed requestProjector (.inr rfl)
      (show requestProjector.handles.contains commandClaimed = true by decide)
  have keyOf_eq : RequestProjector.keyOf recorded = some (ClaimId.key ⟨payload.kind, payload.requestId⟩) := by
    simp [RequestProjector.keyOf, names.kind_eq, names.request_eq, ClaimId.key]
  rw [copy_eq] at applied
  obtain rfl := Except.ok.inj ((RequestProjector.apply_claimed typeName_eq keyOf_eq
    (payload_eq ▸ payload.fromValue_toValue)).symm.trans applied)
  have body_wellFormed : (RequestProjector.claimedBody recorded payload).WellFormed := by
    have claim_wellFormed : (Value.ofEntries
        [("seq", .ofNat recorded.seq), ("claimed_at", .string recorded.recordedAt),
          ("scope", texts payload.scope), ("owner", payload.owner.toValue),
          ("intent", payload.intent)]).WellFormed :=
      Value.wellFormed_ofEntries (by simp [wellFormed])
    exact Value.wellFormed_ofEntries (by simp [claim_wellFormed])
  obtain ⟨_, _, -, applied, scope_changed, scope_sound⟩ :=
    files.handled pushed claimScopeProjector (.inl rfl)
      (show claimScopeProjector.handles.contains commandClaimed = true by decide)
  rw [copy_eq] at applied
  have taken (token : String) := names.taken typeName_eq applied scope_changed token
  have sound : ∀ view ∈ ownViews, SoundOver work.rows.documents work.generation after.staged view := by
    refine List.forall_mem_cons.mpr ⟨scope_sound (taken "").2,
      List.forall_mem_singleton.mpr (request_sound fun change change_mem body body_eq => ?_)⟩
    rw [List.mem_singleton.mp change_mem] at body_eq
    exact Option.some.inj body_eq ▸ body_wellFormed
  refine ⟨after.shown, ?_, ?_⟩
  · exact files.of_pushed pushed sound _ fun _ _ => rfl
  · obtain ⟨holder, directory, shows⟩ := filed.directory
    have free_holder : ∀ token ∈ payload.scope, holder token = none := by
      intro token token_mem
      have unheld := apart token token_mem
      rw [shows] at unheld
      exact Option.map_eq_none_iff.mp unheld
    have state_eq := requestState_claimedBody payload seq_inDomain
    rw [recordedAt_eq] at state_eq
    refine filed.put request_changed.put state_eq (fun claim opened => ?_)
      (directory.take free ⟨payload.doc recorded.seq command.recordedAt, none⟩ free_holder) fun token => ?_
    · obtain rfl := Standing.opened.inj opened
      rfl
    · refine (taken token).1.trans ?_
      change _ = Option.map _ (if token ∈ payload.scope then _ else holder token)
      split_ifs
      · exact congrArg some (canonicalForm_holder _ _ _ seq_inDomain)
      · exact shows token

/-- A view whose projector does not handle an event shows what it showed. -/
theorem Files.unhandled (files : Files command db shown work)
    (pushed : Pushed store event work after recorded copy) (projector : Projector)
    (own : projector = claimScopeProjector ∨ projector = requestProjector)
    (other : projector.handles.contains event.typeName = false) :
    SoundOver work.rows.documents work.generation after.staged projector.spec.name ∧
      after.shown projector.spec.name = shown projector.spec.name := by
  have view_mem := (mem_allProjectors_own store own).2
  cases files.folds pushed own with
  | unhandled _ same =>
      refine ⟨(files.sound _ view_mem).congr same, ?_⟩
      rw [shown_after pushed, shownOver_congr same]
      exact files.shown_eq _ view_mem
  | handled handles =>
      rw [pushed.copy_typeName, other] at handles
      cases handles

/-- An event the store's own projectors do not handle leaves their views alone. -/
theorem Files.quiet (files : Files command db shown work) (quiet : Quiet event)
    (pushed : Pushed store event work after recorded copy) : Files command db shown after := by
  obtain ⟨claimed, completed, reconciled⟩ := quiet
  obtain ⟨scope_sound, scope_eq⟩ := files.unhandled pushed claimScopeProjector (.inl rfl)
    (by simp [claimScopeProjector, claimed, completed])
  obtain ⟨request_sound, request_eq⟩ := files.unhandled pushed requestProjector (.inr rfl)
    (by simp [requestProjector, claimed, completed, reconciled])
  exact files.of_pushed pushed
    (List.forall_mem_cons.mpr ⟨scope_sound, List.forall_mem_singleton.mpr request_sound⟩) shown
    (List.forall_mem_cons.mpr ⟨scope_eq, List.forall_mem_singleton.mpr request_eq⟩)

/-- A reconciliation leaves its claim open, held for the owner when it waits for the owner. -/
theorem Files.reconciled (files : Files command db shown work) (filed : shown.Filed)
    {payload : ReconciledPayload} {claim : OpenRequest} (opens : shown.requests.Opens payload.claim claim)
    {stream : StreamName} {git : Option GitFacts} {attachments : List PayloadRef} {seq : Nat}
    (succeeded : push store
      { stream, typeName := commandReconciled, typeVersion := commandReconciledVersion, git
        payload := payload.toValue, attachments } work = .ok (seq, after))
    (wellFormed : payload.finding.WellFormed) :
    ∃ shown', Files command db shown' after ∧ shown'.Filed ∧
      shown'.requests = shown.requests.put payload.claim (.opened (claim.reconciled payload.resolution seq)) := by
  obtain ⟨recorded, copy, rfl, pushed⟩ := push_eq_ok succeeded
  have copy_eq := pushed.copy_eq (show storeOwned commandReconciled = true by decide)
  have typeName_eq : recorded.typeName = commandReconciled := pushed.records.typeName_eq
  have payload_eq : recorded.payload = payload.toValue := pushed.records.payload_eq
  obtain ⟨envelope_inDomain, inDomain⟩ := Event.inDomain_of_computeHash pushed.computed
  have seq_inDomain := Event.inDomain_seq envelope_inDomain
  have claimSeq_eq : recorded.payload.get? "claim_seq" = some (.ofNat payload.claimSeq) := by
    simp [payload_eq, ReconciledPayload.toValue, Members.lookup_cons]
  have payload_read : ReconciledPayload.fromValue recorded.payload = some payload := by
    rw [payload_eq]
    exact payload.fromValue_toValue (lt_of_inDomain_ofNat (inDomain.get? claimSeq_eq))
  have keyOf_eq : RequestProjector.keyOf recorded = some payload.claim.key := by
    simp [RequestProjector.keyOf, payload_eq, ReconciledPayload.toValue, Members.lookup_cons, ClaimId.key]
  obtain ⟨scope_sound, scope_eq⟩ := files.unhandled pushed claimScopeProjector (.inl rfl)
    (show claimScopeProjector.handles.contains commandReconciled = false by decide)
  obtain ⟨given, changes, read, applied, changed, request_sound⟩ :=
    files.handled pushed requestProjector (.inr rfl)
      (show requestProjector.handles.contains commandReconciled = true by decide)
  rw [copy_eq] at read applied
  obtain ⟨resolved, awaiting⟩ := RequestProjector.apply_reconciled typeName_eq keyOf_eq payload_read applied
  cases resolution_eq : payload.resolution with
  | resolved =>
      obtain rfl := resolved resolution_eq
      have request_eq : after.shown requestView = shown requestView :=
        funext fun key => changed.rest key List.not_mem_nil
      obtain ⟨after_filed, requests_eq⟩ := filed.congr scope_eq request_eq
      refine ⟨after.shown, ?_, after_filed, ?_⟩
      · exact files.of_pushed pushed (List.forall_mem_cons.mpr ⟨scope_sound,
          List.forall_mem_singleton.mpr (request_sound (by simp))⟩) _ fun _ _ => rfl
      · rw [requests_eq]
        exact (Function.update_eq_self_iff.mpr opens.symm).symm
  | awaitingOwner =>
      obtain ⟨body, body_mem, rfl⟩ := awaiting resolution_eq
      obtain ⟨found, body_wellFormed⟩ := read.shown _ body_mem
      obtain ⟨state, state_eq⟩ := filed.stated _ _ found
      have opened : state.standing = .opened claim :=
        Option.some.inj ((Shown.requests_eq found state_eq).symm.trans opens)
      have held_wellFormed : (RequestProjector.heldBody recorded payload.finding body).WellFormed :=
        wellFormed_set (wellFormed_set body_wellFormed _ (.string _)) _
          (Value.wellFormed_ofEntries (by simp [wellFormed]))
      have held_eq : requestState (canonicalForm (RequestProjector.heldBody recorded payload.finding body)) =
          some (.awaitingOwner claim.doc recorded.seq) := by
        rw [RequestProjector.heldBody, canonicalForm_set, canonicalForm_set, canonicalForm_string]
        exact requestState_held state_eq opened (lt_of_inDomain_ofNat seq_inDomain)
          (by simp [Members.lookup_cons])
          (by simp [Members.lookup_cons, canonicalForm_ofNat seq_inDomain])
      have sound : ∀ view ∈ ownViews, SoundOver work.rows.documents work.generation after.staged view := by
        refine List.forall_mem_cons.mpr ⟨scope_sound,
          List.forall_mem_singleton.mpr (request_sound fun change change_mem written written_eq => ?_)⟩
        rw [List.mem_singleton.mp change_mem] at written_eq
        exact Option.some.inj written_eq ▸ held_wellFormed
      refine ⟨after.shown, files.of_pushed pushed sound _ fun _ _ => rfl, ?_⟩
      obtain ⟨holder, directory, shows⟩ := filed.directory
      refine filed.put changed.put held_eq (fun kept kept_eq => ?_) (directory.hold opens rfl rfl) fun token => ?_
      · obtain rfl := Standing.opened.inj kept_eq
        exact filed.named _ claim opens
      · rw [show after.shown claimScopeView = shown claimScopeView from scope_eq]
        exact shows token

end Work

end Baley
