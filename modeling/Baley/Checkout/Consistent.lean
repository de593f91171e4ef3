import Baley.Policy.Record

/-!
# What holds of the checkouts and policies of a project

Every recorded checkout differs from its path's row and carries the version of the policy stored for
it; the policies of one checkout and host form a chain.
-/

namespace Baley

open Json Ledger
open Models (Host)

/-- Whether an event recorded the checkout at a path. -/
def seenAt (path : String) : Event → Bool :=
  ofKey checkoutProjector CheckoutProjector.keyOf (checkoutKey path)

/-- Whether an event recorded the policy of a checkout and host. -/
def policyAt (checkout : String) (host : Option Host) : Event → Bool :=
  ofKey policyProjector PolicyProjector.keyOf (policyKey checkout host)

/-- The sequence of the last event selected, or 0. -/
def lastSequence (selects : Event → Bool) (events : List Event) : Nat :=
  (lastOf selects events).elim 0 Event.seq

/-- A recorded checkout differs from the one its path held, and carries the version of the policy
recorded for its path and no host. -/
def SeenRightly (before : List Event) (event : Event) : Prop :=
  event.typeName = checkoutSeen → ∃ checkout : Checkout, event.payload = seenPayload checkout ∧
    event.policyVersion = lastSequence (policyAt checkout.path none) before ∧
    ∀ last, lastOf (seenAt checkout.path) before = some last →
      ∃ held : Checkout, last.payload = seenPayload held ∧
        (held.rootCommit ≠ checkout.rootCommit ∨ held.remoteUrl ≠ checkout.remoteUrl)

/-- A recorded policy carries the sequence of the one before it for its checkout and host, and differs
from it. -/
def RecordedRightly (before : List Event) (event : Event) : Prop :=
  event.typeName = policyEffective →
    ∃ (recorded : RecordedPolicy) (project : ProjectId) (catalogVersion : Nat),
      event.payload = effectivePayload recorded project catalogVersion ∧
      event.policyVersion =
        lastSequence (policyAt recorded.checkout recorded.host) before ∧
      ∀ last, lastOf (policyAt recorded.checkout recorded.host) before = some last →
        ∃ member ∈ comparedMembers, last.payload.get? member ≠ event.payload.get? member

/-- What holds of a project whose checkouts and policies are recorded by admissions and policy steps
only. -/
structure Ledger.Consistent (ledger : Ledger) : Prop where
  numbered : Every Numbered ledger.events
  seen : Every SeenRightly ledger.events
  recorded : Every RecordedRightly ledger.events
  checkouts : ShowsLast checkoutProjector CheckoutProjector.keyOf Event.payload ledger
  policies : ShowsLast policyProjector PolicyProjector.keyOf PolicyProjector.bodyOf ledger
  one_url : ∀ path path' last last' url url',
    lastOf (seenAt path) ledger.events = some last →
    lastOf (seenAt path') ledger.events = some last' →
    textOf last.payload "remote_url" = some url → textOf last'.payload "remote_url" = some url' →
      url = url'
  requested : ∀ kind requestId document,
    ledger.document requestView [.text kind, .text requestId] = some document →
      ∃ event ∈ ledger.events, event.requestId = requestId

/-! ## Selecting events -/

theorem seenAt_iff {path : String} {event : Event} :
    seenAt path event = true ↔
      event.typeName = checkoutSeen ∧ textOf event.payload "path" = some path := by
  simp only [seenAt, ofKey, checkoutProjector, CheckoutProjector.keyOf, checkoutKey,
    List.contains_cons, List.contains_nil, Bool.or_false, Bool.and_eq_true, beq_iff_eq,
    decide_eq_true_eq, Option.map_eq_some_iff, List.cons.injEq, KeyValue.text.injEq, and_true,
    exists_eq_right]

theorem policyAt_typeName {checkout : String} {host : Option Host} {event : Event}
    (selected : policyAt checkout host event = true) : event.typeName = policyEffective := by
  simp only [policyAt, ofKey, policyProjector, List.contains_cons, List.contains_nil, Bool.or_false,
    Bool.and_eq_true, beq_iff_eq] at selected
  exact selected.1

theorem keyOf_effectivePayload {event : Event} {recorded : RecordedPolicy} {project : ProjectId}
    {catalogVersion : Nat}
    (payload_eq : event.payload = effectivePayload recorded project catalogVersion) :
    PolicyProjector.keyOf event = some (policyKey recorded.checkout recorded.host) := by
  cases host_eq : recorded.host with
  | none =>
      simp [PolicyProjector.keyOf, PolicyProjector.hostText, textOf, payload_eq, effectivePayload,
        host_eq, textOrNull, policyKey]
  | some host =>
      cases host
      simp [PolicyProjector.keyOf, PolicyProjector.hostText, textOf, payload_eq, effectivePayload,
        host_eq, textOrNull, policyKey, Host.name]

/-- A recorded policy is of its own checkout and host and no other. -/
theorem policyAt_iff {event : Event} {recorded : RecordedPolicy} {project : ProjectId}
    {catalogVersion : Nat} (type_eq : event.typeName = policyEffective)
    (payload_eq : event.payload = effectivePayload recorded project catalogVersion)
    {checkout : String} {host : Option Host} :
    policyAt checkout host event = true ↔ checkout = recorded.checkout ∧ host = recorded.host := by
  simp only [policyAt, ofKey, policyProjector, type_eq, keyOf_effectivePayload payload_eq,
    List.contains_cons, List.contains_nil, Bool.or_false, beq_self_eq_true, Bool.true_and,
    decide_eq_true_eq, Option.some.injEq]
  constructor
  · intro same
    obtain ⟨checkout_eq, host_eq⟩ := policyKey_injective same
    exact ⟨checkout_eq.symm, host_eq.symm⟩
  · rintro ⟨rfl, rfl⟩
    rfl

theorem get?_effectivePayload (recorded : RecordedPolicy) (project : ProjectId)
    (catalogVersion : Nat) {member : String} (member_mem : member ∈ comparedMembers) :
    ((effectivePayload recorded project catalogVersion).get? member).isSome = true := by
  simp only [comparedMembers, List.mem_cons, List.not_mem_nil, or_false] at member_mem
  rcases member_mem with rfl | rfl | rfl | rfl <;> simp [effectivePayload]

namespace Ledger

variable {port : Port} {ledger after : Ledger} {event : Event}

theorem lastSequence_append (selects : Event → Bool) (events : List Event) (event : Event) :
    lastSequence selects (events ++ [event]) =
      if selects event then event.seq else lastSequence selects events := by
  unfold lastSequence
  rw [lastOf_append]
  split <;> rfl

namespace Consistent

variable (consistent : ledger.Consistent)

include consistent in
/-- The policy document at a key is of the last recorded policy, and holds its sequence as its
version. -/
theorem policy_document {checkout : String} {host : Option Host} {document : Document}
    (found : ledger.document policyView (policyKey checkout host) = some document) :
    ∃ event, lastOf (policyAt checkout host) ledger.events = some event ∧
      document.producedSeq = event.seq ∧ document.body = PolicyProjector.bodyOf event ∧
      event.seq ≠ 0 ∧ event.seq < 2 ^ 64 ∧
      (document.body.get? "version").bind Value.asU64 = some event.seq ∧
      ∀ member ∈ comparedMembers, document.body.get? member = event.payload.get? member := by
  rw [show policyView = policyProjector.spec.name from rfl, consistent.policies, lastDocument,
    Option.map_eq_some_iff] at found
  obtain ⟨event, last, rfl⟩ := found
  obtain ⟨event_mem, selected⟩ := mem_of_lastOf last
  obtain ⟨before, seq_eq, seq_le⟩ := consistent.numbered.of_mem event_mem
  obtain ⟨_, rightly⟩ := consistent.recorded.of_mem event_mem
  obtain ⟨recorded, project, catalogVersion, payload_eq, -⟩ := rightly (policyAt_typeName selected)
  have small : event.seq < 2 ^ 64 := lt_of_le_of_lt seq_le (by decide)
  refine ⟨event, last, rfl, rfl, by omega, small, ?_, fun member member_mem => ?_⟩
  · simp [PolicyProjector.bodyOf, PolicyProjector.body, payload_eq, effectivePayload,
      Value.ofEntries, Value.set, Value.asU64_ofNat small]
  · exact get?_bodyOf (payload_eq.trans rfl) member_mem

include consistent in
/-- What a reader of the stored policy takes its version to be. -/
theorem storedVersion_eq (checkout : String) (host : Option Host) :
    ((ledger.document policyView (policyKey checkout host)).map Document.body).elim 0 storedVersion =
        lastSequence (policyAt checkout host) ledger.events ∧
      ((ledger.document policyView (policyKey checkout host)).map Document.producedSeq).getD 0 =
        lastSequence (policyAt checkout host) ledger.events := by
  cases found : ledger.document policyView (policyKey checkout host) with
  | none =>
      have none_last : lastOf (policyAt checkout host) ledger.events = none := by
        rw [show policyView = policyProjector.spec.name from rfl, consistent.policies, lastDocument,
          Option.map_eq_none_iff] at found
        exact found
      simp [lastSequence, none_last]
  | some document =>
      obtain ⟨event, last, produced_eq, -, -, -, version_eq, -⟩ := consistent.policy_document found
      simp [lastSequence, last, produced_eq, storedVersion, version_eq]

include consistent in
/-- A row of the checkout view is of the last checkout recorded at its path. -/
theorem checkout_document {key : DocKey} {document : Document}
    (found : ledger.document checkoutView key = some document) :
    ∃ path event checkout, key = checkoutKey path ∧
      lastOf (seenAt path) ledger.events = some event ∧ document.body = event.payload ∧
      event.payload = seenPayload checkout ∧ checkout.path = path := by
  rw [show checkoutView = checkoutProjector.spec.name from rfl, consistent.checkouts, lastDocument,
    Option.map_eq_some_iff] at found
  obtain ⟨event, last, rfl⟩ := found
  obtain ⟨event_mem, selected⟩ := mem_of_lastOf last
  have type_eq : event.typeName = checkoutSeen := by
    simp only [ofKey, checkoutProjector, List.contains_cons, List.contains_nil, Bool.or_false,
      Bool.and_eq_true, beq_iff_eq] at selected
    exact selected.1
  obtain ⟨_, rightly⟩ := consistent.seen.of_mem event_mem
  obtain ⟨checkout, payload_eq, -⟩ := rightly type_eq
  have key_eq : checkoutKey checkout.path = key := by
    simp only [ofKey, CheckoutProjector.keyOf, payload_eq, textOf_path, Option.map_some,
      Option.some.injEq, Bool.and_eq_true, decide_eq_true_eq] at selected
    exact selected.2
  refine ⟨checkout.path, event, checkout, key_eq.symm, ?_, rfl, payload_eq, rfl⟩
  rw [seenAt, key_eq]
  exact last

include consistent in
/-- The row of a path that recorded a checkout. -/
theorem exists_document {path : String} {event : Event}
    (last : lastOf (seenAt path) ledger.events = some event) :
    ∃ document, ledger.document checkoutView (checkoutKey path) = some document ∧
      document.body = event.payload := by
  rw [show checkoutView = checkoutProjector.spec.name from rfl, consistent.checkouts, lastDocument]
  rw [seenAt] at last
  rw [last]
  exact ⟨_, rfl, rfl⟩

include consistent in
/-- Recording one more event as judged keeps what holds. -/
theorem append (numbered : Numbered ledger.events event)
    (seen : SeenRightly ledger.events event) (recorded : RecordedRightly ledger.events event)
    (same_url : event.typeName = checkoutSeen → ∀ url, textOf event.payload "remote_url" = some url →
      ∀ path last url', seenAt path event = false → lastOf (seenAt path) ledger.events = some last →
        textOf last.payload "remote_url" = some url' → url' = url)
    (requested : ∀ kind requestId document,
      after.document requestView [.text kind, .text requestId] = some document →
        ledger.document requestView [.text kind, .text requestId] = some document ∨
          event.requestId = requestId)
    (appended : ledger.append port.allProjectors event = .ok after)
    (checkout_mem : checkoutProjector ∈ port.allProjectors)
    (policy_mem : policyProjector ∈ port.allProjectors) : after.Consistent := by
  have events_eq := (append_eq_ok.mp appended).2
  refine
    { numbered := ?_, seen := ?_, recorded := ?_
      checkouts := consistent.checkouts.append checkout_keepsLast checkout_mem appended
      policies := consistent.policies.append policy_keepsLast policy_mem appended
      one_url := ?_, requested := ?_ }
  · rw [events_eq]
    exact consistent.numbered.append numbered
  · rw [events_eq]
    exact consistent.seen.append seen
  · rw [events_eq]
    exact consistent.recorded.append recorded
  · intro path path' last last' url url' last_eq last_eq' url_eq url_eq'
    rw [events_eq, lastOf_append] at last_eq last_eq'
    have is_seen {path : String} (selected : seenAt path event = true) :
        event.typeName = checkoutSeen := (seenAt_iff.mp selected).1
    split_ifs at last_eq with selected
    · obtain rfl := Option.some.inj last_eq
      split_ifs at last_eq' with selected'
      · obtain rfl := Option.some.inj last_eq'
        exact Option.some.inj (url_eq.symm.trans url_eq')
      · exact (same_url (is_seen selected) url url_eq path' last' url'
          (Bool.eq_false_iff.mpr selected') last_eq' url_eq').symm
    · split_ifs at last_eq' with selected'
      · obtain rfl := Option.some.inj last_eq'
        exact same_url (is_seen selected') url' url_eq' path last url
          (Bool.eq_false_iff.mpr selected) last_eq url_eq
      · exact consistent.one_url path path' last last' url url' last_eq last_eq' url_eq url_eq'
  · intro kind requestId document found
    rcases requested kind requestId document found with found | same
    · obtain ⟨earlier, earlier_mem, same⟩ := consistent.requested kind requestId document found
      exact ⟨earlier, events_eq ▸ List.mem_append_left _ earlier_mem, same⟩
    · exact ⟨event, events_eq ▸ List.mem_append_right _ List.mem_cons_self, same⟩

include consistent in
/-- So does an event that is neither a checkout nor a policy. -/
theorem append_other (numbered : Numbered ledger.events event)
    (not_seen : event.typeName ≠ checkoutSeen) (not_policy : event.typeName ≠ policyEffective)
    (requested : ∀ kind requestId document,
      after.document requestView [.text kind, .text requestId] = some document →
        ledger.document requestView [.text kind, .text requestId] = some document ∨
          event.requestId = requestId)
    (appended : ledger.append port.allProjectors event = .ok after)
    (checkout_mem : checkoutProjector ∈ port.allProjectors)
    (policy_mem : policyProjector ∈ port.allProjectors) : after.Consistent :=
  consistent.append numbered (fun type_eq => absurd type_eq not_seen)
    (fun type_eq => absurd type_eq not_policy) (fun type_eq => absurd type_eq not_seen) requested
    appended checkout_mem policy_mem

include consistent in
/-- So does the completion of a request. -/
theorem append_completed {command : Command} {outcome : Outcome} {git : Option GitFacts}
    (stamps : Stamps command (completedEvent command outcome git) ledger event)
    (appended : ledger.append port.allProjectors event = .ok after)
    (checkout_mem : checkoutProjector ∈ port.allProjectors)
    (policy_mem : policyProjector ∈ port.allProjectors) : after.Consistent := by
  have type_eq : event.typeName = commandCompleted := stamps.typeName_eq
  refine consistent.append_other stamps.numbered (by rw [type_eq]; decide) (by rw [type_eq]; decide)
    ?_ appended checkout_mem policy_mem
  intro kind requestId document found
  rw [request_append_completed type_eq stamps.payload_eq appended] at found
  split_ifs at found with same
  · right
    rw [stamps.requestId_eq]
    simp only [List.cons.injEq, KeyValue.text.injEq, and_true] at same
    exact same.2.symm
  · exact Or.inl found

end Consistent

end Ledger

end Baley
