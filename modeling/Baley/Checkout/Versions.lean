import Baley.Checkout.Decided
import Baley.Ledger.Callers

/-!
# Checkout admissions and policy versions

Admissions and policy steps of one project, each reading outside and deciding inside a transaction,
in any order of their calls.
-/

namespace Baley

open Json Ledger Script
open Models (Host)

variable {port : Port} {command : Command} {before after : Ledger}

/-! ## One command -/

section Recorded

variable (checkout_mem : checkoutProjector ∈ port.allProjectors)
  (policy_mem : policyProjector ∈ port.allProjectors)

/-- A command whose observed policy stands carries the version it read. -/
theorem Ledger.Consistent.policyVersion_eq (consistent : before.Consistent) {checkout : String}
    {host : Option Host} {seen : Option Nat}
    (unmoved : (before.document policyView (policyKey checkout host)).map Document.producedSeq = seen) :
    seen.getD 0 = lastSequence (policyAt checkout host) before.events := by
  rw [← unmoved]
  exact (consistent.storedVersion_eq checkout host).2

include checkout_mem policy_mem in
/-- Recording a checkout that was judged against every row keeps what holds. -/
theorem Admission.Decided.consistent {admission : Admission} {drafted : Ledger}
    (decided : admission.Decided port command before drafted) (consistent : before.Consistent)
    (version_eq : command.policyVersion =
      lastSequence (policyAt admission.checkout.path none) before.events) : drafted.Consistent := by
  rcases decided with same | ⟨judged, complete, stamps, appended⟩
  · rw [same]
    exact consistent
  obtain ⟨unheld, no_fork⟩ := judgeCheckout_record judged
  have payload_eq := stamps.payload_eq
  refine consistent.append stamps.numbered ?_ ?_ ?_ ?_ appended checkout_mem policy_mem
  · intro _
    refine ⟨admission.checkout, payload_eq, stamps.policyVersion_eq.trans version_eq, ?_⟩
    intro last last_eq
    obtain ⟨document, found, body_eq⟩ := consistent.exists_document last_eq
    obtain ⟨path, _, held, key_eq, last_eq', _, held_eq, path_eq⟩ :=
      consistent.checkout_document found
    obtain rfl : admission.checkout.path = path := by
      simpa [checkoutKey] using key_eq
    obtain rfl := Option.some.inj (last_eq.symm.trans last_eq')
    refine ⟨held, held_eq, ?_⟩
    by_contra same
    push Not at same
    have holds : rowHolds admission.checkout document.body = true := by
      rw [body_eq, held_eq, rowHolds_seenPayload]
      cases held
      cases admission_eq : admission.checkout
      simp_all
    exact Bool.false_ne_true ((unheld _ (complete _ _ found)).symm.trans holds)
  · intro type_eq
    rw [stamps.typeName_eq] at type_eq
    exact absurd type_eq (by simp [Admission.seenEvent, checkoutSeen, policyEffective])
  · intro _ url url_eq path last url' other last_eq url_eq'
    obtain ⟨document, found, body_eq⟩ := consistent.exists_document last_eq
    have last_path := (seenAt_iff.mp (mem_of_lastOf last_eq).2).2
    rw [payload_eq] at url_eq
    refine no_fork url ((textOf_remoteUrl _).symm.trans url_eq) document.body
      (complete _ _ found) path url' ?_ ?_ ?_
    · rw [body_eq]
      exact last_path
    · rw [body_eq]
      exact url_eq'
    · rintro rfl
      refine absurd (seenAt_iff.mpr ⟨stamps.typeName_eq, ?_⟩) (Bool.eq_false_iff.mp other)
      rw [payload_eq]
      exact textOf_path _
  · intro kind requestId document found
    have domain : storeOwned checkoutSeen = false := by decide
    rw [request_append_of_domain (stamps.typeName_eq ▸ domain) appended] at found
    exact Or.inl found

include checkout_mem policy_mem in
/-- Recording a policy that was judged to differ keeps what holds. -/
theorem PolicyRecord.Decided.consistent {record : PolicyRecord} {drafted : Ledger} {version : Nat}
    (decided : record.Decided port command before drafted version) (consistent : before.Consistent)
    (version_eq : command.policyVersion =
      lastSequence (policyAt record.recorded.checkout record.recorded.host) before.events) :
    drafted.Consistent := by
  rcases decided with ⟨same, _⟩ | ⟨judged, stamps, _, appended⟩
  · rw [same]
    exact consistent
  refine consistent.append stamps.numbered ?_ ?_ ?_ ?_ appended checkout_mem policy_mem
  · intro type_eq
    rw [stamps.typeName_eq] at type_eq
    exact absurd type_eq (by simp [PolicyRecord.effectiveEvent, checkoutSeen, policyEffective])
  · intro _
    refine ⟨record.recorded, record.project, record.catalogVersion, stamps.payload_eq,
      stamps.policyVersion_eq.trans version_eq, fun last last_eq => ?_⟩
    cases found : before.document policyView record.key with
    | none =>
        have := consistent.policies record.key
        rw [show policyProjector.spec.name = policyView from rfl, found, lastDocument] at this
        rw [policyAt] at last_eq
        rw [PolicyRecord.key, last_eq] at this
        cases this
    | some document =>
        obtain ⟨event, event_eq, -, -, positive, -, version_read, compared⟩ :=
          consistent.policy_document found
        obtain rfl := Option.some.inj (last_eq.symm.trans event_eq)
        rw [found] at judged
        obtain ⟨member, member_mem, differs⟩ := judgePolicy_record judged version_read
          (Nat.pos_of_ne_zero positive)
          fun member member_mem => get?_effectivePayload _ _ _ member_mem
        refine ⟨member, member_mem, fun same => differs ?_⟩
        rw [compared member member_mem, same, stamps.payload_eq]
        rfl
  · intro type_eq
    rw [stamps.typeName_eq] at type_eq
    exact absurd type_eq (by simp [PolicyRecord.effectiveEvent, checkoutSeen, policyEffective])
  · intro kind requestId document found
    have domain : storeOwned policyEffective = false := by decide
    rw [request_append_of_domain (stamps.typeName_eq ▸ domain) appended] at found
    exact Or.inl found

/-- The version a recorded policy step notes is of an event of its checkout and host that holds the
policy it was given. -/
def PolicyRecord.Holds (record : PolicyRecord) (ledger : Ledger) (version : Nat) : Prop :=
  ∃ event ∈ ledger.events, event.seq = version ∧
    policyAt record.recorded.checkout record.recorded.host event = true ∧
    ∀ member ∈ comparedMembers, event.payload.get? member = record.payload.get? member

theorem PolicyRecord.Holds.grown {record : PolicyRecord} {version : Nat} {allowed : Event → Prop}
    (holds : record.Holds before version) (grown : Grown allowed before after) :
    record.Holds after version := by
  obtain ⟨event, event_mem, rest⟩ := holds
  exact ⟨event, grown.mem event_mem, rest⟩

/-- A stored policy that was judged to be the same is of an event that holds it. -/
theorem PolicyRecord.holds_of_unchanged {record : PolicyRecord} (consistent : before.Consistent)
    {version : Nat}
    (judged : judgePolicy record.payload
      ((before.document policyView record.key).map Document.body) = .unchanged version) :
    record.Holds before version := by
  obtain ⟨body, stored_eq, version_eq, compared⟩ := judgePolicy_unchanged judged
  obtain ⟨document, found, rfl⟩ := Option.map_eq_some_iff.mp stored_eq
  obtain ⟨event, last, -, -, -, -, version_read, members⟩ := consistent.policy_document found
  obtain ⟨event_mem, selected⟩ := mem_of_lastOf last
  refine ⟨event, event_mem, Option.some.inj (version_read.symm.trans version_eq), selected, ?_⟩
  intro member member_mem
  rw [compared member member_mem, members member member_mem]

theorem PolicyRecord.Decided.holds {record : PolicyRecord} {drafted : Ledger} {version : Nat}
    (decided : record.Decided port command before drafted version)
    (consistent : before.Consistent) : record.Holds drafted version := by
  rcases decided with ⟨same, judged⟩ | ⟨_, stamps, version_eq, appended⟩
  · rw [same]
    exact PolicyRecord.holds_of_unchanged consistent judged
  · refine ⟨_, (append_eq_ok.mp appended).2 ▸ List.mem_append_right _ List.mem_cons_self,
      version_eq.symm, ?_, fun member _ => by rw [stamps.payload_eq]; rfl⟩
    exact (policyAt_iff stamps.typeName_eq stamps.payload_eq).mpr ⟨rfl, rfl⟩

end Recorded

/-! ## One call -/

section Calls

variable (checkout_mem : checkoutProjector ∈ port.allProjectors)
  (policy_mem : policyProjector ∈ port.allProjectors)

/-- A request that has a document is not fresh. -/
theorem Ledger.Consistent.not_fresh (consistent : before.Consistent) {document : Document}
    (found : before.request command = some document) : ¬ before.Fresh command.requestId := by
  obtain ⟨event, event_mem, same⟩ :=
    consistent.requested command.kind command.requestId document found
  exact fun fresh => fresh event event_mem same

/-- What one event of a command grows the project by. -/
theorem Ledger.Stamps.own {new : NewEvent} {event : Event}
    (stamps : Stamps command new before event)
    (appended : before.append port.allProjectors event = .ok after) :
    Own command.requestId before after :=
  grown_append appended stamps.requestId_eq

include checkout_mem policy_mem in
/-- What the transaction of an admission does: it fails and records nothing, or it keeps what holds
and records under its own request. -/
theorem Admission.transacts {admission : Admission} {stored : Option Document}
    (consistent : before.Consistent) (fresh : before.Fresh command.requestId)
    (version_eq : command.policyVersion = (stored.map Document.producedSeq).getD 0)
    {reply : Except StoreError Recorded × Option Noted}
    (transacts : before.Transacts port command (admission.decide (admission.observed stored)) reply
      after) :
    after.Consistent ∧ Own command.requestId before after ∧
      ∀ error, Admission.resultOf reply = .error error → after.Fresh command.requestId := by
  rcases transacts with error | error | found | ⟨_, _, commits⟩
  · exact ⟨consistent, .refl _, fun _ _ => fresh⟩
  · exact ⟨consistent, .refl _, fun _ _ => fresh⟩
  · exact absurd fresh (consistent.not_fresh found)
  obtain ⟨rfl, rfl, decided⟩ := Admission.decided commits.decided
  obtain ⟨event, stamps, appended⟩ := commits.completed
  have unmoved := commits.unmoved.documents _ (List.mem_singleton.mpr rfl)
  have drafted_consistent := decided.consistent checkout_mem policy_mem consistent
    (version_eq.trans (consistent.policyVersion_eq unmoved))
  refine ⟨drafted_consistent.append_completed stamps appended checkout_mem policy_mem, ?_, ?_⟩
  · refine Grown.trans ?_ (stamps.own appended)
    rcases decided with same | ⟨_, _, seen_stamps, seen_appended⟩
    · rw [same]
      exact .refl _
    · exact seen_stamps.own seen_appended
  · intro error result_eq
    cases result_eq

include checkout_mem policy_mem in
/-- What the transaction of a policy step does, and what it tells its caller. -/
theorem PolicyRecord.transacts {record : PolicyRecord} {stored : Option Document}
    (consistent : before.Consistent) (fresh : before.Fresh command.requestId)
    (version_eq : command.policyVersion = (stored.map Document.producedSeq).getD 0)
    {reply : Except StoreError Recorded × Option Noted}
    (transacts : before.Transacts port command (record.decide (record.observed stored)) reply after) :
    after.Consistent ∧ Own command.requestId before after ∧
      ((∃ error, reply.1 = .error error ∧ after.Fresh command.requestId) ∨
        ∃ outcome head version, reply = (.ok (.new outcome head), some (.inForce version)) ∧
          record.Holds after version) := by
  rcases transacts with error | error | found | ⟨head, _, commits⟩
  · exact ⟨consistent, .refl _, Or.inl ⟨error, rfl, fresh⟩⟩
  · exact ⟨consistent, .refl _, Or.inl ⟨error, rfl, fresh⟩⟩
  · exact absurd fresh (consistent.not_fresh found)
  obtain ⟨version, rfl, observed_eq, -, decided⟩ := PolicyRecord.decided commits.decided
  obtain ⟨event, stamps, appended⟩ := commits.completed
  have observed_unmoved := commits.unmoved
  rw [observed_eq] at observed_unmoved
  have unmoved := observed_unmoved.documents _ (List.mem_singleton.mpr rfl)
  have drafted_consistent := decided.consistent checkout_mem policy_mem consistent
    (version_eq.trans (consistent.policyVersion_eq unmoved))
  refine ⟨drafted_consistent.append_completed stamps appended checkout_mem policy_mem, ?_, ?_⟩
  · refine Grown.trans ?_ (stamps.own appended)
    rcases decided with ⟨same, _⟩ | ⟨_, recorded_stamps, _, recorded_appended⟩
    · rw [same]
      exact .refl _
    · exact recorded_stamps.own recorded_appended
  · exact Or.inr ⟨_, head, version, rfl,
      (decided.holds consistent).grown (stamps.own appended)⟩

/-! ## One caller -/

/-- A call of the port in a project that holds what admissions and policy steps keep. -/
abbrev SafeCall (port : Port) (requestId : RequestId) {α : Type} (ends : Ledger → α → Prop) :
    Script (LedgerCall Noted) LedgerCall.Reply α → Ledger → Prop :=
  Script.Safe (LedgerCall.Performs port) Ledger.Consistent (Others requestId) (Own requestId) ends

theorem all_allRows {Op : Type} {Reply : Op → Type} {calls : Op → Prop}
    {find : IndexQuery → Script Op Reply (Except StoreError (Page Document))}
    (find_all : ∀ query, (find query).All calls fun _ => True) (pages : Nat) (rows : List Value)
    (cursor : Option String) : (allRows find pages rows cursor).All calls fun _ => True := by
  induction pages generalizing rows cursor with
  | zero => exact trivial
  | succ pages ih =>
      refine (find_all _).bind fun result _ => ?_
      cases result with
      | error error => exact trivial
      | ok page =>
          cases page_eq : page.next with
          | none => simp [page_eq, Script.All]
          | some next =>
              simp only [page_eq]
              exact ih _ _

/-- How an admission ends: an error, a fork included, and it recorded nothing. -/
def Admission.Ends (admission : Admission) (ledger : Ledger) (result : Except AdmitError Unit) :
    Prop :=
  ∀ error, result = .error error → ledger.Fresh admission.requestId

theorem Admission.Ends.others {admission : Admission} {result : Except AdmitError Unit}
    (ends : admission.Ends before result) (others : Others admission.requestId before after) :
    admission.Ends after result :=
  fun error result_eq => (ends error result_eq).others others

theorem Admission.command_eq_ok {admission : Admission} {policyVersion : Nat}
    (command_eq : admission.command policyVersion = .ok command) :
    command.requestId = admission.requestId ∧ command.policyVersion = policyVersion := by
  obtain ⟨digest, -, made⟩ := Except.bind_eq_ok.mp command_eq
  obtain rfl := Except.ok.inj made
  exact ⟨rfl, rfl⟩

include checkout_mem policy_mem in
theorem Admission.safe_admitOnce (admission : Admission) {ledger : Ledger}
    (ledger_consistent : ledger.Consistent) (ledger_fresh : ledger.Fresh admission.requestId) :
    SafeCall port admission.requestId admission.Ends admission.admitOnce ledger := by
  have fail {error : AdmitError} {ledger : Ledger} (fresh : ledger.Fresh admission.requestId) :
      SafeCall port admission.requestId admission.Ends (.done (.error error)) ledger :=
    fun later relied _ _ _ => fresh.others relied
  have find_reads (query : IndexQuery) :
      (Script.call (LedgerCall.find checkoutView query) Script.done :
        Script (LedgerCall Noted) LedgerCall.Reply (Except StoreError (Page Document))).All
          LedgerCall.IsRead fun _ => True := ⟨trivial, fun _ => trivial⟩
  refine Safe.bind (fun ledger => .refl ledger) ?_ ledger_consistent
  refine (LedgerCall.safe_reads (all_allRows find_reads _ _ _) (fun _ _ => Fresh.others)
    ledger_fresh).imp fun later result _ fresh => ?_
  cases result with
  | error error => exact fail fresh
  | ok rows =>
      intro before relied consistent reply after performs
      obtain ⟨rfl, read⟩ := performs
      refine ⟨consistent, .refl _, ?_⟩
      have after_fresh := fresh.others relied
      cases reply with
      | error error => exact fail after_fresh
      | ok stored =>
          obtain rfl := read stored rfl
          dsimp only
          split
          · split
            · exact fail after_fresh
            · next command command_eq =>
                obtain ⟨request_eq, version_eq⟩ := Admission.command_eq_ok command_eq
                intro before relied before_consistent reply last performs
                rw [← request_eq] at relied after_fresh
                have version_eq : command.policyVersion =
                    ((after.document policyView admission.key).map Document.producedSeq).getD 0 := by
                  obtain ⟨version_read, produced⟩ :=
                    consistent.storedVersion_eq admission.checkout.path none
                  exact version_eq.trans (version_read.trans produced.symm)
                obtain ⟨last_consistent, own, ends⟩ := Admission.transacts checkout_mem policy_mem
                  before_consistent (after_fresh.others relied) version_eq performs
                rw [request_eq] at own ends
                exact ⟨last_consistent, own, fun later relied _ error result_eq =>
                  (ends error result_eq).others relied⟩
          · exact fun later relied _ error result_eq => by cases result_eq

include checkout_mem policy_mem in
theorem Admission.safe (admission : Admission) {ledger : Ledger}
    (consistent : ledger.Consistent) (fresh : ledger.Fresh admission.requestId) :
    SafeCall port admission.requestId admission.Ends admission.admitCheckout ledger := by
  refine safe_retry (fun ledger => .refl ledger) (fun _ _ _ _ relied ends => ends.others relied)
    (fun state state_consistent state_fresh => ?_) _ consistent fresh
  refine (admission.safe_admitOnce checkout_mem policy_mem state_consistent state_fresh).imp
    fun later result _ ends => ⟨ends, fun tried => ?_⟩
  cases result with
  | ok done => cases tried
  | error error => exact ends error rfl

/-- How a policy step ends: an error and it recorded nothing, or a version that is in force. -/
def PolicyRecord.Ends (record : PolicyRecord) (ledger : Ledger) : Except StoreError Nat → Prop
  | .error _ => ledger.Fresh record.requestId
  | .ok version => record.Holds ledger version

theorem PolicyRecord.Ends.others {record : PolicyRecord} {result : Except StoreError Nat}
    (ends : record.Ends before result) (others : Others record.requestId before after) :
    record.Ends after result := by
  cases result with
  | error error => exact Fresh.others ends others
  | ok version => exact PolicyRecord.Holds.grown ends others

theorem PolicyRecord.command_eq_ok {record : PolicyRecord} {policyVersion : Nat}
    (command_eq : record.command policyVersion = .ok command) :
    command.requestId = record.requestId ∧ command.policyVersion = policyVersion := by
  obtain ⟨digest, -, made⟩ := Except.bind_eq_ok.mp command_eq
  obtain rfl := Except.ok.inj made
  exact ⟨rfl, rfl⟩

include checkout_mem policy_mem in
theorem PolicyRecord.safe_recordOnce (record : PolicyRecord) {ledger : Ledger}
    (ledger_fresh : ledger.Fresh record.requestId) :
    SafeCall port record.requestId record.Ends record.recordOnce ledger := by
  have ended {result : Except StoreError Nat} {ledger : Ledger} (ends : record.Ends ledger result) :
      SafeCall port record.requestId record.Ends (.done result) ledger :=
    fun later relied _ => ends.others relied
  intro before relied consistent reply after performs
  obtain ⟨rfl, read⟩ := performs
  refine ⟨consistent, .refl _, ?_⟩
  have after_fresh := ledger_fresh.others relied
  cases reply with
  | error error => exact ended after_fresh
  | ok stored =>
      obtain rfl := read stored rfl
      dsimp only
      split
      · next version judged => exact ended (PolicyRecord.holds_of_unchanged consistent judged)
      · split
        · exact ended after_fresh
        · next command command_eq =>
            obtain ⟨request_eq, version_eq⟩ := PolicyRecord.command_eq_ok command_eq
            intro before relied before_consistent reply last performs
            rw [← request_eq] at relied after_fresh
            have version_eq : command.policyVersion =
                ((after.document policyView record.key).map Document.producedSeq).getD 0 := by
              obtain ⟨version_read, produced⟩ :=
                consistent.storedVersion_eq record.recorded.checkout record.recorded.host
              exact version_eq.trans (version_read.trans produced.symm)
            obtain ⟨last_consistent, own, ends⟩ := PolicyRecord.transacts checkout_mem policy_mem
              before_consistent (after_fresh.others relied) version_eq performs
            rw [request_eq] at own ends
            refine ⟨last_consistent, own, ?_⟩
            rcases ends with ⟨error, reply_eq, fresh⟩ | ⟨outcome, head, version, rfl, holds⟩
            · obtain ⟨result, noted⟩ := reply
              obtain rfl : result = .error error := reply_eq
              exact ended fresh
            · exact ended holds

include checkout_mem policy_mem in
theorem PolicyRecord.safe (record : PolicyRecord) {ledger : Ledger}
    (consistent : ledger.Consistent) (fresh : ledger.Fresh record.requestId) :
    SafeCall port record.requestId record.Ends record.recordPolicy ledger := by
  refine safe_retry (fun ledger => .refl ledger) (fun _ _ _ _ relied ends => ends.others relied)
    (fun state _ state_fresh => ?_) _ consistent fresh
  refine (record.safe_recordOnce checkout_mem policy_mem state_fresh).imp
    fun later result _ ends => ⟨ends, fun tried => ?_⟩
  cases result with
  | ok version => cases tried
  | error error => exact ends

end Calls

end Baley
