import Baley.Store.Recorded
import Baley.Store.Retention

/-!
# What the operations of a turn do

Each operation of a command's turn is described once: what it checked, and which parts of the work
it changed.  An invariant of the turn is carried through these descriptions.
-/

namespace Baley

open Json

/-- What sealing a draft checks and gives. -/
theorem Event.seal_eq_ok {sha256 : List UInt8 → Hash} {project : ProjectId} {seq : Nat}
    {prev : Option Hash} {draft : EventDraft} {event : Event}
    (succeeded : Event.seal sha256 project seq prev draft = .ok event) :
    event.computeHash sha256 = .ok event.hash ∧
      event = { projectId := project, seq, stream := draft.stream
                streamVersion := draft.streamVersion, typeName := draft.typeName
                typeVersion := draft.typeVersion, actor := draft.actor, caller := draft.caller
                recordedAt := draft.recordedAt, requestId := draft.requestId, git := draft.git
                policyVersion := draft.policyVersion, payload := draft.payload, prevHash := prev
                hash := event.hash } := by
  unfold Event.seal at succeeded
  split_ifs at succeeded
  simp only at succeeded
  split at succeeded
  · cases succeeded
  · next hash computed =>
      obtain rfl := Except.ok.inj succeeded
      exact ⟨computed, rfl⟩

/-- An event that has a hash is in the domain, envelope and payload. -/
theorem Event.inDomain_of_computeHash {sha256 : List UInt8 → Hash} {event : Event} {hash : Hash}
    (computed : event.computeHash sha256 = .ok hash) :
    InDomain event.envelope ∧ InDomain event.payload := by
  simp only [Event.computeHash, Except.bind_eq_ok, Except.ok.injEq] at computed
  obtain ⟨envelope, envelope_eq, payload, payload_eq, -⟩ := computed
  exact ⟨(canonicalJson_eq_ok_iff.mp envelope_eq).1, (canonicalJson_eq_ok_iff.mp payload_eq).1⟩

namespace Work

/-! ## Placing an event -/

/-- The event a push records: the decision's, stamped by the command and placed after the head. -/
structure Records (work : Work) (event : NewEvent) (recorded : Event) : Prop where
  projectId_eq : recorded.projectId = work.command.project
  seq_eq : recorded.seq = work.nextSeq
  stream_eq : recorded.stream = event.stream
  streamVersion_eq : recorded.streamVersion = work.streamVersion event.stream + 1
  typeName_eq : recorded.typeName = event.typeName
  typeVersion_eq : recorded.typeVersion = event.typeVersion
  actor_eq : recorded.actor = work.command.actor
  caller_eq : recorded.caller = work.command.caller
  recordedAt_eq : recorded.recordedAt = work.command.recordedAt
  requestId_eq : recorded.requestId = work.command.requestId
  policyVersion_eq : recorded.policyVersion = work.command.policyVersion
  payload_eq : recorded.payload = event.payload
  prevHash_eq : recorded.prevHash = work.head.map Head.hash

/-- What a push did: it recorded one event, with its attachments checked, and folded its projection
copy into the staged documents. -/
structure Pushed (store : Store) (event : NewEvent) (work after : Work) (recorded copy : Event) :
    Prop where
  records : work.Records event recorded
  computed : recorded.computeHash store.sha256 = .ok recorded.hash
  readable : store.reads event.typeName event.typeVersion = true
  attached : work.checkAttachments event = .ok ()
  copied : store.projectionCopy recorded = .ok copy
  folded : store.fold work.rows.documents work.generation copy work.staged = .ok after.staged
  after_eq : after =
    { work with
      head := some ⟨recorded.seq, recorded.hash⟩, staged := after.staged
      streams := work.streams.insert event.stream recorded.streamVersion
      events := work.events ++ [(recorded, event.attachments)] }

variable {store : Store} {engine : Engine} {work after : Work}

theorem push_eq_ok {event : NewEvent} {seq : Nat}
    (succeeded : push store event work = .ok (seq, after)) :
    ∃ recorded copy, seq = recorded.seq ∧ Pushed store event work after recorded copy := by
  simp only [push, Except.bind_eq_ok, Except.require_eq_ok, Except.mapError_eq_ok,
    Except.ok.injEq, Prod.mk.injEq] at succeeded
  obtain ⟨-, readable, _, attached, recorded, sealed, copy, copied, staged, folded, rfl, rfl⟩ :=
    succeeded
  obtain ⟨computed, recorded_eq⟩ := Event.seal_eq_ok sealed
  have seq_eq : recorded.seq = work.nextSeq := by rw [recorded_eq]
  refine ⟨recorded, copy, seq_eq.symm, ?_⟩
  refine
    { records := ?_, computed, readable, attached, copied, folded, after_eq := ?_ }
  · rw [recorded_eq]
    exact ⟨rfl, rfl, rfl, rfl, rfl, rfl, rfl, rfl, rfl, rfl, rfl, rfl, rfl⟩
  · have version_eq : recorded.streamVersion = work.streamVersion event.stream + 1 := by
      rw [recorded_eq]
    rw [seq_eq, version_eq]

theorem appendDomain_eq_ok {event : NewEvent} {seq : Nat}
    (succeeded : appendDomain store event work = .ok (seq, after)) :
    storeOwned event.typeName = false ∧ push store event work = .ok (seq, after) := by
  unfold appendDomain at succeeded
  split_ifs at succeeded with owned
  exact ⟨by simpa using owned, succeeded⟩

end Work

/-! ## Storing a body -/

/-- Storing bytes found them whole, or put them under a hash that had no row. -/
theorem putPayload_eq_ok {store : Store} {db db' : Db} {bytes : List UInt8}
    {retention : RetentionClass} {reference : PayloadRef}
    (succeeded : putPayload store db bytes retention = .ok (reference, db')) :
    reference = { hash := store.sha256 bytes, bytes := bytes.length, retention } ∧
      ((∃ row, db.payloads.lookup reference.hash = some row ∧ row.isPresent = true ∧ db' = db) ∨
        (db.payloads.lookup reference.hash = none ∧
          db' = { db with
            payloads := db.payloads.insert reference.hash
              { bytes := bytes.length, body := .present bytes } })) := by
  unfold putPayload at succeeded
  simp only at succeeded
  split at succeeded
  · next row found =>
      split_ifs at succeeded with present
      obtain ⟨rfl, rfl⟩ := Prod.mk.inj (Except.ok.inj succeeded)
      exact ⟨rfl, Or.inl ⟨row, found, present, rfl⟩⟩
  · next found =>
      simp only [Except.bind_eq_ok, sqlInt_eq_ok, Except.ok.injEq, Prod.mk.injEq] at succeeded
      obtain ⟨length, ⟨-, rfl⟩, rfl, rfl⟩ := succeeded
      exact ⟨rfl, Or.inr ⟨found, rfl⟩⟩

/-- Whether an answer is small and not sensitive, so that its outcome carries it. -/
def Decision.StaysInline (decision : Decision) : Prop :=
  decision.sensitive = false ∧
    ∃ bytes, canonicalJson decision.answer = .ok bytes ∧ bytes.length ≤ inlineAnswerLimit

namespace Work

variable {store : Store} {engine : Engine} {work after : Work}

theorem putBody_eq_ok {bytes : List UInt8} {retention : RetentionClass} {reference : PayloadRef}
    (succeeded : putBody store bytes retention work = .ok (reference, after)) :
    ∃ db, putPayload store work.db bytes retention = .ok (reference, db) ∧
      after = { work with db, put := work.put ++ [reference.hash] } := by
  simp only [putBody, Except.bind_eq_ok, Except.ok.injEq, Prod.exists, Prod.mk.injEq] at succeeded
  obtain ⟨stored, db, put_eq, rfl, rfl⟩ := succeeded
  exact ⟨db, put_eq, rfl⟩

/-- An outcome is inline and small, or its text was stored as a body. -/
theorem outcome_eq_ok {decision : Decision} {result : Outcome}
    (succeeded : outcome store decision work = .ok (result, after)) :
    result.kind = decision.kind ∧
      ((decision.StaysInline ∧ result.answer = .inline decision.answer ∧ after = work) ∨
        ∃ bytes reference db, canonicalJson decision.answer = .ok bytes ∧
          result.answer = .stored reference ∧
          putPayload store work.db bytes .record = .ok (reference, db) ∧
          after = { work with db }) := by
  unfold outcome at succeeded
  split at succeeded
  · cases succeeded
  · next bytes written =>
      split_ifs at succeeded with inline
      · obtain ⟨rfl, rfl⟩ := Prod.mk.inj (Except.ok.inj succeeded)
        exact ⟨rfl, Or.inl ⟨⟨inline.1, bytes, written, inline.2⟩, rfl, rfl⟩⟩
      · simp only [Except.map_eq_ok, Prod.mk.injEq, Prod.exists] at succeeded
        obtain ⟨reference, db, put_eq, rfl, rfl⟩ := succeeded
        exact ⟨rfl, Or.inr ⟨bytes, reference, db, written, rfl, put_eq, rfl⟩⟩

/-! ## Operations that only check or note -/

theorem stageAnchor_eq_ok {anchor : Anchor} {tag remote observedAt : String} {done : Unit}
    (succeeded : stageAnchor anchor tag remote observedAt work = .ok (done, after)) :
    ∃ anchors, after = { work with anchors } := by
  simp only [stageAnchor, Except.bind_eq_ok, Except.require_eq_ok] at succeeded
  obtain ⟨-, -, -, -, succeeded⟩ := succeeded
  split at succeeded
  · simp only [Except.bind_eq_ok, Except.require_eq_ok, Except.ok.injEq, Prod.mk.injEq]
      at succeeded
    obtain ⟨-, -, -, rfl⟩ := succeeded
    exact ⟨work.anchors, rfl⟩
  · simp only [Except.ok.injEq, Prod.mk.injEq] at succeeded
    obtain ⟨-, rfl⟩ := succeeded
    exact ⟨_, rfl⟩

theorem recheck_eq_ok {observed : Observed} {done : Unit}
    (succeeded : recheck store observed work = .ok (done, after)) : after = work := by
  simp only [recheck, Except.bind_eq_ok, Except.ok.injEq, Prod.mk.injEq] at succeeded
  obtain ⟨-, -, -, -, -, -, -, rfl⟩ := succeeded
  rfl

theorem reading_eq_ok {α : Type} {read : Work → Except StoreError α} {value : α}
    (succeeded : reading read work = .ok (value, after)) : read work = .ok value ∧ after = work := by
  simp only [reading, Except.map_eq_ok, Prod.mk.injEq] at succeeded
  obtain ⟨found, read_eq, rfl, rfl⟩ := succeeded
  exact ⟨read_eq, rfl⟩

/-- A turn of a decision's operation that the engine may fail in succeeds only as the turn does. -/
theorem under_eq_ok {α : Type} {fault : Option StoreError} {turn : Turn α} {value : α}
    (succeeded : under fault turn work = .ok (value, after)) : turn work = .ok (value, after) := by
  cases fault with
  | none => exact succeeded
  | some error => cases succeeded

/-! ## Finding the claim to reconcile -/

/-- A request document that holds an open claim, and where it is held. -/
def HoldsOpen (document : Document) (doc : ClaimDoc) (held : Option Nat) : Prop :=
  match held with
  | none => requestState document.body = some (.claimed doc)
  | some seq => requestState document.body = some (.awaitingOwner doc seq)

theorem openClaimOf_eq_ok {id : ClaimId} {document : Document} {found : ClaimDoc × Option Nat}
    (succeeded : openClaimOf id document = .ok found) : HoldsOpen document found.1 found.2 := by
  unfold openClaimOf at succeeded
  split at succeeded
  · cases succeeded
  · next doc state_eq =>
      cases succeeded
      exact state_eq
  · next doc seq state_eq =>
      cases succeeded
      exact state_eq
  · cases succeeded

/-- A reconciliation found its claim open and interrupted, or held and the owner asks. -/
theorem reconcilable_eq_ok {command : Command} {id : ClaimId} {authority : ReconcileAuthority}
    {doc : ClaimDoc} {claim : Claim}
    (succeeded : reconcilable store command id authority work = .ok ((doc, claim), after)) :
    after = work ∧ ∃ document held,
      work.getDocument store requestView [.text id.kind, .text id.requestId] =
        .ok (some document) ∧
      HoldsOpen document doc held ∧ doc.id = id ∧ claim = claimFromDoc work.rows doc held ∧
      (claimState claim command.recordedAt = some .interrupted ∨
        claimState claim command.recordedAt = some .awaitingOwner ∧ authority = .owner) := by
  simp only [reconcilable, Except.bind_eq_ok, Except.require_eq_ok, Except.ofOption_eq_ok]
    at succeeded
  obtain ⟨found, read_eq, document, rfl, ⟨found_doc, held⟩, open_eq, -, id_eq, succeeded⟩ :=
    succeeded
  have holds_open := openClaimOf_eq_ok open_eq
  simp only at succeeded holds_open id_eq
  split at succeeded
  · cases succeeded
  · cases succeeded
  · next state_eq =>
      split_ifs at succeeded with automatic
      obtain ⟨found_eq, rfl⟩ := Prod.mk.inj (Except.ok.inj succeeded)
      obtain ⟨rfl, rfl⟩ := Prod.mk.inj found_eq
      refine ⟨rfl, document, held, read_eq, holds_open, id_eq, rfl, Or.inr ⟨state_eq, ?_⟩⟩
      cases authority with
      | automatic => exact absurd rfl automatic
      | owner => rfl
  · next state_eq =>
      obtain ⟨found_eq, rfl⟩ := Prod.mk.inj (Except.ok.inj succeeded)
      obtain ⟨rfl, rfl⟩ := Prod.mk.inj found_eq
      exact ⟨rfl, document, held, read_eq, holds_open, id_eq, rfl, Or.inl state_eq⟩

/-! ## Leases and references -/

theorem setLease_eq_ok {id : ClaimId} {seq : Nat} {renewedAt : String} {done : Unit}
    (succeeded : setLease id seq renewedAt work = .ok (done, after)) :
    after = work.setRows
      { work.rows with leases := work.rows.leases.insert id { claimSeq := seq, renewedAt } } := by
  simp only [setLease, Except.bind_eq_ok, sqlInt_eq_ok, Except.ok.injEq, Prod.mk.injEq]
    at succeeded
  obtain ⟨_, ⟨-, rfl⟩, -, rfl⟩ := succeeded
  rfl

/-- A release stamps a reference that stands, and leaves any other as it is. -/
theorem release_eq_ok {releasedSeq : Nat} {pair : Nat × Hash} {done : Unit}
    (succeeded : release releasedSeq pair work = .ok (done, after)) :
    after = work ∧ (∀ row, work.rows.refs.lookup pair = some row → row.releasedSeq.isSome = true) ∨
      ∃ row, work.rows.refs.lookup pair = some row ∧ row.releasedSeq = none ∧
        after = work.setRows
          { work.rows with
            refs := work.rows.refs.insert pair { row with releasedSeq := some releasedSeq } } := by
  simp only [release, Except.bind_eq_ok, sqlInt_eq_ok] at succeeded
  obtain ⟨_, ⟨-, rfl⟩, succeeded⟩ := succeeded
  split at succeeded
  · next missing =>
      obtain ⟨-, rfl⟩ := Prod.mk.inj (Except.ok.inj succeeded)
      refine Or.inl ⟨rfl, ?_⟩
      intro row found
      rw [missing] at found
      cases found
  · next row found =>
      split_ifs at succeeded with released
      · obtain ⟨-, rfl⟩ := Prod.mk.inj (Except.ok.inj succeeded)
        refine Or.inl ⟨rfl, ?_⟩
        intro other other_found
        rw [found] at other_found
        obtain rfl := Option.some.inj other_found
        exact released
      · obtain ⟨-, rfl⟩ := Prod.mk.inj (Except.ok.inj succeeded)
        exact Or.inr ⟨row, found, by simpa using released, rfl⟩

theorem reduceBody_eq_ok {hash excerpt : Hash} {kept : (Nat × Nat) × (Nat × Nat)} {done : Unit}
    (succeeded : reduceBody hash excerpt kept work = .ok (done, after)) :
    after = work ∧ (work.db.required hash = true ∨ work.db.payloads.lookup hash = none) ∨
      work.db.required hash = false ∧ excerpt ≠ hash ∧
        ∃ row, work.db.payloads.lookup hash = some row ∧
          after = work.setPayload hash { row with body := .reduced excerpt .record kept } := by
  unfold reduceBody at succeeded
  split_ifs at succeeded with required
  · obtain ⟨-, rfl⟩ := Prod.mk.inj (Except.ok.inj succeeded)
    exact Or.inl ⟨rfl, Or.inl required⟩
  · split at succeeded
    · next missing =>
        obtain ⟨-, rfl⟩ := Prod.mk.inj (Except.ok.inj succeeded)
        exact Or.inl ⟨rfl, Or.inr missing⟩
    · next row found =>
        simp only [Except.bind_eq_ok, Except.require_eq_ok, Except.ok.injEq, Prod.mk.injEq]
          at succeeded
        obtain ⟨-, differs, -, rfl⟩ := succeeded
        exact Or.inr ⟨by simpa using required, differs, row, found, rfl⟩

end Work

end Baley
