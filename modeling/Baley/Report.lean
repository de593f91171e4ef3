import Baley.Chain

/-!
# What the chain report says

The report is specified on the list itself: which events a good chain has, where the list first
departs from one, and which owner acknowledgements the accepted events hold.  The verifier reaches
that answer one event at a time.
-/

namespace Baley

open Json

/-- The hash an event's own fields give. -/
def recomputed (sha256 : List UInt8 → Hash) (event : Event) : Option Hash :=
  (event.computeHash sha256).toOption

/-- The event just before position `i`. -/
def eventBefore (events : List Event) : Nat → Option Event
  | 0 => none
  | i + 1 => events[i]?

/-- The event at position `i` is one a chain may hold there. -/
structure FitsAs (sha256 : List UInt8 → Hash) (events : List Event) (i : Nat) (event : Event) :
    Prop where
  at_eq : events[i]? = some event
  seq_eq : event.seq = i + 1
  project_eq : events.head?.map Event.projectId = some event.projectId
  prev_eq : event.prevHash = (eventBefore events i).bind (recomputed sha256)
  hash_eq : recomputed sha256 event = some event.hash

/-- Position `i` holds an event that a chain may hold there. -/
def Fits (sha256 : List UInt8 → Hash) (events : List Event) (i : Nat) : Prop :=
  ∃ event, FitsAs sha256 events i event

/-- The owner's acceptance of a restored chain at position `i`: it names the event before it. -/
structure OwnerRestore (events : List Event) (i : Nat) (event : Event)
    (payload : RestoreAcknowledgedPayload) : Prop where
  at_eq : events[i]? = some event
  name_eq : event.typeName = anchorRestoreAcknowledged
  version_eq : event.typeVersion = anchorRestoreAcknowledgedVersion
  actor_eq : event.actor = .owner
  exact_payload : RestoreAcknowledgedPayload.fromValue event.payload = some payload
  tag_eq : payload.tag = anchorTag event.projectId payload.seq
  restoredSeq_eq : payload.restoredSeq = i
  restoredHead_eq : payload.restoredHead = (eventBefore events i).map Event.hash

/-- An acknowledgement among the events. -/
def Restores (events : List Event) (restore : AcknowledgedRestore) : Prop :=
  ∃ i event payload, OwnerRestore events i event payload ∧ restore.seq = i + 1 ∧
    restore.anchor = payload.anchor ∧
    restore.restored = (eventBefore events i).map fun before => ⟨before.seq, before.hash⟩

/-- The latest acknowledgement of an anchor. -/
structure LatestRestore (events : List Event) (anchor : Anchor) (restore : AcknowledgedRestore) :
    Prop where
  restores : Restores events restore
  anchor_eq : restore.anchor = anchor
  latest : ∀ other, Restores events other → other.anchor = anchor → other.seq ≤ restore.seq

/-- No acknowledgement of an anchor is among the events. -/
def Unacknowledged (events : List Event) (anchor : Anchor) : Prop :=
  ∀ restore, Restores events restore → restore.anchor ≠ anchor

/-- The accepted event at the anchored sequence has this recomputed hash. -/
def ReachedWith (sha256 : List UInt8 → Hash) (front : List Event) (anchor : Anchor) (hash : Hash) :
    Prop :=
  ∃ event ∈ front, event.seq = anchor.seq ∧ recomputed sha256 event = some hash

/-- An event of the project's own work, after a sequence. -/
def workAfter (covered : Nat) (event : Event) : Bool :=
  covered < event.seq && !anchorCommandEvent event.typeName event.payload

/-- The last sequence that the anchor or its acknowledgement covers. -/
def ChainReport.covered (report : ChainReport) (anchor : Option Anchor) : Nat :=
  match report.anchor with
  | .acknowledged _ _ acknowledgedSeq => acknowledgedSeq
  | _ => anchor.elim 0 Anchor.seq

/-- The sequences of a report's unanchored range. -/
def ChainReport.IsUnanchored (report : ChainReport) (seq : Nat) : Prop :=
  ∃ first last, report.unanchored = some (first, last) ∧ first ≤ seq ∧ seq ≤ last

/-- The whole list was accepted and ends before the anchored sequence. -/
def EndsBefore (events front : List Event) (anchor : Anchor) : Prop :=
  front = events ∧ events.length < anchor.seq

/-- When each verdict stands, where `front` is the accepted events. -/
inductive Stands (sha256 : List UInt8 → Hash) (events front : List Event)
    (anchor : Option Anchor) (firstBreak : Option Break) : AnchorVerdict → Prop
  | noAnchor (absent : anchor = none) : Stands sha256 events front anchor firstBreak .noAnchor
  | matched {anchored : Anchor} (anchor_eq : anchor = some anchored)
      (reached : ReachedWith sha256 front anchored anchored.hash) :
      Stands sha256 events front anchor firstBreak .matches
  | unchecked {anchored : Anchor} {broken : Break} (anchor_eq : anchor = some anchored)
      (break_eq : firstBreak = some broken) (stopped : broken.seq ≤ anchored.seq) :
      Stands sha256 events front anchor firstBreak (.unchecked anchored.seq)
  | truncated {anchored : Anchor} (anchor_eq : anchor = some anchored)
      (ends : EndsBefore events front anchored) (unacknowledged : Unacknowledged front anchored) :
      Stands sha256 events front anchor firstBreak (.truncated anchored.seq events.length)
  | rewritten {anchored : Anchor} {found : Hash} (anchor_eq : anchor = some anchored)
      (reached : ReachedWith sha256 front anchored found) (another : found ≠ anchored.hash)
      (unacknowledged : Unacknowledged front anchored) :
      Stands sha256 events front anchor firstBreak
        (.rewritten anchored.seq anchored.hash found)
  | acknowledged {anchored : Anchor} {restore : AcknowledgedRestore}
      (anchor_eq : anchor = some anchored)
      (gap : EndsBefore events front anchored ∨
        ∃ found, ReachedWith sha256 front anchored found ∧ found ≠ anchored.hash)
      (latest : LatestRestore front anchored restore) :
      Stands sha256 events front anchor firstBreak
        (.acknowledged anchored.seq restore.restored restore.seq)

/-- What a report says about the events and an anchor, where `front` is the accepted events. -/
structure Declared (sha256 : List UInt8 → Hash) (events front : List Event)
    (anchor : Option Anchor) (report : ChainReport) : Prop where
  is_front : front <+: events
  fits : ∀ i < front.length, Fits sha256 events i
  firstBreak_none : report.firstBreak = none ↔ ∀ i < events.length, Fits sha256 events i
  whole : report.firstBreak = none → front = events
  firstBreak_some : ∀ broken, report.firstBreak = some broken →
    broken.seq = front.length + 1 ∧ front.length < events.length ∧
      ¬ Fits sha256 events front.length
  head_eq : report.head = front.getLast?.bind fun event =>
    (recomputed sha256 event).map fun hash => ⟨event.seq, hash⟩
  verdict_iff : ∀ verdict, report.anchor = verdict ↔
    Stands sha256 events front anchor report.firstBreak verdict
  unanchored : ∀ seq, report.IsUnanchored seq ↔
    report.covered anchor < seq ∧ ∃ event ∈ front, event.seq = seq
  unanchored_none : report.unanchored = none ↔ ∀ seq, ¬ report.IsUnanchored seq
  acknowledgedRestores_sorted : report.acknowledgedRestores.Pairwise (·.seq < ·.seq)
  mem_acknowledgedRestores : ∀ restore,
    restore ∈ report.acknowledgedRestores ↔ Restores front restore
  age_eq : report.ageUnanchoredSince =
    (front.find? (workAfter (report.covered anchor))).map Event.recordedAt

variable {sha256 : List UInt8 → Hash} {anchor : Option Anchor}

/-! ## Longer lists -/

theorem eventBefore_append {front back : List Event} {i : Nat} (inside : i ≤ front.length) :
    eventBefore (front ++ back) i = eventBefore front i := by
  cases i with
  | zero => rfl
  | succ i => exact List.getElem?_append_left inside

theorem eventBefore_length (events : List Event) :
    eventBefore events events.length = events.getLast? := by
  rcases List.eq_nil_or_concat' events with rfl | ⟨front, last, rfl⟩
  · rfl
  · simp [eventBefore]

theorem fitsAs_append_iff {front back : List Event} {i : Nat} (inside : i < front.length)
    {event : Event} :
    FitsAs sha256 (front ++ back) i event ↔ FitsAs sha256 front i event := by
  have at_eq : (front ++ back)[i]? = front[i]? := List.getElem?_append_left inside
  have head_eq : (front ++ back).head? = front.head? := by
    cases front with
    | nil => simp at inside
    | cons first rest => rfl
  have before_eq : eventBefore (front ++ back) i = eventBefore front i :=
    eventBefore_append inside.le
  constructor
  · intro fits
    exact ⟨at_eq ▸ fits.at_eq, fits.seq_eq, head_eq ▸ fits.project_eq, before_eq ▸ fits.prev_eq,
      fits.hash_eq⟩
  · intro fits
    exact ⟨at_eq.trans fits.at_eq, fits.seq_eq, head_eq.symm ▸ fits.project_eq,
      before_eq.symm ▸ fits.prev_eq, fits.hash_eq⟩

theorem fits_append_iff {front back : List Event} {i : Nat} (inside : i < front.length) :
    Fits sha256 (front ++ back) i ↔ Fits sha256 front i :=
  exists_congr fun _ => fitsAs_append_iff inside

theorem ownerRestore_append_iff {front back : List Event} {i : Nat} (inside : i < front.length)
    {event : Event} {payload : RestoreAcknowledgedPayload} :
    OwnerRestore (front ++ back) i event payload ↔ OwnerRestore front i event payload := by
  have at_eq : (front ++ back)[i]? = front[i]? := List.getElem?_append_left inside
  have before_eq : eventBefore (front ++ back) i = eventBefore front i :=
    eventBefore_append inside.le
  constructor
  · intro restore
    exact { restore with
      at_eq := at_eq ▸ restore.at_eq, restoredHead_eq := before_eq ▸ restore.restoredHead_eq }
  · intro restore
    exact { restore with
      at_eq := at_eq.trans restore.at_eq
      restoredHead_eq := before_eq.symm ▸ restore.restoredHead_eq }

/-- What the last event adds to the acknowledgements. -/
theorem restores_append_singleton_iff {front : List Event} {event : Event}
    {restore : AcknowledgedRestore} :
    Restores (front ++ [event]) restore ↔ Restores front restore ∨
      ∃ payload, OwnerRestore (front ++ [event]) front.length event payload ∧
        restore = ⟨front.length + 1, payload.anchor,
          front.getLast?.map fun before => ⟨before.seq, before.hash⟩⟩ := by
  constructor
  · rintro ⟨i, found, payload, owner, seq_eq, anchor_eq, restored_eq⟩
    have inside : i < (front ++ [event]).length :=
      (List.getElem?_eq_some_iff.mp owner.at_eq).1
    by_cases earlier : i < front.length
    · rw [eventBefore_append earlier.le] at restored_eq
      exact .inl ⟨i, found, payload, (ownerRestore_append_iff earlier).mp owner, seq_eq, anchor_eq,
        restored_eq⟩
    · have i_eq : i = front.length := by
        rw [List.length_append, List.length_singleton] at inside
        omega
      subst i_eq
      have found_eq : found = event := by simpa using owner.at_eq.symm
      subst found_eq
      rw [eventBefore_append le_rfl, eventBefore_length] at restored_eq
      refine .inr ⟨payload, owner, ?_⟩
      cases restore
      simp only at seq_eq anchor_eq restored_eq
      rw [seq_eq, anchor_eq, restored_eq]
  · rintro (⟨i, found, payload, owner, seq_eq, anchor_eq, restored_eq⟩ | ⟨payload, owner, rfl⟩)
    · have inside : i < front.length := (List.getElem?_eq_some_iff.mp owner.at_eq).1
      refine ⟨i, found, payload, (ownerRestore_append_iff inside).mpr owner, seq_eq, anchor_eq, ?_⟩
      rw [eventBefore_append inside.le, restored_eq]
    · refine ⟨front.length, event, payload, owner, rfl, rfl, ?_⟩
      rw [eventBefore_append le_rfl, eventBefore_length]

theorem Restores.seq_le {events : List Event} {restore : AcknowledgedRestore}
    (restores : Restores events restore) : restore.seq ≤ events.length := by
  obtain ⟨i, event, payload, owner, seq_eq, -, -⟩ := restores
  have inside : i < events.length := (List.getElem?_eq_some_iff.mp owner.at_eq).1
  omega

theorem Restores.eq_of_seq_eq {events : List Event} {restore other : AcknowledgedRestore}
    (restores : Restores events restore) (other_restores : Restores events other)
    (seq_eq : restore.seq = other.seq) : restore = other := by
  obtain ⟨i, event, payload, owner, at_eq, anchor_eq, restored_eq⟩ := restores
  obtain ⟨j, found, read, other_owner, other_at, other_anchor, other_restored⟩ := other_restores
  have position_eq : i = j := by omega
  subst position_eq
  obtain rfl := Option.some.inj (owner.at_eq.symm.trans other_owner.at_eq)
  obtain rfl := Option.some.inj (owner.exact_payload.symm.trans other_owner.exact_payload)
  cases restore
  cases other
  simp only at at_eq anchor_eq restored_eq other_at other_anchor other_restored
  rw [at_eq, anchor_eq, restored_eq, other_at, other_anchor, other_restored]

theorem LatestRestore.unique {events : List Event} {anchored : Anchor}
    {restore other : AcknowledgedRestore} (latest : LatestRestore events anchored restore)
    (other_latest : LatestRestore events anchored other) : restore = other :=
  latest.restores.eq_of_seq_eq other_latest.restores
    (le_antisymm (other_latest.latest restore latest.restores latest.anchor_eq)
      (latest.latest other other_latest.restores other_latest.anchor_eq))

end Baley
