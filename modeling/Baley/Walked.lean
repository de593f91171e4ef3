import Baley.Report

/-!
# The walk, read off the list

Each part of the verifier's state after the events it accepted is a search of those events, and the
walk stops at the first event that does not fit.
-/

namespace Baley

variable {sha256 : List UInt8 → Hash} {anchor : Option Anchor}

namespace ChainVerifier

/-- The verdict that the events reach at the anchored sequence. -/
def reachedBy (events : List Event) (anchored : Anchor) : Option AnchorVerdict :=
  (events.find? fun event => event.seq = anchored.seq).map fun event =>
    if anchored.hash = event.hash then .matches
    else .rewritten anchored.seq anchored.hash event.hash

/-- When the project's own work after a sequence was first recorded. -/
def firstWorkAfter (events : List Event) (covered : Nat) : Option String :=
  (events.find? (workAfter covered)).map Event.recordedAt

/-- The verifier after the events it accepted, each part read off the list. -/
structure Walked (sha256 : List UInt8 → Hash) (anchor : Option Anchor) (events : List Event)
    (verifier : ChainVerifier) : Prop where
  accepted : Accepted sha256 anchor events verifier
  fits : ∀ i < events.length, Fits sha256 events i
  reached_eq : verifier.reached = anchor.bind (reachedBy events)
  firstWork_eq : verifier.firstWork = firstWorkAfter events (anchor.elim 0 Anchor.seq)
  acknowledged_sorted :
    verifier.acknowledged.Pairwise fun entry other => entry.1.seq < other.1.seq
  mem_acknowledged : ∀ restore,
    restore ∈ verifier.acknowledged.map Prod.fst ↔ Restores events restore
  age_eq : ∀ entry ∈ verifier.acknowledged, entry.2 = firstWorkAfter events entry.1.seq

theorem walked_new (anchor : Option Anchor) : Walked sha256 anchor [] (new anchor) where
  accepted := accepted_new anchor
  fits := by simp
  reached_eq := by cases anchor <;> rfl
  firstWork_eq := rfl
  acknowledged_sorted := List.Pairwise.nil
  mem_acknowledged := by
    intro restore
    have nothing : ¬ Restores [] restore := by
      rintro ⟨i, event, payload, owner, -⟩
      simpa using owner.at_eq
    simpa [new] using nothing
  age_eq := by simp [new]

theorem Accepted.recomputed_eq {events : List Event} {verifier : ChainVerifier}
    (accepted : Accepted sha256 anchor events verifier) {event : Event}
    (event_mem : event ∈ events) :
    recomputed sha256 event = some event.hash := by
  rw [recomputed, accepted.computed event event_mem]
  rfl

/-- The hash the next event links to is the recomputed hash of the last one. -/
theorem Accepted.link_eq {events back : List Event} {verifier : ChainVerifier}
    (accepted : Accepted sha256 anchor events verifier) :
    verifier.head.map Head.hash =
      (eventBefore (events ++ back) events.length).bind (recomputed sha256) := by
  rw [eventBefore_append le_rfl, eventBefore_length, accepted.head_eq]
  rcases List.eq_nil_or_concat' events with rfl | ⟨front, last, rfl⟩
  · rfl
  · have last_mem : last ∈ front ++ [last] := by simp
    simp [accepted.recomputed_eq last_mem]

/-- The verifier accepts exactly the event that fits the list after those it accepted. -/
theorem Accepted.check_ok_iff {events back : List Event} {event : Event} {verifier : ChainVerifier}
    (accepted : Accepted sha256 anchor events verifier) :
    verifier.check sha256 event = .ok event.hash ↔
      FitsAs sha256 (events ++ event :: back) events.length event := by
  have head_iff : (verifier.project.filter fun project => project ≠ event.projectId) = none ↔
      (events ++ event :: back).head?.map Event.projectId = some event.projectId := by
    rw [accepted.project_eq]
    cases events <;> simp
  have computed_iff : event.computeHash sha256 = .ok event.hash ↔
      recomputed sha256 event = some event.hash := by
    unfold recomputed
    cases event.computeHash sha256 <;> simp [Except.toOption]
  have link_eq : verifier.head.map Head.hash =
      (eventBefore (events ++ event :: back) events.length).bind (recomputed sha256) :=
    accepted.link_eq
  rw [check_eq_ok_iff, accepted.expectedSeq_eq, head_iff, link_eq, computed_iff]
  constructor
  · rintro ⟨seq_eq, project_eq, prev_eq, hash_eq, -⟩
    exact ⟨by simp, seq_eq, project_eq, prev_eq, hash_eq⟩
  · intro fits
    exact ⟨fits.seq_eq, fits.project_eq, fits.prev_eq, fits.hash_eq, rfl⟩

theorem Accepted.exists_check_ok_iff {events back : List Event} {event : Event}
    {verifier : ChainVerifier} (accepted : Accepted sha256 anchor events verifier) :
    (∃ hash, verifier.check sha256 event = .ok hash) ↔
      Fits sha256 (events ++ event :: back) events.length := by
  constructor
  · rintro ⟨hash, checks⟩
    obtain rfl := (check_eq_ok_iff.mp checks).2.2.2.2
    exact ⟨event, accepted.check_ok_iff.mp checks⟩
  · rintro ⟨found, fits⟩
    obtain rfl : found = event := by simpa using fits.at_eq.symm
    exact ⟨found.hash, accepted.check_ok_iff.mpr fits⟩

/-- The verifier takes an accepted event for an acknowledgement exactly when the list shows one. -/
theorem Accepted.acknowledgement_eq_some_iff {events : List Event} {event : Event}
    {verifier : ChainVerifier} (accepted : Accepted sha256 anchor events verifier)
    (seq_eq : event.seq = events.length + 1) {restore : AcknowledgedRestore} :
    verifier.acknowledgement event = some restore ↔
      ∃ payload, OwnerRestore (events ++ [event]) events.length event payload ∧
        restore = ⟨events.length + 1, payload.anchor,
          events.getLast?.map fun before => ⟨before.seq, before.hash⟩⟩ := by
  have head_seq : verifier.head.elim 0 Head.seq = events.length := by
    have next_eq := accepted.expectedSeq_eq
    unfold expectedSeq at next_eq
    cases head_eq : verifier.head with
    | none =>
        rw [head_eq, Option.elim_none] at next_eq
        rw [Option.elim_none]
        omega
    | some head =>
        rw [head_eq, Option.elim_some] at next_eq
        rw [Option.elim_some]
        omega
  have before_eq : (eventBefore (events ++ [event]) events.length).map Event.hash =
      verifier.head.map Head.hash := by
    rw [eventBefore_append le_rfl, eventBefore_length, accepted.head_eq, Option.map_map]
    rfl
  unfold acknowledgement
  constructor
  · intro restore_eq
    split_ifs at restore_eq with named
    obtain ⟨name_eq, version_eq, actor_eq⟩ := named
    obtain ⟨payload, payload_eq, restore_eq⟩ := Option.bind_eq_some_iff.mp restore_eq
    split_ifs at restore_eq with exact_parts
    obtain ⟨tag_eq, restoredSeq_eq, restoredHead_eq⟩ := exact_parts
    rw [head_seq] at restoredSeq_eq
    refine ⟨payload, ⟨by simp, name_eq, version_eq, actor_eq, payload_eq, tag_eq, restoredSeq_eq,
      restoredHead_eq.trans before_eq.symm⟩, ?_⟩
    rw [← Option.some.inj restore_eq, accepted.head_eq, seq_eq]
  · rintro ⟨payload, owner, rfl⟩
    have exact_parts : payload.tag = anchorTag event.projectId payload.seq ∧
        payload.restoredSeq = verifier.head.elim 0 Head.seq ∧
        payload.restoredHead = verifier.head.map Head.hash :=
      ⟨owner.tag_eq, owner.restoredSeq_eq.trans head_seq.symm,
        owner.restoredHead_eq.trans before_eq⟩
    rw [if_pos ⟨owner.name_eq, owner.version_eq, owner.actor_eq⟩, owner.exact_payload]
    simp only [Option.bind_eq_bind, Option.bind_some]
    rw [if_pos exact_parts, accepted.head_eq, seq_eq]

/-- The work that an event starts, where none was recorded before. -/
def startsWork (covered : Nat) (event : Event) (first : Option String) : Option String :=
  first.or (if workAfter covered event then some event.recordedAt else none)

theorem firstWorkAfter_append_singleton (events : List Event) (event : Event) (covered : Nat) :
    firstWorkAfter (events ++ [event]) covered =
      startsWork covered event (firstWorkAfter events covered) := by
  unfold firstWorkAfter startsWork
  rw [List.find?_append]
  cases events.find? (workAfter covered) with
  | some first => rfl
  | none => cases starts : workAfter covered event <;> simp [starts]

theorem accept_firstWork (verifier : ChainVerifier) {event : Event} (hash : Hash)
    (positive : 0 < event.seq) :
    (verifier.accept event hash).firstWork =
      startsWork (verifier.anchor.elim 0 Anchor.seq) event verifier.firstWork := by
  have past : verifier.anchor.all (fun anchor => anchor.seq < event.seq) =
      decide (verifier.anchor.elim 0 Anchor.seq < event.seq) := by
    cases verifier.anchor with
    | none => simp [positive]
    | some anchored => rfl
  simp only [accept, startsWork, workAfter, past]
  cases verifier.firstWork <;> simp [and_comm]

/-- An acknowledgement with the work that an event starts after it. -/
def startsWorkAfter (event : Event) (entry : AcknowledgedRestore × Option String) :
    AcknowledgedRestore × Option String :=
  (entry.1, startsWork entry.1.seq event entry.2)

theorem accept_acknowledged (verifier : ChainVerifier) (event : Event) (hash : Hash) :
    (verifier.accept event hash).acknowledged =
      (verifier.acknowledged ++
        ((verifier.acknowledgement event).map fun restore => (restore, none)).toList).map
        (startsWorkAfter event) := by
  simp only [accept]
  cases work : anchorCommandEvent event.typeName event.payload with
  | true =>
      rw [Bool.not_true, if_neg Bool.false_ne_true]
      refine (List.map_id' _).symm.trans (List.map_congr_left fun entry _ => ?_)
      simp [startsWorkAfter, startsWork, workAfter, work]
  | false =>
      rw [Bool.not_false, if_pos rfl]
      refine List.map_congr_left fun entry _ => ?_
      obtain ⟨restore, first⟩ := entry
      cases first <;> simp [startsWorkAfter, startsWork, workAfter, work]

theorem reachedBy_append_singleton (events : List Event) (event : Event) (anchored : Anchor) :
    reachedBy (events ++ [event]) anchored = (reachedBy events anchored).or
      (if anchored.seq = event.seq then
        some (if anchored.hash = event.hash then .matches
          else .rewritten anchored.seq anchored.hash event.hash)
      else none) := by
  unfold reachedBy
  rw [List.find?_append]
  cases events.find? fun event => event.seq = anchored.seq with
  | some reached => rfl
  | none => by_cases at_anchor : anchored.seq = event.seq <;> simp [at_anchor, eq_comm]

theorem Accepted.seq_le {events : List Event} {verifier : ChainVerifier}
    (accepted : Accepted sha256 anchor events verifier) {event : Event}
    (event_mem : event ∈ events) :
    0 < event.seq ∧ event.seq ≤ events.length := by
  obtain ⟨i, inside, rfl⟩ := List.getElem_of_mem event_mem
  have numbered := accepted.numbered i inside
  omega

/-- Accepting one more event. -/
theorem Walked.accept {events : List Event} {verifier : ChainVerifier}
    (walked : Walked sha256 anchor events verifier) {event : Event} {hash : Hash}
    (checks : verifier.check sha256 event = .ok hash) :
    Walked sha256 anchor (events ++ [event]) (verifier.accept event hash) := by
  have accepted := walked.accepted
  obtain ⟨seq_eq, -, -, -, rfl⟩ := check_eq_ok_iff.mp checks
  rw [accepted.expectedSeq_eq] at seq_eq
  have restore_seq : ∀ restore, restore ∈ verifier.acknowledged.map Prod.fst →
      restore.seq ≤ events.length :=
    fun restore restore_mem => ((walked.mem_acknowledged restore).mp restore_mem).seq_le
  have new_seq : ∀ restore, verifier.acknowledgement event = some restore →
      restore.seq = events.length + 1 := by
    intro restore restore_eq
    obtain ⟨payload, -, rfl⟩ := (accepted.acknowledgement_eq_some_iff seq_eq).mp restore_eq
    rfl
  refine
    { accepted := accepted.accept checks
      fits := ?_
      reached_eq := ?_
      firstWork_eq := ?_
      acknowledged_sorted := ?_
      mem_acknowledged := ?_
      age_eq := ?_ }
  · intro i inside
    by_cases earlier : i < events.length
    · exact (fits_append_iff earlier).mpr (walked.fits i earlier)
    · have i_eq : i = events.length := by
        rw [List.length_append, List.length_singleton] at inside
        omega
      subst i_eq
      exact accepted.exists_check_ok_iff.mp ⟨_, checks⟩
  · simp only [ChainVerifier.accept, verdictAt, accepted.anchor_eq]
    cases anchor with
    | none => exact walked.reached_eq
    | some anchored =>
        rw [Option.bind_some, reachedBy_append_singleton]
        have reached_eq := walked.reached_eq
        rw [Option.bind_some] at reached_eq
        rw [← reached_eq]
        by_cases at_anchor : anchored.seq = event.seq
        · -- No earlier event has the anchored sequence.
          have unreached : verifier.reached = none := by
            rw [reached_eq, reachedBy, Option.map_eq_none_iff, List.find?_eq_none]
            intro other other_mem
            have other_le := (accepted.seq_le other_mem).2
            simp only [decide_eq_true_eq]
            omega
          simp [at_anchor, unreached]
        · simp [at_anchor]
  · rw [accept_firstWork verifier event.hash (by omega), accepted.anchor_eq, walked.firstWork_eq,
      firstWorkAfter_append_singleton]
  · rw [accept_acknowledged, List.pairwise_map]
    refine List.pairwise_append.mpr ⟨walked.acknowledged_sorted, ?_, ?_⟩
    · cases verifier.acknowledgement event <;> simp
    · intro entry entry_mem other other_mem
      have entry_le := restore_seq entry.1 (List.mem_map_of_mem entry_mem)
      cases restore_eq : verifier.acknowledgement event with
      | none => simp [restore_eq] at other_mem
      | some restore =>
          have other_eq : other = (restore, none) := by simpa [restore_eq] using other_mem
          subst other_eq
          have restore_at := new_seq restore restore_eq
          simp only [startsWorkAfter]
          omega
  · intro restore
    rw [restores_append_singleton_iff, ← walked.mem_acknowledged restore,
      ← accepted.acknowledgement_eq_some_iff seq_eq, accept_acknowledged, List.map_map]
    have fst_eq : Prod.fst ∘ startsWorkAfter event = Prod.fst := rfl
    rw [fst_eq, List.map_append, List.mem_append]
    refine or_congr_right ?_
    cases verifier.acknowledgement event <;> simp [eq_comm]
  · rw [accept_acknowledged]
    intro entry entry_mem
    obtain ⟨before, before_mem, rfl⟩ := List.mem_map.mp entry_mem
    simp only [startsWorkAfter]
    rw [firstWorkAfter_append_singleton]
    rcases List.mem_append.mp before_mem with before_mem | before_mem
    · rw [walked.age_eq before before_mem]
    · cases restore_eq : verifier.acknowledgement event with
      | none => simp [restore_eq] at before_mem
      | some restore =>
          have before_eq : before = (restore, none) := by simpa [restore_eq] using before_mem
          subst before_eq
          -- No event before the acknowledgement is work after it.
          have idle : firstWorkAfter events restore.seq = none := by
            rw [firstWorkAfter, Option.map_eq_none_iff, List.find?_eq_none]
            intro other other_mem
            have other_le := (accepted.seq_le other_mem).2
            have restore_at := new_seq restore restore_eq
            have covered : ¬ restore.seq < other.seq := by omega
            simp [workAfter, covered]
          rw [idle]

/-- A walk accepts the events up to the first that does not fit. -/
theorem Walked.walk {before : List Event} {verifier : ChainVerifier}
    (walked : Walked sha256 anchor before verifier) (events : List Event) :
    ∃ front middle, Walked sha256 anchor (before ++ front) middle ∧
      (front = events ∧ verifier.walk sha256 events = middle ∨
        ∃ event back kind, events = front ++ event :: back ∧
          middle.check sha256 event = .error kind ∧
          verifier.walk sha256 events =
            { middle with firstBreak := some ⟨(before ++ front).length + 1, kind⟩ }) := by
  induction events generalizing before verifier with
  | nil => exact ⟨[], verifier, by simpa using walked, .inl ⟨rfl, rfl⟩⟩
  | cons event events ih =>
      have unbroken : verifier.firstBreak.isSome = false := by simp [walked.accepted.unbroken]
      cases checks : verifier.check sha256 event with
      | error kind =>
          refine ⟨[], verifier, by simpa using walked, .inr ⟨event, events, kind, rfl, checks, ?_⟩⟩
          simp [ChainVerifier.walk, push, unbroken, checks, walked.accepted.expectedSeq_eq]
      | ok hash =>
          have walk_eq : verifier.walk sha256 (event :: events) =
              (verifier.accept event hash).walk sha256 events := by
            simp [ChainVerifier.walk, push, unbroken, checks]
          obtain ⟨front, middle, front_walked, ends⟩ := ih (walked.accept checks)
          rw [List.append_assoc, List.singleton_append] at front_walked ends
          refine ⟨event :: front, middle, front_walked, ?_⟩
          rw [walk_eq]
          rcases ends with ⟨rfl, middle_eq⟩ | ⟨bad, back, kind, rfl, bad_checks, middle_eq⟩
          · exact .inl ⟨rfl, middle_eq⟩
          · exact .inr ⟨bad, back, kind, rfl, bad_checks, middle_eq⟩

end ChainVerifier

end Baley
