import Baley.Anchor
import Baley.HashChain
import Baley.Preimage

/-!
# The chain verifier

The verifier is fed one stored event at a time, recomputes every hash from the event's own fields,
and compares the result with an anchor.  What it accepts up to the anchored sequence is determined
by the anchor alone.
-/

namespace Baley

open Json

/-- What is wrong at the first bad sequence. -/
inductive BreakKind where
  | sequence (found : Nat)
  | project (expected : ProjectId)
  | prevHash (expected found : Option Hash)
  | hash (expected found : Hash)
  | canonical (error : CanonicalError)
  deriving DecidableEq

/-- The first bad position in the ledger and why. -/
structure Break where
  seq : Nat
  kind : BreakKind
  deriving DecidableEq

/-- How the recomputed chain compares with the anchor. -/
inductive AnchorVerdict where
  | noAnchor
  | matches
  | truncated (anchored head : Nat)
  | rewritten (seq : Nat) (anchored found : Hash)
  | acknowledged (anchored : Nat) (restored : Option Head) (acknowledgedSeq : Nat)
  | unchecked (anchored : Nat)
  deriving DecidableEq

/-- An owner accepted a gap behind a remote anchor at this event. -/
structure AcknowledgedRestore where
  seq : Nat
  anchor : Anchor
  restored : Option Head
  deriving DecidableEq

/-- The verifier's answer. -/
structure ChainReport where
  head : Option Head
  firstBreak : Option Break
  anchor : AnchorVerdict
  /-- First and last accepted sequence that no anchor covers. -/
  unanchored : Option (Nat × Nat)
  acknowledgedRestores : List AcknowledgedRestore
  ageUnanchoredSince : Option String

/-- Every event was accepted and the anchor, if any, matches. -/
def ChainReport.isIntact (report : ChainReport) : Bool :=
  report.firstBreak.isNone &&
    match report.anchor with
    | .noAnchor | .matches | .acknowledged .. => true
    | _ => false

/-- The pure verifier fed one stored event at a time. -/
structure ChainVerifier where
  anchor : Option Anchor
  head : Option Head
  project : Option ProjectId
  firstBreak : Option Break
  /-- Set when the walk accepts the anchored sequence. -/
  reached : Option AnchorVerdict
  acknowledged : List (AcknowledgedRestore × Option String)
  firstWork : Option String

namespace ChainVerifier

def new (anchor : Option Anchor) : ChainVerifier :=
  { anchor, head := none, project := none, firstBreak := none, reached := none, acknowledged := []
    firstWork := none }

def expectedSeq (verifier : ChainVerifier) : Nat :=
  verifier.head.elim 1 fun head => head.seq + 1

/-- The recomputed hash of an event that may come next, or what is wrong with it. -/
def check (sha256 : List UInt8 → Hash) (verifier : ChainVerifier) (event : Event) :
    Except BreakKind Hash :=
  if event.seq ≠ verifier.expectedSeq then .error (.sequence event.seq)
  else
    match verifier.project.filter fun project => project ≠ event.projectId with
    | some project => .error (.project project)
    | none =>
        if event.prevHash ≠ verifier.head.map Head.hash then
          .error (.prevHash (verifier.head.map Head.hash) event.prevHash)
        else
          match event.computeHash sha256 with
          | .error error => .error (.canonical error)
          | .ok expected =>
              if expected ≠ event.hash then .error (.hash expected event.hash) else .ok expected

/-- The owner's acceptance of a restored chain, when the event is one that fits the walk. -/
def acknowledgement (verifier : ChainVerifier) (event : Event) : Option AcknowledgedRestore := do
  if event.typeName = anchorRestoreAcknowledged ∧
      event.typeVersion = anchorRestoreAcknowledgedVersion ∧ event.actor = .owner then
    let payload ← RestoreAcknowledgedPayload.fromValue event.payload
    if payload.tag = anchorTag event.projectId payload.seq ∧
        payload.restoredSeq = verifier.head.elim 0 Head.seq ∧
        payload.restoredHead = verifier.head.map Head.hash then
      some { seq := event.seq, anchor := payload.anchor, restored := verifier.head }
    else none
  else none

/-- The verdict at the anchored sequence. -/
def verdictAt (verifier : ChainVerifier) (event : Event) (hash : Hash) : Option AnchorVerdict :=
  match verifier.anchor with
  | some anchor =>
      if anchor.seq = event.seq then
        some (if anchor.hash = hash then .matches else .rewritten anchor.seq anchor.hash hash)
      else verifier.reached
  | none => verifier.reached

/-- The walk after an accepted event. -/
def accept (verifier : ChainVerifier) (event : Event) (hash : Hash) : ChainVerifier :=
  let acknowledged := verifier.acknowledged ++
    ((verifier.acknowledgement event).map fun restore => (restore, none)).toList
  let work := !anchorCommandEvent event.typeName event.payload
  { verifier with
    project := some (verifier.project.getD event.projectId)
    head := some ⟨event.seq, hash⟩
    reached := verifier.verdictAt event hash
    firstWork :=
      if work ∧ verifier.firstWork.isNone ∧ (verifier.anchor.all fun anchor => anchor.seq < event.seq)
      then some event.recordedAt else verifier.firstWork
    acknowledged :=
      if work then
        acknowledged.map fun (restore, first) =>
          (restore, if restore.seq < event.seq ∧ first.isNone then some event.recordedAt else first)
      else acknowledged }

/-- Check the next event in stored order; false for the first bad position and every event after
it. -/
def push (sha256 : List UInt8 → Hash) (verifier : ChainVerifier) (event : Event) :
    ChainVerifier × Bool :=
  if verifier.firstBreak.isSome then (verifier, false)
  else
    match verifier.check sha256 event with
    | .error kind => ({ verifier with firstBreak := some ⟨verifier.expectedSeq, kind⟩ }, false)
    | .ok hash => (verifier.accept event hash, true)

/-- The last sequence a 64-bit counter holds. -/
def maxSequence : Nat := 2 ^ 64 - 1

def next (seq : Nat) : Option Nat :=
  if seq < maxSequence then some (seq + 1) else none

/-- The first sequence no anchor covers. -/
def unanchoredFrom (verifier : ChainVerifier) : Option Nat :=
  verifier.anchor.elim (some 1) fun anchor => next anchor.seq

/-- The verdict before any acknowledgement is looked at. -/
def verdict (verifier : ChainVerifier) : AnchorVerdict :=
  match verifier.anchor, verifier.reached with
  | none, _ => .noAnchor
  | some _, some verdict => verdict
  | some anchor, none =>
      if verifier.firstBreak.isSome then .unchecked anchor.seq
      else .truncated anchor.seq (verifier.head.elim 0 Head.seq)

/-- The last acknowledgement of the anchor, where the verdict leaves room for one. -/
def accepted (verifier : ChainVerifier) : Option (AcknowledgedRestore × Option String) :=
  match verifier.verdict with
  | .truncated .. | .rewritten .. =>
      verifier.acknowledged.reverse.find? fun (restore, _) =>
        verifier.anchor = some restore.anchor
  | _ => none

/-- The report for the events pushed so far. -/
def finish (verifier : ChainVerifier) : ChainReport :=
  let headSeq := verifier.head.elim 0 Head.seq
  let (anchor, since, age) :=
    match verifier.accepted with
    | some (restore, first) =>
        (AnchorVerdict.acknowledged restore.anchor.seq restore.restored restore.seq,
          next restore.seq, first)
    | none => (verifier.verdict, verifier.unanchoredFrom, verifier.firstWork)
  { head := verifier.head
    firstBreak := verifier.firstBreak
    anchor
    unanchored := (since.filter fun since => since ≤ headSeq).map fun since => (since, headSeq)
    acknowledgedRestores := verifier.acknowledged.map Prod.fst
    ageUnanchoredSince := age }

/-- Push events until one is refused. -/
def walk (sha256 : List UInt8 → Hash) (verifier : ChainVerifier) : List Event → ChainVerifier
  | [] => verifier
  | event :: events =>
      match verifier.push sha256 event with
      | (verifier, true) => walk sha256 verifier events
      | (verifier, false) => verifier

end ChainVerifier

/-- Walk the events in the order given and compare the result with the anchor. -/
def verifyChain (sha256 : List UInt8 → Hash) (events : List Event) (anchor : Option Anchor) :
    ChainReport :=
  ((ChainVerifier.new anchor).walk sha256 events).finish

namespace ChainVerifier

variable {sha256 : List UInt8 → Hash}

theorem check_eq_ok_iff {verifier : ChainVerifier} {event : Event} {hash : Hash} :
    verifier.check sha256 event = .ok hash ↔
      event.seq = verifier.expectedSeq ∧
        (verifier.project.filter fun project => project ≠ event.projectId) = none ∧
        event.prevHash = verifier.head.map Head.hash ∧
        event.computeHash sha256 = .ok hash ∧ event.hash = hash := by
  unfold check
  by_cases same_seq : event.seq = verifier.expectedSeq
  · rw [if_neg (not_not.mpr same_seq)]
    cases project_eq : verifier.project.filter fun project => project ≠ event.projectId with
    | some project => simp
    | none =>
        by_cases same_prev : event.prevHash = verifier.head.map Head.hash
        · cases hash_eq : event.computeHash sha256 with
          | error error => simp [same_prev]
          | ok expected =>
              by_cases same_hash : expected = event.hash
              · simp [same_seq, same_prev, same_hash]
              · simp only [same_prev, same_hash, ne_eq, not_true_eq_false, not_false_eq_true,
                  if_false, if_true, reduceCtorEq, false_iff]
                rintro ⟨_, _, _, computed, rfl⟩
                exact same_hash (Except.ok.inj computed)
        · simp [same_prev]
  · simp [same_seq]

/-- The verifier after accepting exactly these events, for an anchor. -/
structure Accepted (sha256 : List UInt8 → Hash) (anchor : Option Anchor) (events : List Event)
    (verifier : ChainVerifier) : Prop where
  anchor_eq : verifier.anchor = anchor
  unbroken : verifier.firstBreak = none
  head_eq : verifier.head = events.getLast?.map fun event => ⟨event.seq, event.hash⟩
  project_eq : verifier.project = events.head?.map Event.projectId
  numbered : ∀ i (inside : i < events.length), events[i].seq = i + 1
  linked : HashChain.Linked Event.prevHash Event.hash none events
  computed : ∀ event ∈ events, event.computeHash sha256 = .ok event.hash
  one_project : ∀ event ∈ events, ∀ other ∈ events, event.projectId = other.projectId
  reached_eq : verifier.reached = some .matches →
    ∃ reached ∈ events, anchor = some ⟨reached.seq, reached.hash⟩

theorem accepted_new (anchor : Option Anchor) : Accepted sha256 anchor [] (new anchor) where
  anchor_eq := rfl
  unbroken := rfl
  head_eq := rfl
  project_eq := rfl
  numbered := by simp
  linked := trivial
  computed := by simp
  one_project := by simp
  reached_eq := by simp [new]

theorem Accepted.expectedSeq_eq {anchor : Option Anchor} {events : List Event}
    {verifier : ChainVerifier} (accepted : Accepted sha256 anchor events verifier) :
    verifier.expectedSeq = events.length + 1 := by
  rw [expectedSeq, accepted.head_eq]
  rcases List.eq_nil_or_concat' events with rfl | ⟨front, last, rfl⟩
  · rfl
  · have last_seq := accepted.numbered front.length (by simp)
    simpa using last_seq

theorem Accepted.tip_eq {anchor : Option Anchor} {events : List Event} {verifier : ChainVerifier}
    (accepted : Accepted sha256 anchor events verifier) :
    verifier.head.map Head.hash = HashChain.tip Event.hash none events := by
  rw [accepted.head_eq, HashChain.tip, Option.map_map, Option.or_none]
  rfl

/-- Accepting one more event. -/
theorem Accepted.accept {anchor : Option Anchor} {events : List Event} {verifier : ChainVerifier}
    (accepted : Accepted sha256 anchor events verifier) {event : Event} {hash : Hash}
    (checks : verifier.check sha256 event = .ok hash) :
    Accepted sha256 anchor (events ++ [event]) (verifier.accept event hash) := by
  obtain ⟨seq_eq, project_same, prev_eq, computed, rfl⟩ := check_eq_ok_iff.mp checks
  have project_of_mem : ∀ other ∈ events, other.projectId = event.projectId := by
    intro other other_mem
    cases events with
    | nil => simp at other_mem
    | cons first tail =>
        have first_project : first.projectId = event.projectId := by
          rw [accepted.project_eq] at project_same
          simpa using project_same
        exact (accepted.one_project other other_mem first (by simp)).trans first_project
  refine
    { anchor_eq := accepted.anchor_eq
      unbroken := accepted.unbroken
      head_eq := by simp [ChainVerifier.accept]
      project_eq := ?_
      numbered := ?_
      linked := ?_
      computed := ?_
      one_project := ?_
      reached_eq := ?_ }
  · simp only [ChainVerifier.accept, accepted.project_eq]
    cases events <;> simp
  · intro i inside
    by_cases last : i < events.length
    · rw [List.getElem_append_left last]
      exact accepted.numbered i last
    · have i_eq : i = events.length := by
        rw [List.length_append, List.length_singleton] at inside
        omega
      subst i_eq
      rw [accepted.expectedSeq_eq] at seq_eq
      simpa using seq_eq
  · exact HashChain.linked_append_singleton.mpr ⟨accepted.linked, prev_eq.trans accepted.tip_eq⟩
  · intro other other_mem
    rcases List.mem_append.mp other_mem with other_mem | other_mem
    · exact accepted.computed other other_mem
    · rw [List.mem_singleton.mp other_mem]
      exact computed
  · intro first first_mem second second_mem
    rcases List.mem_append.mp first_mem with first_mem | first_mem <;>
      rcases List.mem_append.mp second_mem with second_mem | second_mem
    · exact accepted.one_project first first_mem second second_mem
    · rw [List.mem_singleton.mp second_mem]
      exact project_of_mem first first_mem
    · rw [List.mem_singleton.mp first_mem]
      exact (project_of_mem second second_mem).symm
    · rw [List.mem_singleton.mp first_mem, List.mem_singleton.mp second_mem]
  · intro matches_eq
    have earlier : verifier.reached = some .matches →
        ∃ reached ∈ events ++ [event], anchor = some ⟨reached.seq, reached.hash⟩ := by
      intro before_eq
      obtain ⟨reached, reached_mem, anchor_eq⟩ := accepted.reached_eq before_eq
      exact ⟨reached, by simp [reached_mem], anchor_eq⟩
    simp only [ChainVerifier.accept, verdictAt, accepted.anchor_eq] at matches_eq
    cases anchor with
    | none => exact earlier matches_eq
    | some anchor =>
        simp only at matches_eq
        split_ifs at matches_eq with at_anchor same_hash
        · refine ⟨event, by simp, ?_⟩
          rw [← at_anchor, ← same_hash]
        · simp at matches_eq
        · exact earlier matches_eq

/-- A walk accepts a front of the events; what it reaches is what that front reaches. -/
theorem Accepted.walk {anchor : Option Anchor} {before : List Event} {verifier : ChainVerifier}
    (accepted : Accepted sha256 anchor before verifier) (events : List Event) :
    ∃ front back middle, events = front ++ back ∧ Accepted sha256 anchor (before ++ front) middle ∧
      (verifier.walk sha256 events).reached = middle.reached ∧
      (verifier.walk sha256 events).anchor = anchor ∧
      ((verifier.walk sha256 events).firstBreak = none → back = []) := by
  induction events generalizing before verifier with
  | nil =>
      exact ⟨[], [], verifier, rfl, by simpa using accepted, rfl, accepted.anchor_eq, fun _ => rfl⟩
  | cons event events ih =>
      have unbroken : verifier.firstBreak.isSome = false := by simp [accepted.unbroken]
      cases checks : verifier.check sha256 event with
      | error kind =>
          refine ⟨[], event :: events, verifier, rfl, by simpa using accepted, ?_, ?_, ?_⟩
          · simp [ChainVerifier.walk, push, unbroken, checks]
          · simp [ChainVerifier.walk, push, unbroken, checks, accepted.anchor_eq]
          · simp [ChainVerifier.walk, push, unbroken, checks]
      | ok hash =>
          have walk_eq : verifier.walk sha256 (event :: events) =
              (verifier.accept event hash).walk sha256 events := by
            simp [ChainVerifier.walk, push, unbroken, checks]
          obtain ⟨front, back, middle, events_eq, front_accepted, reached_eq, anchor_eq, whole⟩ :=
            ih (accepted.accept checks)
          refine ⟨event :: front, back, middle, by rw [events_eq]; rfl, ?_, ?_, ?_, ?_⟩
          · simpa using front_accepted
          · rw [walk_eq, reached_eq]
          · rw [walk_eq, anchor_eq]
          · rw [walk_eq]
            exact whole

/-- A walk that met no break goes on with the next event. -/
theorem walk_append {verifier : ChainVerifier} {events : List Event}
    (unbroken : (verifier.walk sha256 events).firstBreak = none) (event : Event) :
    verifier.walk sha256 (events ++ [event]) =
      ((verifier.walk sha256 events).push sha256 event).1 := by
  induction events generalizing verifier with
  | nil =>
      simp only [List.nil_append, walk]
      cases verifier.push sha256 event with
      | mk next accepted => cases accepted <;> rfl
  | cons first events ih =>
      simp only [List.cons_append, walk] at unbroken ⊢
      cases push_eq : verifier.push sha256 first with
      | mk next accepted =>
          simp only [push_eq] at unbroken ⊢
          cases accepted with
          | true => exact ih unbroken
          | false =>
              -- A refused event leaves a break behind.
              unfold push at push_eq
              split_ifs at push_eq with broken
              · obtain ⟨rfl, -⟩ := Prod.mk.inj push_eq
                simp [unbroken] at broken
              · split at push_eq
                · obtain ⟨rfl, -⟩ := Prod.mk.inj push_eq
                  simp at unbroken
                · cases (Prod.mk.inj push_eq).2

/-- A walk that accepted its events accepts one more that the verifier checks. -/
theorem Accepted.walk_append {anchor : Option Anchor} {events : List Event}
    (accepted : Accepted sha256 anchor events ((new anchor).walk sha256 events)) {event : Event}
    {hash : Hash} (checks : ((new anchor).walk sha256 events).check sha256 event = .ok hash) :
    Accepted sha256 anchor (events ++ [event]) ((new anchor).walk sha256 (events ++ [event])) := by
  have pushed : ((new anchor).walk sha256 events).push sha256 event =
      (((new anchor).walk sha256 events).accept event hash, true) := by
    simp [push, accepted.unbroken, checks]
  rw [ChainVerifier.walk_append accepted.unbroken, pushed]
  exact accepted.accept checks

/-- The report says `matches` only when the walk reached the anchored hash. -/
theorem reached_of_finish {verifier : ChainVerifier}
    (matches_eq : verifier.finish.anchor = .matches) : verifier.reached = some .matches := by
  have verdict_eq : verifier.verdict = .matches := by
    unfold finish at matches_eq
    cases accepted_eq : verifier.accepted with
    | none => simpa [accepted_eq] using matches_eq
    | some accepted => simp [accepted_eq] at matches_eq
  unfold verdict at verdict_eq
  split at verdict_eq
  · simp at verdict_eq
  · next verdict _ reached_eq => rw [reached_eq, verdict_eq]
  · split_ifs at verdict_eq

end ChainVerifier

end Baley
