import Baley.TamperEvidence
import Baley.Walked

/-!
# The report of a walk is the declared one

At most one verdict stands for a list and an anchor, and the report gives it, unless the anchor
names a sequence before the first.
-/

namespace Baley

variable {sha256 : List UInt8 → Hash} {anchor : Option Anchor}

namespace ChainVerifier

/-- How the walk over a whole list ends. -/
structure Ended (sha256 : List UInt8 → Hash) (events front : List Event) (anchor : Option Anchor)
    (middle verifier : ChainVerifier) : Prop where
  walked : Walked sha256 anchor front middle
  verifier_eq : verifier = { middle with firstBreak := verifier.firstBreak }
  is_front : front <+: events
  whole : verifier.firstBreak = none → front = events
  broken : ∀ broken, verifier.firstBreak = some broken →
    broken.seq = front.length + 1 ∧ front.length < events.length ∧
      ¬ Fits sha256 events front.length

theorem exists_ended (sha256 : List UInt8 → Hash) (events : List Event) (anchor : Option Anchor) :
    ∃ front middle,
      Ended sha256 events front anchor middle ((new anchor).walk sha256 events) := by
  have start : Walked sha256 anchor [] (new anchor) := walked_new anchor
  obtain ⟨front, middle, walked, ends⟩ := start.walk events
  rw [List.nil_append] at walked ends
  rcases ends with ⟨rfl, walk_eq⟩ | ⟨event, back, kind, rfl, checks, walk_eq⟩
  · refine ⟨front, middle, walked, ?_, List.prefix_rfl, fun _ => rfl, ?_⟩
    · rw [walk_eq, walked.accepted.unbroken]
      cases middle
      simp [← walked.accepted.unbroken]
    · simp [walk_eq, walked.accepted.unbroken]
  · refine ⟨front, middle, walked, by rw [walk_eq], List.prefix_append _ _, ?_, ?_⟩
    · simp [walk_eq]
    · rw [walk_eq]
      rintro broken broken_eq
      obtain rfl := Option.some.inj broken_eq
      refine ⟨rfl, by simp, fun fits => ?_⟩
      obtain ⟨hash, accepts⟩ := walked.accepted.exists_check_ok_iff.mpr fits
      rw [checks] at accepts
      cases accepts

theorem Walked.reachedWith_iff {events : List Event} {verifier : ChainVerifier}
    (walked : Walked sha256 anchor events verifier) {anchored : Anchor} {hash : Hash} :
    ReachedWith sha256 events anchored hash ↔
      ∃ event ∈ events, event.seq = anchored.seq ∧ event.hash = hash := by
  refine exists_congr fun event => and_congr_right fun event_mem => and_congr_right fun _ => ?_
  rw [walked.accepted.recomputed_eq event_mem, Option.some.injEq]

/-- Two accepted events at one sequence are one event. -/
theorem Accepted.eq_of_seq_eq {events : List Event} {verifier : ChainVerifier}
    (accepted : Accepted sha256 anchor events verifier) {event other : Event}
    (event_mem : event ∈ events) (other_mem : other ∈ events) (seq_eq : event.seq = other.seq) :
    event = other := by
  obtain ⟨i, inside, rfl⟩ := List.getElem_of_mem event_mem
  obtain ⟨j, other_inside, rfl⟩ := List.getElem_of_mem other_mem
  have numbered := accepted.numbered i inside
  have other_numbered := accepted.numbered j other_inside
  have position_eq : i = j := by omega
  subst position_eq
  rfl

theorem Walked.reachedBy_eq_none_iff {events : List Event} {verifier : ChainVerifier}
    (walked : Walked sha256 anchor events verifier) {anchored : Anchor}
    (positive : 0 < anchored.seq) :
    reachedBy events anchored = none ↔ events.length < anchored.seq := by
  rw [reachedBy, Option.map_eq_none_iff, List.find?_eq_none]
  constructor
  · intro unreached
    by_contra reached
    have inside : anchored.seq - 1 < events.length := by omega
    have numbered := walked.accepted.numbered _ inside
    refine unreached events[anchored.seq - 1] (List.getElem_mem inside) ?_
    simp only [decide_eq_true_eq]
    omega
  · intro short event event_mem
    have event_le := (walked.accepted.seq_le event_mem).2
    simp only [decide_eq_true_eq]
    omega

/-- The verdict at the anchored sequence is the one its event's hash gives. -/
theorem Walked.reachedBy_eq_some {events : List Event} {verifier : ChainVerifier}
    (walked : Walked sha256 anchor events verifier) {anchored : Anchor} {verdict : AnchorVerdict}
    (reached : reachedBy events anchored = some verdict) :
    verdict = .matches ∧ ReachedWith sha256 events anchored anchored.hash ∨
      ∃ found, verdict = .rewritten anchored.seq anchored.hash found ∧
        ReachedWith sha256 events anchored found ∧ found ≠ anchored.hash := by
  obtain ⟨event, event_eq, verdict_eq⟩ := Option.map_eq_some_iff.mp reached
  have event_mem := List.mem_of_find?_eq_some event_eq
  have seq_eq : event.seq = anchored.seq := by simpa using List.find?_some event_eq
  have reached_with : ReachedWith sha256 events anchored event.hash :=
    walked.reachedWith_iff.mpr ⟨event, event_mem, seq_eq, rfl⟩
  split_ifs at verdict_eq with same_hash
  · rw [← same_hash] at reached_with
    exact .inl ⟨verdict_eq.symm, reached_with⟩
  · exact .inr ⟨event.hash, verdict_eq.symm, reached_with, Ne.symm same_hash⟩

theorem Walked.reachedWith_unique {events : List Event} {verifier : ChainVerifier}
    (walked : Walked sha256 anchor events verifier) {anchored : Anchor} {hash other : Hash}
    (reached : ReachedWith sha256 events anchored hash)
    (reached_other : ReachedWith sha256 events anchored other) : hash = other := by
  obtain ⟨event, event_mem, seq_eq, rfl⟩ := walked.reachedWith_iff.mp reached
  obtain ⟨second, second_mem, second_seq, rfl⟩ := walked.reachedWith_iff.mp reached_other
  rw [walked.accepted.eq_of_seq_eq event_mem second_mem (seq_eq.trans second_seq.symm)]

theorem Walked.reachedWith_seq_le {events : List Event} {verifier : ChainVerifier}
    (walked : Walked sha256 anchor events verifier) {anchored : Anchor} {hash : Hash}
    (reached : ReachedWith sha256 events anchored hash) :
    0 < anchored.seq ∧ anchored.seq ≤ events.length := by
  obtain ⟨event, event_mem, seq_eq, -⟩ := reached
  rw [← seq_eq]
  exact walked.accepted.seq_le event_mem

/-- The entry that a search from the end finds in a list sorted by sequence. -/
theorem Walked.find_latest {events : List Event} {verifier : ChainVerifier}
    (walked : Walked sha256 anchor events verifier) (anchored : Anchor) :
    match verifier.acknowledged.reverse.find? fun entry => some anchored = some entry.1.anchor with
    | some entry => LatestRestore events anchored entry.1 ∧
        entry.2 = firstWorkAfter events entry.1.seq
    | none => Unacknowledged events anchored := by
  cases found_eq :
      verifier.acknowledged.reverse.find? fun entry => some anchored = some entry.1.anchor with
  | none =>
      rw [List.find?_eq_none] at found_eq
      intro restore restores anchor_eq
      obtain ⟨entry, entry_mem, rfl⟩ :=
        List.mem_map.mp ((walked.mem_acknowledged restore).mpr restores)
      exact found_eq entry (List.mem_reverse.mpr entry_mem) (by simp [anchor_eq])
  | some entry =>
      obtain ⟨named, later, earlier, reverse_eq, later_other⟩ :=
        List.find?_eq_some_iff_append.mp found_eq
      have entry_mem : entry ∈ verifier.acknowledged :=
        List.mem_reverse.mp (List.mem_of_find?_eq_some found_eq)
      have anchor_eq : anchored = entry.1.anchor := by simpa using named
      refine ⟨⟨(walked.mem_acknowledged entry.1).mp (List.mem_map_of_mem entry_mem),
        anchor_eq.symm, ?_⟩, walked.age_eq entry entry_mem⟩
      intro other other_restores other_anchor
      obtain ⟨second, second_mem, rfl⟩ :=
        List.mem_map.mp ((walked.mem_acknowledged other).mpr other_restores)
      have sorted := List.pairwise_reverse.mpr walked.acknowledged_sorted
      rw [reverse_eq] at sorted
      rw [← List.mem_reverse, reverse_eq] at second_mem
      rcases List.mem_append.mp second_mem with second_mem | second_mem
      · have unnamed := later_other second second_mem
        simp [other_anchor] at unnamed
      · rcases List.mem_cons.mp second_mem with rfl | second_mem
        · exact le_rfl
        · have back := (List.pairwise_append.mp sorted).2.1
          exact (List.rel_of_pairwise_cons back second_mem).le

/-- At most one verdict stands. -/
theorem Ended.stands_unique {events front : List Event} {middle verifier : ChainVerifier}
    (ended : Ended sha256 events front anchor middle verifier) {verdict other : AnchorVerdict}
    (stands : Stands sha256 events front anchor verifier.firstBreak verdict)
    (other_stands : Stands sha256 events front anchor verifier.firstBreak other) :
    verdict = other := by
  have one_hash : ∀ {anchored : Anchor} {hash other : Hash},
      ReachedWith sha256 front anchored hash → ReachedWith sha256 front anchored other →
        hash = other := ended.walked.reachedWith_unique
  have not_both : ∀ {anchored : Anchor} {hash : Hash},
      EndsBefore events front anchored → ¬ ReachedWith sha256 front anchored hash := by
    rintro anchored hash ⟨rfl, short⟩ reached
    have reached_le := (ended.walked.reachedWith_seq_le reached).2
    omega
  have not_stopped : ∀ {anchored : Anchor} {broken : Break},
      verifier.firstBreak = some broken → broken.seq ≤ anchored.seq →
        ¬ EndsBefore events front anchored ∧
          ∀ hash, ¬ ReachedWith sha256 front anchored hash := by
    intro anchored broken broken_eq stopped
    obtain ⟨seq_eq, inside, -⟩ := ended.broken broken broken_eq
    refine ⟨fun ends => absurd inside (by rw [ends.1]; omega), fun hash reached => ?_⟩
    have reached_le := (ended.walked.reachedWith_seq_le reached).2
    omega
  have not_latest : ∀ {anchored : Anchor} {restore : AcknowledgedRestore},
      Unacknowledged front anchored → ¬ LatestRestore front anchored restore :=
    fun unacknowledged latest => unacknowledged _ latest.restores latest.anchor_eq
  have one_latest : ∀ {anchored : Anchor} {restore other : AcknowledgedRestore},
      LatestRestore front anchored restore → LatestRestore front anchored other →
        restore = other := LatestRestore.unique
  cases stands <;> cases other_stands <;> grind

/-- What a report takes from the acknowledgement it is based on. -/
theorem finish_of_accepted {verifier : ChainVerifier} {restore : AcknowledgedRestore}
    {first : Option String} (accepted_eq : verifier.accepted = some (restore, first)) :
    verifier.finish.anchor = .acknowledged restore.anchor.seq restore.restored restore.seq ∧
      verifier.finish.unanchored =
        ((next restore.seq).filter fun since => since ≤ verifier.head.elim 0 Head.seq).map
          (fun since => (since, verifier.head.elim 0 Head.seq)) ∧
      verifier.finish.ageUnanchoredSince = first := by
  simp [finish, accepted_eq]

theorem finish_of_not_accepted {verifier : ChainVerifier} (accepted_eq : verifier.accepted = none) :
    verifier.finish.anchor = verifier.verdict ∧
      verifier.finish.unanchored =
        (verifier.unanchoredFrom.filter fun since => since ≤ verifier.head.elim 0 Head.seq).map
          (fun since => (since, verifier.head.elim 0 Head.seq)) ∧
      verifier.finish.ageUnanchoredSince = verifier.firstWork := by
  simp [finish, accepted_eq]

theorem Ended.anchor_eq {events front : List Event} {middle verifier : ChainVerifier}
    (ended : Ended sha256 events front anchor middle verifier) : verifier.anchor = anchor := by
  rw [ended.verifier_eq]
  exact ended.walked.accepted.anchor_eq

theorem Ended.reached_eq {events front : List Event} {middle verifier : ChainVerifier}
    (ended : Ended sha256 events front anchor middle verifier) :
    verifier.reached = anchor.bind (reachedBy front) := by
  rw [ended.verifier_eq]
  exact ended.walked.reached_eq

theorem Ended.acknowledged_eq {events front : List Event} {middle verifier : ChainVerifier}
    (ended : Ended sha256 events front anchor middle verifier) :
    verifier.acknowledged = middle.acknowledged := by
  rw [ended.verifier_eq]

theorem Ended.headSeq_eq {events front : List Event} {middle verifier : ChainVerifier}
    (ended : Ended sha256 events front anchor middle verifier) :
    verifier.head.elim 0 Head.seq = front.length := by
  have next_eq := ended.walked.accepted.expectedSeq_eq
  rw [ended.verifier_eq]
  unfold expectedSeq at next_eq
  cases head_eq : middle.head with
  | none =>
      rw [head_eq, Option.elim_none] at next_eq
      rw [Option.elim_none]
      omega
  | some head =>
      rw [head_eq, Option.elim_some] at next_eq
      rw [Option.elim_some]
      omega

/-- A gap to the anchor is acknowledged by the latest acknowledgement of it, if there is one. -/
theorem Ended.stands_of_gap {events front : List Event} {anchored : Anchor}
    {middle verifier : ChainVerifier}
    (ended : Ended sha256 events front (some anchored) middle verifier)
    (gap : EndsBefore events front anchored ∨
      ∃ found, ReachedWith sha256 front anchored found ∧ found ≠ anchored.hash)
    (searched : verifier.accepted = verifier.acknowledged.reverse.find? fun (restore, _) =>
      verifier.anchor = some restore.anchor)
    (unacknowledged : Unacknowledged front anchored →
      Stands sha256 events front (some anchored) verifier.firstBreak verifier.verdict) :
    Stands sha256 events front (some anchored) verifier.firstBreak verifier.finish.anchor := by
  have latest := ended.walked.find_latest anchored
  rw [ended.anchor_eq, ended.acknowledged_eq] at searched
  cases accepted_eq : verifier.accepted with
  | none =>
      rw [accepted_eq] at searched
      rw [← searched] at latest
      rw [(finish_of_not_accepted accepted_eq).1]
      exact unacknowledged latest
  | some entry =>
      rw [accepted_eq] at searched
      rw [← searched] at latest
      rw [(finish_of_accepted accepted_eq).1, latest.1.anchor_eq]
      exact .acknowledged rfl gap latest.1

/-- The report's verdict stands, for an anchor of a sequence that there can be. -/
theorem Ended.stands {events front : List Event} {middle verifier : ChainVerifier}
    (ended : Ended sha256 events front anchor middle verifier)
    (positive : ∀ anchored, anchor = some anchored → 0 < anchored.seq) :
    Stands sha256 events front anchor verifier.firstBreak verifier.finish.anchor := by
  have anchor_eq := ended.anchor_eq
  have reached_eq := ended.reached_eq
  cases anchor with
  | none =>
      have verdict_eq : verifier.verdict = .noAnchor := by rw [verdict, anchor_eq]
      have accepted_eq : verifier.accepted = none := by rw [accepted, verdict_eq]
      rw [(finish_of_not_accepted accepted_eq).1, verdict_eq]
      exact .noAnchor rfl
  | some anchored =>
      rw [Option.bind_some] at reached_eq
      cases verdict_at : reachedBy front anchored with
      | some reached =>
          have verdict_eq : verifier.verdict = reached := by
            rw [verdict, anchor_eq, reached_eq, verdict_at]
          rcases ended.walked.reachedBy_eq_some verdict_at with
            ⟨rfl, reached⟩ | ⟨found, rfl, reached, another⟩
          · have accepted_eq : verifier.accepted = none := by rw [accepted, verdict_eq]
            rw [(finish_of_not_accepted accepted_eq).1, verdict_eq]
            exact .matched rfl reached
          · refine ended.stands_of_gap (.inr ⟨found, reached, another⟩) ?_ ?_
            · rw [accepted, verdict_eq]
            · intro unacknowledged
              rw [verdict_eq]
              exact .rewritten rfl reached another unacknowledged
      | none =>
          have short := (ended.walked.reachedBy_eq_none_iff (positive anchored rfl)).mp verdict_at
          rw [verdict_at] at reached_eq
          cases break_eq : verifier.firstBreak with
          | some broken =>
              have verdict_eq : verifier.verdict = .unchecked anchored.seq := by
                rw [verdict, anchor_eq, reached_eq, break_eq]
                rfl
              have accepted_eq : verifier.accepted = none := by rw [accepted, verdict_eq]
              rw [(finish_of_not_accepted accepted_eq).1, verdict_eq]
              have seq_eq := (ended.broken broken break_eq).1
              exact .unchecked rfl rfl (by omega)
          | none =>
              have whole := ended.whole break_eq
              have ends : EndsBefore events front anchored := ⟨whole, whole ▸ short⟩
              have verdict_eq : verifier.verdict = .truncated anchored.seq events.length := by
                rw [verdict, anchor_eq, reached_eq, break_eq, ended.headSeq_eq, whole]
                rfl
              rw [← break_eq]
              refine ended.stands_of_gap (.inl ends) ?_ ?_
              · rw [accepted, verdict_eq]
              · intro unacknowledged
                rw [verdict_eq]
                exact .truncated rfl ends unacknowledged

theorem Ended.verdict_ne_acknowledged {events front : List Event}
    {middle verifier : ChainVerifier}
    (ended : Ended sha256 events front anchor middle verifier) (seq : Nat) (restored : Option Head)
    (acknowledgedSeq : Nat) :
    verifier.verdict ≠ .acknowledged seq restored acknowledgedSeq := by
  have reached_eq := ended.reached_eq
  unfold verdict
  split
  · simp
  · next anchored verdict anchor_eq verdict_eq =>
      rw [verdict_eq] at reached_eq
      obtain ⟨found, -, reached⟩ := Option.bind_eq_some_iff.mp reached_eq.symm
      rcases ended.walked.reachedBy_eq_some reached with ⟨rfl, -⟩ | ⟨hash, rfl, -⟩ <;> simp
  · split_ifs <;> simp

/-- The unanchored range and its age begin after what the report has covered. -/
theorem Ended.finish_eq {events front : List Event} {middle verifier : ChainVerifier}
    (ended : Ended sha256 events front anchor middle verifier) :
    verifier.finish.unanchored =
        ((next (verifier.finish.covered anchor)).filter fun since => since ≤ front.length).map
          (fun since => (since, front.length)) ∧
      verifier.finish.ageUnanchoredSince =
        firstWorkAfter front (verifier.finish.covered anchor) := by
  have headSeq_eq := ended.headSeq_eq
  cases accepted_eq : verifier.accepted with
  | some entry =>
      obtain ⟨anchor_eq, unanchored_eq, age_eq⟩ := finish_of_accepted accepted_eq
      have covered_eq : verifier.finish.covered anchor = entry.1.seq := by
        rw [ChainReport.covered, anchor_eq]
      have entry_mem : entry ∈ middle.acknowledged := by
        have searched := accepted_eq
        unfold accepted at searched
        rw [ended.acknowledged_eq] at searched
        split at searched
        · exact List.mem_reverse.mp (List.mem_of_find?_eq_some searched)
        · exact List.mem_reverse.mp (List.mem_of_find?_eq_some searched)
        · cases searched
      rw [unanchored_eq, age_eq, covered_eq, headSeq_eq]
      exact ⟨rfl, ended.walked.age_eq entry entry_mem⟩
  | none =>
      obtain ⟨anchor_eq, unanchored_eq, age_eq⟩ := finish_of_not_accepted accepted_eq
      have covered_eq : verifier.finish.covered anchor = anchor.elim 0 Anchor.seq := by
        rw [ChainReport.covered, anchor_eq]
        split
        · next seq restored acknowledgedSeq verdict_eq =>
            exact absurd verdict_eq (ended.verdict_ne_acknowledged seq restored acknowledgedSeq)
        · rfl
      have since_eq : verifier.unanchoredFrom = next (anchor.elim 0 Anchor.seq) := by
        rw [unanchoredFrom, ended.anchor_eq]
        cases anchor <;> rfl
      have work_eq : verifier.firstWork = firstWorkAfter front (anchor.elim 0 Anchor.seq) := by
        rw [ended.verifier_eq]
        exact ended.walked.firstWork_eq
      rw [unanchored_eq, age_eq, covered_eq, headSeq_eq, since_eq]
      exact ⟨rfl, work_eq⟩

/-- The unanchored range holds exactly the accepted sequences after what is covered. -/
theorem Ended.isUnanchored_iff {events front : List Event} {middle verifier : ChainVerifier}
    (ended : Ended sha256 events front anchor middle verifier)
    (counted : ∀ event ∈ events, event.seq ≤ maxSequence) (seq : Nat) :
    verifier.finish.IsUnanchored seq ↔
      verifier.finish.covered anchor < seq ∧ ∃ event ∈ front, event.seq = seq := by
  have numbered := ended.walked.accepted.numbered
  have length_le : front.length ≤ maxSequence := by
    rcases List.eq_nil_or_concat' front with rfl | ⟨init, last, rfl⟩
    · simp
    · have last_le := counted last (ended.is_front.subset (by simp))
      have last_seq := numbered init.length (by simp)
      simp only [List.getElem_concat_length] at last_seq
      rw [List.length_append, List.length_singleton]
      omega
  have at_iff : (∃ event ∈ front, event.seq = seq) ↔ 0 < seq ∧ seq ≤ front.length := by
    constructor
    · rintro ⟨event, event_mem, rfl⟩
      exact ended.walked.accepted.seq_le event_mem
    · rintro ⟨positive, inside⟩
      refine ⟨front[seq - 1], List.getElem_mem _, ?_⟩
      rw [numbered]
      omega
  unfold ChainReport.IsUnanchored
  rw [ended.finish_eq.1, at_iff, next]
  split_ifs with room
  · by_cases inside : verifier.finish.covered anchor + 1 ≤ front.length
    · simp only [Option.filter_some, inside, decide_true, if_true, Option.map_some,
        Option.some.injEq, Prod.mk.injEq]
      constructor
      · rintro ⟨first, last, ⟨rfl, rfl⟩, le_seq, seq_le⟩
        omega
      · rintro ⟨covered_lt, -, seq_le⟩
        exact ⟨_, _, ⟨rfl, rfl⟩, covered_lt, seq_le⟩
    · simp only [Option.filter_some, inside, decide_false, Bool.false_eq_true, if_false,
        Option.map_none, reduceCtorEq, false_and, exists_false, false_iff]
      omega
  · simp only [Option.filter_none, Option.map_none, reduceCtorEq, false_and, exists_false,
      false_iff]
    omega

theorem Ended.unanchored_none {events front : List Event} {middle verifier : ChainVerifier}
    (ended : Ended sha256 events front anchor middle verifier) :
    verifier.finish.unanchored = none ↔ ∀ seq, ¬ verifier.finish.IsUnanchored seq := by
  constructor
  · rintro unanchored_eq seq ⟨first, last, range_eq, -⟩
    rw [unanchored_eq] at range_eq
    cases range_eq
  · intro nothing
    by_contra some_range
    obtain ⟨range, range_eq⟩ := Option.ne_none_iff_exists'.mp some_range
    refine nothing range.1 ⟨range.1, range.2, range_eq, le_rfl, ?_⟩
    rw [ended.finish_eq.1] at range_eq
    obtain ⟨since, since_eq, rfl⟩ := Option.map_eq_some_iff.mp range_eq
    simpa using (Option.filter_eq_some_iff.mp since_eq).2

theorem Ended.firstBreak_none {events front : List Event} {middle verifier : ChainVerifier}
    (ended : Ended sha256 events front anchor middle verifier) :
    verifier.firstBreak = none ↔ ∀ i < events.length, Fits sha256 events i := by
  constructor
  · intro break_eq
    rw [← ended.whole break_eq]
    exact ended.walked.fits
  · intro all_fit
    by_contra some_break
    obtain ⟨broken, break_eq⟩ := Option.ne_none_iff_exists'.mp some_break
    obtain ⟨-, inside, misfit⟩ := ended.broken broken break_eq
    exact misfit (all_fit _ inside)

/-- The report of an ended walk says what is declared, if its verdict does. -/
theorem Ended.declared {events front : List Event} {middle verifier : ChainVerifier}
    (ended : Ended sha256 events front anchor middle verifier)
    (counted : ∀ event ∈ events, event.seq ≤ maxSequence)
    (stands : Stands sha256 events front anchor verifier.firstBreak verifier.finish.anchor) :
    Declared sha256 events front anchor verifier.finish := by
  have walked := ended.walked
  have restores_eq : verifier.finish.acknowledgedRestores = middle.acknowledged.map Prod.fst := by
    simp [finish, ended.acknowledged_eq]
  obtain ⟨back, events_eq⟩ := ended.is_front
  refine
    { is_front := ended.is_front
      fits := fun i inside => by
        rw [← events_eq]
        exact (fits_append_iff inside).mpr (walked.fits i inside)
      firstBreak_none := ended.firstBreak_none
      whole := ended.whole
      firstBreak_some := ended.broken
      head_eq := ?_
      verdict_iff := fun verdict => ⟨fun verdict_eq => verdict_eq ▸ stands,
        fun other => ended.stands_unique stands other⟩
      unanchored := ended.isUnanchored_iff counted
      unanchored_none := ended.unanchored_none
      acknowledgedRestores_sorted := ?_
      mem_acknowledgedRestores := ?_
      age_eq := ended.finish_eq.2 }
  · have head_eq : verifier.finish.head = middle.head := by
      rw [finish, ended.verifier_eq]
    rw [head_eq, walked.accepted.head_eq]
    rcases List.eq_nil_or_concat' front with rfl | ⟨init, last, rfl⟩
    · rfl
    · have last_mem : last ∈ init ++ [last] := by simp
      simp [walked.accepted.recomputed_eq last_mem]
  · rw [restores_eq]
    exact List.pairwise_map.mpr walked.acknowledged_sorted
  · rw [restores_eq]
    exact walked.mem_acknowledged

end ChainVerifier

/-- No verdict stands for an anchor before the first sequence. -/
theorem not_stands_of_seq_zero {events front : List Event} {anchored : Anchor}
    {report : ChainReport} {verdict : AnchorVerdict}
    (declared : Declared sha256 events front (some anchored) report) (zero : anchored.seq = 0) :
    ¬ Stands sha256 events front (some anchored) report.firstBreak verdict := by
  have unreached : ∀ hash, ¬ ReachedWith sha256 front anchored hash := by
    rintro hash ⟨event, event_mem, seq_eq, -⟩
    obtain ⟨i, inside, rfl⟩ := List.getElem_of_mem event_mem
    obtain ⟨back, rfl⟩ := declared.is_front
    obtain ⟨event, fits⟩ := declared.fits i inside
    have event_eq : front[i] = event := by
      have at_eq := fits.at_eq
      rw [List.getElem?_append_left inside, List.getElem?_eq_getElem inside] at at_eq
      exact Option.some.inj at_eq
    have numbered := fits.seq_eq
    rw [event_eq] at seq_eq
    omega
  have unended : ¬ EndsBefore events front anchored := by
    rintro ⟨-, short⟩
    omega
  intro stands
  cases stands with
  | noAnchor absent => cases absent
  | matched anchor_eq reached =>
      obtain rfl := Option.some.inj anchor_eq
      exact unreached _ reached
  | unchecked anchor_eq break_eq stopped =>
      obtain rfl := Option.some.inj anchor_eq
      have seq_eq := (declared.firstBreak_some _ break_eq).1
      omega
  | truncated anchor_eq ends unacknowledged =>
      obtain rfl := Option.some.inj anchor_eq
      exact unended ends
  | rewritten anchor_eq reached another unacknowledged =>
      obtain rfl := Option.some.inj anchor_eq
      exact unreached _ reached
  | acknowledged anchor_eq gap latest =>
      obtain rfl := Option.some.inj anchor_eq
      rcases gap with ends | ⟨found, reached, -⟩
      · exact unended ends
      · exact unreached _ reached

/-- The report of a walk is the declared one exactly for an anchor of a sequence that a chain
can reach. -/
theorem verifyChain_declared_iff (sha256 : List UInt8 → Hash) (events : List Event)
    (counted : ∀ event ∈ events, event.seq ≤ ChainVerifier.maxSequence) (anchor : Option Anchor) :
    (∃ front, Declared sha256 events front anchor (verifyChain sha256 events anchor)) ↔
      ∀ anchored, anchor = some anchored → anchored.seq ≠ 0 := by
  constructor
  · rintro ⟨front, declared⟩ anchored rfl zero
    exact not_stands_of_seq_zero declared zero ((declared.verdict_iff _).mp rfl)
  · intro nonzero
    obtain ⟨front, middle, ended⟩ := ChainVerifier.exists_ended sha256 events anchor
    refine ⟨front, ended.declared counted (ended.stands ?_)⟩
    exact fun anchored anchor_eq => Nat.pos_of_ne_zero (nonzero anchored anchor_eq)

/-- A tag of sequence 0 parses, and a chain of one event is then reported shorter than it. -/
theorem verifyChain_not_declared :
    (verifyChain (fun _ => phaseDigest) [phaseDeclared "0" phaseDigest]
        (some ⟨0, phaseDigest⟩)).anchor = .truncated 0 1 ∧
      ¬ ∃ front, Declared (fun _ => phaseDigest) [phaseDeclared "0" phaseDigest] front
        (some ⟨0, phaseDigest⟩) (verifyChain (fun _ => phaseDigest) [phaseDeclared "0" phaseDigest]
          (some ⟨0, phaseDigest⟩)) := by
  refine ⟨by decide +kernel, ?_⟩
  rintro ⟨front, declared⟩
  exact not_stands_of_seq_zero declared rfl ((declared.verdict_iff _).mp rfl)

/-- One event is reported as declared against an anchor of its own sequence. -/
theorem verifyChain_declared_phaseDeclared :
    ∃ front, Declared (fun _ => phaseDigest) [phaseDeclared "0" phaseDigest] front
      (some ⟨1, phaseDigest⟩) (verifyChain (fun _ => phaseDigest) [phaseDeclared "0" phaseDigest]
        (some ⟨1, phaseDigest⟩)) := by
  have counted : ∀ event ∈ [phaseDeclared "0" phaseDigest],
      event.seq ≤ ChainVerifier.maxSequence := by
    intro event event_mem
    rw [List.mem_singleton.mp event_mem]
    decide
  refine (verifyChain_declared_iff _ _ counted _).mpr ?_
  rintro anchored anchor_eq
  obtain rfl := Option.some.inj anchor_eq
  decide

end Baley
