import Baley.Store.Chained

/-!
# Reading the chain back

The events of a project are read back in sequence order, each parsed from its stored text.  They
read back as the recorded chain exactly when no recorded payload nests too deep for the reader.
-/

namespace Baley

open Json Attempt

namespace ProjectRows

/-- The stored events in sequence order. -/
def bySeq (rows : ProjectRows) : List EventRow :=
  rows.events.mergeSort fun first second => decide (first.seq ≤ second.seq)

/-- The events of a project, as the store reads them back. -/
def readBack (project : ProjectId) (rows : ProjectRows) : Option (List Event) :=
  rows.bySeq.mapM (storedEvent project)

/-- The events of a project read back as one valid chain from sequence 1 that ends at the stored
head. -/
structure ReadsBack (sha256 : List UInt8 → Hash) (project : ProjectId) (rows : ProjectRows)
    (events : List Event) : Prop where
  read_eq : rows.readBack project = some events
  unbroken : (verifyChain sha256 events none).firstBreak = none
  numbered : ∀ i (inside : i < events.length), events[i].seq = i + 1
  headSeq_eq : rows.headSeq = events.length
  headHash_eq : rows.headHash = events.getLast?.map Event.hash
  versions_eq : ∀ stream,
    versionsOf events stream = List.range' 1 (versionsOf events stream).length

namespace Chained

variable {sha256 : List UInt8 → Hash} {depth : Depth} {project : ProjectId} {rows : ProjectRows}

/-- Rows are stored in sequence order. -/
theorem bySeq_eq (chained : rows.Chained sha256 depth project) : rows.bySeq = rows.events := by
  refine List.mergeSort_of_pairwise ?_
  have seqs_eq : rows.events.map EventRow.seq = (rows.history project).map Event.seq := by
    have recorded := chained.recorded
    unfold history
    generalize rows.events = stored at recorded ⊢
    induction stored with
    | nil => rfl
    | cons row tail ih =>
        obtain ⟨event, event_eq⟩ := Option.isSome_iff_exists.mp (recorded row (by simp))
        rw [List.filterMap_cons_some event_eq, List.map_cons, List.map_cons,
          (fields_of_recorded event_eq).1, ih fun other other_mem =>
            recorded other (List.mem_cons_of_mem _ other_mem)]
  have pairwise : ((rows.history project).map Event.seq).Pairwise fun a b => a ≤ b := by
    rw [List.pairwise_iff_getElem]
    intro i j i_inside j_inside less
    rw [List.getElem_map, List.getElem_map, chained.chain.seq_getElem, chained.chain.seq_getElem]
    omega
  rw [← seqs_eq, List.pairwise_map] at pairwise
  exact pairwise.imp fun le => decide_eq_true le

/-- The rows read back exactly when every payload they record nests less than the limit. -/
theorem readBack_eq (chained : rows.Chained sha256 depth project) :
    rows.readBack project =
      if ∀ event ∈ rows.history project, event.payload.nesting < recursionLimit then
        some (rows.history project)
      else none := by
  rw [readBack, chained.bySeq_eq]
  have sound := chained.sound
  unfold history
  generalize rows.events = stored at sound ⊢
  induction stored with
  | nil => rfl
  | cons row tail ih =>
      obtain ⟨event, event_eq, -⟩ := (sound row (by simp)).recorded
      have tail_eq := ih fun other other_mem => sound other (List.mem_cons_of_mem _ other_mem)
      rw [List.mapM_cons, (sound row (by simp)).storedEvent_eq event_eq,
        List.filterMap_cons_some event_eq, tail_eq]
      generalize stored_eq : tail.filterMap (EventRow.recorded project) = events
      have all_iff : (∀ other ∈ event :: events, other.payload.nesting < recursionLimit) ↔
          event.payload.nesting < recursionLimit ∧
            ∀ other ∈ events, other.payload.nesting < recursionLimit := List.forall_mem_cons
      by_cases nests : event.payload.nesting < recursionLimit
      · by_cases rest : ∀ event ∈ events, event.payload.nesting < recursionLimit
        · rw [if_pos nests, if_pos rest, if_pos (all_iff.mpr ⟨nests, rest⟩)]
          rfl
        · rw [if_pos nests, if_neg rest, if_neg fun all => rest (all_iff.mp all).2]
          rfl
      · rw [if_neg nests, if_neg fun all => nests (all_iff.mp all).1]
        rfl

/-- Recorded payloads that the reader can take read back as the recorded chain. -/
theorem readsBack_iff (chained : rows.Chained sha256 depth project) :
    (∃ events, rows.ReadsBack sha256 project events) ↔
      ∀ event ∈ rows.history project, event.payload.nesting < recursionLimit := by
  constructor
  · rintro ⟨events, readsBack⟩
    have read_eq := readsBack.read_eq
    rw [chained.readBack_eq] at read_eq
    split_ifs at read_eq with nests
    exact nests
  · intro nests
    refine ⟨rows.history project, ?_, ?_, fun i => chained.chain.seq_getElem, chained.headSeq_eq, ?_,
      chained.chain.versions_eq⟩
    · rw [chained.readBack_eq, if_pos nests]
    · exact chained.chain.accepted.unbroken
    · rw [chained.headHash_eq, headOf, Option.map_map]
      rfl

theorem fits_of_mem (chained : rows.Chained sha256 depth project) {event : Event}
    (event_mem : event ∈ rows.history project) : depth.fits event.payload.nesting := by
  obtain ⟨row, row_mem, recorded⟩ := List.mem_filterMap.mp event_mem
  obtain ⟨other, other_eq, fits⟩ := (chained.sound row row_mem).recorded
  rw [recorded] at other_eq
  rw [Option.some.inj other_eq]
  exact fits

end Chained

end ProjectRows

end Baley
