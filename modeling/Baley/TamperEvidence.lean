import Mathlib.Data.Set.Function
import Baley.Chain

/-!
# Tamper evidence

An anchor fixes every event up to its sequence: two event lists that match it agree there in every
hashed field.  The digest is only assumed to tell apart the byte strings it is applied to.
-/

namespace Baley

open Json

/-- The byte strings hashed while verifying the events. -/
def preimages (events : List Event) : Set (List UInt8) :=
  { bytes | ∃ event ∈ events, event.preimage = .ok bytes }

variable {sha256 : List UInt8 → Hash}

theorem preimage_of_computeHash {event : Event} {hash : Hash}
    (computed : event.computeHash sha256 = .ok hash) :
    ∃ bytes, event.preimage = .ok bytes ∧ sha256 bytes = hash := by
  unfold Event.computeHash at computed
  cases envelope_eq : event.canonicalEnvelope with
  | error error => simp [envelope_eq, bind, Except.bind] at computed
  | ok envelope =>
      cases payload_eq : canonicalJson event.payload with
      | error error => simp [envelope_eq, payload_eq, bind, Except.bind] at computed
      | ok payload =>
          simp only [envelope_eq, payload_eq, bind, Except.bind, Except.ok.injEq] at computed
          exact ⟨_, by simp [Event.preimage, envelope_eq, payload_eq, bind, Except.bind], computed⟩

/-- Up to the sequence of an anchor it matches, a list is one linked chain ending in the anchored
hash. -/
theorem matched_prefix {anchor : Anchor} {events : List Event}
    (matches_eq : (verifyChain sha256 events (some anchor)).anchor = .matches) :
    anchor.seq ≤ events.length ∧
      HashChain.Linked Event.prevHash Event.hash none (events.take anchor.seq) ∧
      HashChain.tip Event.hash none (events.take anchor.seq) = some anchor.hash ∧
      ∀ event ∈ events.take anchor.seq, event.computeHash sha256 = .ok event.hash := by
  have start : ChainVerifier.Accepted sha256 (some anchor) [] (.new (some anchor)) :=
    ChainVerifier.accepted_new (some anchor)
  obtain ⟨front, back, middle, rfl, accepted, reached_eq, -, -⟩ := start.walk events
  rw [List.nil_append] at accepted
  have reached := ChainVerifier.reached_of_finish matches_eq
  rw [reached_eq] at reached
  obtain ⟨event, event_mem, anchor_eq⟩ := accepted.reached_eq reached
  obtain rfl := Option.some.inj anchor_eq
  obtain ⟨i, inside, event_eq⟩ := List.getElem_of_mem event_mem
  have seq_eq : event.seq = i + 1 := by rw [← event_eq, accepted.numbered i inside]
  have take_eq : (front ++ back).take event.seq = front.take (i + 1) := by
    rw [seq_eq, List.take_append_of_le_length (by omega)]
  have split : front = front.take (i + 1) ++ front.drop (i + 1) := (List.take_append_drop _ _).symm
  refine ⟨by simp only [List.length_append, seq_eq]; omega, ?_, ?_, ?_⟩
  · have whole := accepted.linked
    rw [split] at whole
    rw [take_eq]
    exact HashChain.linked_append_left whole
  · rw [take_eq, List.take_succ_eq_append_getElem inside, HashChain.tip_append_singleton, event_eq]
  · rw [take_eq]
    exact fun other other_mem => accepted.computed other (List.mem_of_mem_take other_mem)

/-- No two different events share a preimage, and two lists that match one anchor agree event by
event up to it. -/
theorem anchored_events_agree (sha256 : List UInt8 → Hash) :
    (∀ (first second : Event) (bytes : List UInt8),
      first.preimage = .ok bytes → second.preimage = .ok bytes → first.Agrees second) ∧
    ∀ (anchor : Anchor) (first second : List Event),
      Set.InjOn sha256 (preimages first ∪ preimages second) →
      (verifyChain sha256 first (some anchor)).anchor = .matches →
      (verifyChain sha256 second (some anchor)).anchor = .matches →
      anchor.seq ≤ first.length ∧ anchor.seq ≤ second.length ∧
        List.Forall₂ Event.Agrees (first.take anchor.seq) (second.take anchor.seq) := by
  refine ⟨fun first second bytes => Event.agrees_of_preimage, ?_⟩
  intro anchor first second injective first_matches second_matches
  obtain ⟨first_length, first_linked, first_tip, first_computed⟩ := matched_prefix first_matches
  obtain ⟨second_length, second_linked, second_tip, second_computed⟩ := matched_prefix second_matches
  refine ⟨first_length, second_length, ?_⟩
  refine HashChain.forall₂_of_tip_eq ?_ (fun a b agrees => agrees.prevHash) first_linked second_linked
    (by simp [first_length, second_length]) (first_tip.trans second_tip.symm)
  intro a a_mem b b_mem hash_eq
  obtain ⟨aBytes, a_preimage, a_digest⟩ := preimage_of_computeHash (first_computed a a_mem)
  obtain ⟨bBytes, b_preimage, b_digest⟩ := preimage_of_computeHash (second_computed b b_mem)
  have bytes_eq : aBytes = bBytes := by
    refine injective (Or.inl ⟨a, List.mem_of_mem_take a_mem, a_preimage⟩)
      (Or.inr ⟨b, List.mem_of_mem_take b_mem, b_preimage⟩) ?_
    rw [a_digest, b_digest, hash_eq]
  exact Event.agrees_of_preimage a_preimage (bytes_eq ▸ b_preimage)

/-- The first event of the per-user project, with a phase number written as given. -/
def phaseDeclared (number : String) (hash : Hash) : Event :=
  { projectId := "user", seq := 1, stream := "phase/1", streamVersion := 1
    typeName := "phase.declared", typeVersion := 1, actor := .owner, caller := none
    recordedAt := "2026-09-25T18:00:00Z", requestId := "r1", git := none, policyVersion := 1
    payload := .object [("phase", .number number)], prevHash := none, hash }

/-- The SHA-256 digest of that event's preimage. -/
def phaseDigest : Hash :=
  ⟨[76, 163, 75, 203, 32, 41, 156, 164, 32, 87, 149, 156, 142, 220, 38, 105, 178, 153, 92, 232, 177,
    53, 113, 136, 49, 44, 143, 95, 255, 230, 111, 2], rfl⟩

theorem preimages_phaseDeclared (number : String) (canonical : number = "0" ∨ number = "-0") :
    preimages [phaseDeclared number phaseDigest] ⊆
      { bytes | (phaseDeclared "0" phaseDigest).preimage = .ok bytes } := by
  rintro bytes ⟨event, event_mem, preimage_eq⟩
  rw [List.mem_singleton.mp event_mem] at preimage_eq
  rcases canonical with rfl | rfl
  · exact preimage_eq
  · exact preimage_eq

/-- The two spellings of one number match one anchor and agree. -/
theorem anchored_events_agree_phaseDeclared :
    List.Forall₂ Event.Agrees [phaseDeclared "0" phaseDigest] [phaseDeclared "-0" phaseDigest] := by
  have injective : Set.InjOn (fun _ => phaseDigest)
      (preimages [phaseDeclared "0" phaseDigest] ∪ preimages [phaseDeclared "-0" phaseDigest]) := by
    intro first first_mem second second_mem _
    have first_eq := Set.union_subset (preimages_phaseDeclared "0" (Or.inl rfl))
      (preimages_phaseDeclared "-0" (Or.inr rfl)) first_mem
    have second_eq := Set.union_subset (preimages_phaseDeclared "0" (Or.inl rfl))
      (preimages_phaseDeclared "-0" (Or.inr rfl)) second_mem
    exact Except.ok.inj (first_eq.symm.trans second_eq)
  exact ((anchored_events_agree fun _ => phaseDigest).2 ⟨1, phaseDigest⟩
    [phaseDeclared "0" phaseDigest] [phaseDeclared "-0" phaseDigest] injective (by decide +kernel)
    (by decide +kernel)).2.2

end Baley
