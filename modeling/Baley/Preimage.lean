import Baley.Event

/-!
# Preimages determine events

The hash is taken over a bare concatenation, without lengths or separators.  The envelope is an
object whose first key is always the same and whose end can be seen, so neither the chain link nor
the payload can be shifted against it, and two events with one preimage agree in every hashed field.
-/

namespace Baley

open Json

namespace Event

/-- Two events agree in every field that is hashed, their payloads up to canonical JSON. -/
structure Agrees (first second : Event) : Prop where
  projectId : first.projectId = second.projectId
  seq : first.seq = second.seq
  stream : first.stream = second.stream
  streamVersion : first.streamVersion = second.streamVersion
  typeName : first.typeName = second.typeName
  typeVersion : first.typeVersion = second.typeVersion
  actor : first.actor = second.actor
  caller : first.caller = second.caller
  recordedAt : first.recordedAt = second.recordedAt
  requestId : first.requestId = second.requestId
  git : first.git = second.git
  policyVersion : first.policyVersion = second.policyVersion
  prevHash : first.prevHash = second.prevHash
  payload : canonicalJson first.payload = canonicalJson second.payload

/-! ## The envelope -/

theorem mem_envelopeEntries {event : Event} {entry : String × Value}
    (entry_mem : entry ∈ event.envelopeEntries) :
    (∃ text, entry.2 = .string text) ∨ (∃ n, entry.2 = .ofNat n) ∨ entry.2 = .null ∨
      (∃ caller : Caller, entry.2 = caller.toValue) ∨ ∃ git : GitFacts, entry.2 = git.toValue := by
  simp only [envelopeEntries, List.mem_append, List.mem_cons, List.not_mem_nil, or_false,
    Members.mem_optional] at entry_mem
  rcases entry_mem with (((entry_mem | ⟨_, value_eq⟩) | entry_mem) | ⟨_, value_eq⟩) | entry_mem
  · rcases entry_mem with rfl | rfl | rfl | rfl | rfl | rfl | rfl <;> simp
  · cases caller_eq : event.caller with
    | none => simp [caller_eq] at value_eq
    | some caller =>
        simp only [caller_eq, Option.map_some, Option.some.injEq] at value_eq
        exact Or.inr (Or.inr (Or.inr (Or.inl ⟨caller, value_eq.symm⟩)))
  · rcases entry_mem with rfl | rfl <;> simp
  · cases git_eq : event.git with
    | none => simp [git_eq] at value_eq
    | some git =>
        simp only [git_eq, Option.map_some, Option.some.injEq] at value_eq
        exact Or.inr (Or.inr (Or.inr (Or.inr ⟨git, value_eq.symm⟩)))
  · rcases entry_mem with rfl | rfl
    · simp
    · cases event.prevHash <;> simp

theorem plainEntry_git (git : GitFacts) (key : String) : PlainEntry 1 (key, git.toValue) := by
  refine plainEntry_ofEntries (fun entry entry_mem => ?_) key
  simp only [List.mem_cons, List.not_mem_nil, or_false] at entry_mem
  rcases entry_mem with rfl | rfl | rfl <;> exact plainEntry_string _ _ _

theorem wellFormed_envelope (event : Event) : event.envelope.WellFormed := by
  refine Value.wellFormed_ofEntries fun entry entry_mem => ?_
  rcases mem_envelopeEntries entry_mem with ⟨text, value_eq⟩ | ⟨n, value_eq⟩ | value_eq |
    ⟨caller, value_eq⟩ | ⟨git, value_eq⟩ <;> rw [value_eq]
  · exact .string text
  · exact .number _
  · exact .null
  · exact (caller.plainEntry "").2.1
  · exact (plainEntry_git git "").2.1

theorem nesting_envelope (event : Event) : event.envelope.nesting < recursionLimit := by
  have bound : event.envelope.nesting ≤ 3 + 1 := by
    refine Value.nesting_ofEntries_le fun entry entry_mem => ?_
    rcases mem_envelopeEntries entry_mem with ⟨text, value_eq⟩ | ⟨n, value_eq⟩ | value_eq |
      ⟨caller, value_eq⟩ | ⟨git, value_eq⟩ <;> rw [value_eq]
    · simp [Value.nesting]
    · simp [Value.nesting, Value.ofNat]
    · simp [Value.nesting]
    · exact (caller.plainEntry "").2.2
    · exact (plainEntry_git git "").2.2.trans (by decide)
  exact lt_of_le_of_lt bound (by decide)

theorem key_mem_envelope {event : Event} {entry : String × Value}
    (entry_mem : entry ∈ event.envelopeEntries) :
    entry.1 ∈ ["project_id", "seq", "stream", "stream_version", "type", "type_version", "actor",
      "caller", "recorded_at", "request_id", "git", "policy_version", "prev_hash"] := by
  simp only [envelopeEntries, List.mem_append, List.mem_cons, List.not_mem_nil, or_false,
    Members.mem_optional] at entry_mem
  rcases entry_mem with (((entry_mem | ⟨key_eq, _⟩) | entry_mem) | ⟨key_eq, _⟩) | entry_mem
  · rcases entry_mem with rfl | rfl | rfl | rfl | rfl | rfl | rfl <;> simp
  · simp [key_eq]
  · rcases entry_mem with rfl | rfl <;> simp
  · simp [key_eq]
  · rcases entry_mem with rfl | rfl <;> simp

end Event

/-- The entry whose key comes before all others stands first. -/
theorem sortEntries_head {α : Type} {entries : List (String × α)} {key : String} {value : α}
    (entry_mem : (key, value) ∈ entries)
    (least : ∀ entry ∈ entries, entry.1 ≠ key → encodeUtf16 key < encodeUtf16 entry.1) :
    ∃ value tail, sortEntries entries = (key, value) :: tail := by
  have sorted := sortEntries_pairwise entries
  have sorted_mem := mem_sortEntries.mpr entry_mem
  cases sorted_eq : sortEntries entries with
  | nil => simp [sorted_eq] at sorted_mem
  | cons head tail =>
      rw [sorted_eq] at sorted sorted_mem
      have head_key : head.1 = key := by
        by_contra other
        have head_mem : head ∈ entries := mem_sortEntries.mp (by simp [sorted_eq])
        have before := least head head_mem other
        rcases List.mem_cons.mp sorted_mem with rfl | tail_mem
        · exact other rfl
        · exact absurd ((List.pairwise_cons.mp sorted).1 _ tail_mem) (not_le.mpr before)
      exact ⟨head.2, tail, by rw [← head_key]⟩

namespace Event

/-- The envelope's text starts with the key of its actor. -/
theorem keyed_envelope (event : Event) : Keyed (utf8 (compact event.envelope)) := by
  have actor_mem : ("actor", Value.string event.actor.asStr) ∈
      Members.ofEntries event.envelopeEntries := by
    refine Members.mem_of_lookup ?_
    simp [envelopeEntries]
  have entry_mem : ("actor", compact (.string event.actor.asStr)) ∈
      compactMembers (Members.ofEntries event.envelopeEntries) := by
    rw [compactMembers_eq_map]
    exact List.mem_map.mpr ⟨_, actor_mem, rfl⟩
  have least : ∀ entry ∈ compactMembers (Members.ofEntries event.envelopeEntries),
      entry.1 ≠ "actor" → encodeUtf16 "actor" < encodeUtf16 entry.1 := by
    intro entry entry_mem entry_ne
    rw [compactMembers_eq_map] at entry_mem
    obtain ⟨member, member_mem, rfl⟩ := List.mem_map.mp entry_mem
    have key_mem := key_mem_envelope (Members.mem_ofEntries member_mem)
    simp only [List.mem_cons, List.not_mem_nil, or_false] at key_mem entry_ne ⊢
    rcases key_mem with key_eq | key_eq | key_eq | key_eq | key_eq | key_eq | key_eq | key_eq |
      key_eq | key_eq | key_eq | key_eq | key_eq <;> rw [key_eq] at entry_ne ⊢ <;> revert entry_ne <;>
      decide
  obtain ⟨text, tail, sorted_eq⟩ := sortEntries_head entry_mem least
  refine ⟨0x61, ?_, ?_, by decide, ?_⟩
  · exact utf8 ("ctor\"".toList ++ ':' :: text ++
      tail.flatMap (fun entry => ',' :: (writeString entry.1 ++ ':' :: entry.2)) ++ ['}'])
  · have actor_eq : writeString "actor" = '"' :: 'a' :: "ctor\"".toList := by decide
    rw [envelope, Value.ofEntries, compact, sorted_eq, List.map_cons, joined, actor_eq]
    simp only [utf8_cons, utf8_append, List.cons_append, List.flatMap_map]
    rfl
  · exact bracketed_compact_object _

/-! ## Fields from the envelope -/

section Fields

variable {first second : Event}

theorem get?_eq_of_canonicalForm (form_eq : canonicalForm first.envelope = canonicalForm second.envelope)
    (key : String) :
    (first.envelope.get? key).map canonicalForm = (second.envelope.get? key).map canonicalForm := by
  rw [← get?_canonicalForm, ← get?_canonicalForm, form_eq]

theorem text_eq_of_canonicalForm
    (key : String) (form_eq : canonicalForm first.envelope = canonicalForm second.envelope)
    {firstText secondText : String} (first_found : first.envelope.get? key = some (.string firstText))
    (second_found : second.envelope.get? key = some (.string secondText)) :
    firstText = secondText := by
  have found_eq := get?_eq_of_canonicalForm form_eq key
  rw [first_found, second_found] at found_eq
  exact Value.string.inj (Option.some.inj found_eq)

theorem nat_eq_of_canonicalForm (key : String)
    (form_eq : canonicalForm first.envelope = canonicalForm second.envelope)
    (first_inDomain : InDomain first.envelope) (second_inDomain : InDomain second.envelope)
    {firstNat secondNat : Nat}
    (first_found : first.envelope.get? key = some (.ofNat firstNat))
    (second_found : second.envelope.get? key = some (.ofNat secondNat)) :
    firstNat = secondNat := by
  have found_eq := get?_eq_of_canonicalForm form_eq key
  rw [first_found, second_found, Option.map_some, Option.map_some,
    canonicalForm_ofNat (first_inDomain.get? first_found),
    canonicalForm_ofNat (second_inDomain.get? second_found)] at found_eq
  exact Value.ofNat_injective (Option.some.inj found_eq)

theorem git_toValue_injective : Function.Injective GitFacts.toValue := by
  intro first second value_eq
  have commit_eq := congrArg (Value.get? · "commit") value_eq
  have tree_eq := congrArg (Value.get? · "tree") value_eq
  have checkout_eq := congrArg (Value.get? · "checkout") value_eq
  obtain ⟨commit, tree, checkout⟩ := first
  simp [GitFacts.toValue] at commit_eq tree_eq checkout_eq
  simp [commit_eq, tree_eq, checkout_eq]

/-- The canonical envelope determines every envelope field. -/
theorem fields_eq_of_canonicalForm
    (form_eq : canonicalForm first.envelope = canonicalForm second.envelope)
    (first_inDomain : InDomain first.envelope) (second_inDomain : InDomain second.envelope)
    (payload_eq : canonicalJson first.payload = canonicalJson second.payload) :
    Agrees first second where
  projectId := text_eq_of_canonicalForm "project_id" form_eq
    (by simp [envelope, envelopeEntries])
    (by simp [envelope, envelopeEntries])
  seq := nat_eq_of_canonicalForm "seq" form_eq first_inDomain second_inDomain
    (by simp [envelope, envelopeEntries])
    (by simp [envelope, envelopeEntries])
  stream := text_eq_of_canonicalForm "stream" form_eq
    (by simp [envelope, envelopeEntries])
    (by simp [envelope, envelopeEntries])
  streamVersion := nat_eq_of_canonicalForm "stream_version" form_eq first_inDomain
    second_inDomain
    (by simp [envelope, envelopeEntries])
    (by simp [envelope, envelopeEntries])
  typeName := text_eq_of_canonicalForm "type" form_eq
    (by simp [envelope, envelopeEntries])
    (by simp [envelope, envelopeEntries])
  typeVersion := nat_eq_of_canonicalForm "type_version" form_eq first_inDomain
    second_inDomain
    (by simp [envelope, envelopeEntries])
    (by simp [envelope, envelopeEntries])
  actor := Actor.asStr_injective (text_eq_of_canonicalForm "actor" form_eq
    (by simp [envelope, envelopeEntries])
    (by simp [envelope, envelopeEntries]))
  caller := by
    have found_eq := get?_eq_of_canonicalForm form_eq "caller"
    simp only [envelope, envelopeEntries, Value.get?_ofEntries, Members.lookup_ofEntries] at found_eq
    simp at found_eq
    cases first_caller : first.caller <;> cases second_caller : second.caller <;>
      simp_all [(Caller.plainEntry _ "").1.canonicalForm_eq, Caller.toValue_injective.eq_iff]
  recordedAt := text_eq_of_canonicalForm "recorded_at" form_eq
    (by simp [envelope, envelopeEntries])
    (by simp [envelope, envelopeEntries])
  requestId := text_eq_of_canonicalForm "request_id" form_eq
    (by simp [envelope, envelopeEntries])
    (by simp [envelope, envelopeEntries])
  git := by
    have found_eq := get?_eq_of_canonicalForm form_eq "git"
    simp only [envelope, envelopeEntries, Value.get?_ofEntries, Members.lookup_ofEntries] at found_eq
    simp at found_eq
    cases first_git : first.git <;> cases second_git : second.git <;>
      simp_all [(plainEntry_git _ "").1.canonicalForm_eq, git_toValue_injective.eq_iff]
  policyVersion := nat_eq_of_canonicalForm "policy_version" form_eq first_inDomain
    second_inDomain
    (by simp [envelope, envelopeEntries])
    (by simp [envelope, envelopeEntries])
  prevHash := by
    have found_eq := get?_eq_of_canonicalForm form_eq "prev_hash"
    simp [envelope, envelopeEntries] at found_eq
    cases first_prev : first.prevHash <;> cases second_prev : second.prevHash <;>
      simp_all [canonicalForm, Hash.toHex_injective.eq_iff]
  payload := payload_eq

end Fields

/-! ## Concatenations -/

theorem canonical_of_preimage {event : Event} {bytes : List UInt8}
    (preimage_eq : event.preimage = .ok bytes) :
    InDomain event.envelope ∧ InDomain event.payload ∧
      bytes = chainPreimage event.prevHash event.projectId (utf8 (compact event.envelope))
        (utf8 (compact event.payload)) := by
  unfold preimage canonicalEnvelope at preimage_eq
  cases envelope_eq : canonicalJson event.envelope with
  | error error => simp [envelope_eq, bind, Except.bind] at preimage_eq
  | ok envelope =>
      cases payload_eq : canonicalJson event.payload with
      | error error => simp [envelope_eq, payload_eq, bind, Except.bind] at preimage_eq
      | ok payload =>
          obtain ⟨envelope_inDomain, rfl⟩ := canonicalJson_eq_ok_iff.mp envelope_eq
          obtain ⟨payload_inDomain, rfl⟩ := canonicalJson_eq_ok_iff.mp payload_eq
          simp only [envelope_eq, payload_eq, bind, Except.bind, Except.ok.injEq] at preimage_eq
          exact ⟨envelope_inDomain, payload_inDomain, preimage_eq.symm⟩

/-- The end of the envelope can be seen: what follows it starts at the same byte. -/
theorem split_eq {first second : Event} (first_inDomain : InDomain first.envelope)
    (second_inDomain : InDomain second.envelope)
    (bytes_eq : utf8 (compact first.envelope) ++ utf8 (compact first.payload) =
      utf8 (compact second.envelope) ++ utf8 (compact second.payload)) :
    canonicalForm first.envelope = canonicalForm second.envelope ∧
      compact first.payload = compact second.payload := by
  rw [← utf8_append, ← utf8_append] at bytes_eq
  have text_eq := utf8_injective bytes_eq
  have first_reads := reads_compact (wellFormed_envelope first) first_inDomain
    (nesting_envelope first) (compact first.payload) trivial
  have second_reads := reads_compact (wellFormed_envelope second) second_inDomain
    (nesting_envelope second) (compact second.payload) trivial
  rw [text_eq, second_reads] at first_reads
  simp only [Option.some.injEq, Prod.mk.injEq] at first_reads
  exact ⟨first_reads.1.symm, first_reads.2.symm⟩

/-- Two events with one preimage agree, whatever links and payloads the bytes came from. -/
theorem agrees_of_preimage {first second : Event} {bytes : List UInt8}
    (first_preimage : first.preimage = .ok bytes) (second_preimage : second.preimage = .ok bytes) :
    Agrees first second := by
  obtain ⟨first_inDomain, firstPayload_inDomain, first_eq⟩ := canonical_of_preimage first_preimage
  obtain ⟨second_inDomain, secondPayload_inDomain, second_eq⟩ := canonical_of_preimage second_preimage
  have first_keyed := keyed_envelope first
  have second_keyed := keyed_envelope second
  have firstPayload_bytes := valueBytes_compact first.payload
  have secondPayload_bytes := valueBytes_compact second.payload
  rw [first_eq] at second_eq
  simp only [chainPreimage, List.append_assoc] at second_eq
  have tail_eq : utf8 (compact first.envelope) ++ utf8 (compact first.payload) =
      utf8 (compact second.envelope) ++ utf8 (compact second.payload) := by
    rcases List.append_eq_append_iff.mp second_eq with ⟨shift, _, tail_eq⟩ | ⟨shift, _, tail_eq⟩
    · obtain rfl := keyed_aligned second_keyed secondPayload_bytes first_keyed firstPayload_bytes
        tail_eq.symm
      exact tail_eq
    · obtain rfl := keyed_aligned first_keyed firstPayload_bytes second_keyed secondPayload_bytes
        tail_eq.symm
      exact tail_eq.symm
  obtain ⟨form_eq, payload_eq⟩ := split_eq first_inDomain second_inDomain tail_eq
  refine fields_eq_of_canonicalForm form_eq first_inDomain second_inDomain ?_
  rw [canonicalJson_eq_ok_iff.mpr ⟨firstPayload_inDomain, rfl⟩,
    canonicalJson_eq_ok_iff.mpr ⟨secondPayload_inDomain, rfl⟩, payload_eq]

end Event

end Baley
