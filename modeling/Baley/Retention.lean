import Baley.Payload

/-!
# Store-owned retention events and the excerpt range rule
-/

namespace Baley

open Json

def payloadReducedVersion : Nat := 1
def payloadPurgedVersion : Nat := 1

/-- The stream for store-owned retention events. -/
def retentionStream : String := "retention"

/-- Bytes kept at each edge of a reduced output. -/
def excerptEdge : Nat := 65536

/-- The two disjoint ranges retained when an excerpt saves space. -/
def keptRanges (bytes : Nat) : Option ((Nat × Nat) × (Nat × Nat)) :=
  if excerptEdge * 2 < bytes then some ((0, excerptEdge), (bytes - excerptEdge, bytes)) else none

/-- A pair of numbers as an array. -/
def rangeValue (range : Nat × Nat) : Value :=
  .array [.ofNat range.1, .ofNat range.2]

/-- The two ranges an excerpt keeps, as the event and the payload row hold them. -/
def keptValue (kept : (Nat × Nat) × (Nat × Nat)) : Value :=
  .array [rangeValue kept.1, rangeValue kept.2]

/-- The data carried by `payload.reduced`. -/
structure ReducedEvent where
  /-- The sequence of the original reference's event. -/
  seq : Nat
  original : Hash
  originalBytes : Nat
  /-- The excerpt attached to this event. -/
  excerpt : PayloadRef
  kept : (Nat × Nat) × (Nat × Nat)

namespace ReducedEvent

def toValue (event : ReducedEvent) : Value :=
  .ofEntries
    [("reference", .ofEntries
        [("seq", .ofNat event.seq), ("hash", .string event.original.toHex)]),
      ("original_bytes", .ofNat event.originalBytes), ("excerpt", event.excerpt.toValue),
      ("kept", keptValue event.kept)]

@[simp]
theorem wellFormed_toValue (event : ReducedEvent) : event.toValue.WellFormed := by
  have reference_wellFormed : (Value.ofEntries
      [("seq", .ofNat event.seq), ("hash", .string event.original.toHex)]).WellFormed :=
    Value.wellFormed_ofEntries (by simp)
  exact Value.wellFormed_ofEntries
    (by simp [reference_wellFormed, keptValue, rangeValue])

theorem nesting_toValue (event : ReducedEvent) : event.toValue.nesting ≤ 3 := by
  have reference_le : (Value.ofEntries
      [("seq", .ofNat event.seq), ("hash", .string event.original.toHex)]).nesting ≤ 1 :=
    Value.nesting_ofEntries_le (by simp)
  have range_le (range : Nat × Nat) : (rangeValue range).nesting ≤ 1 :=
    Value.nesting_array_le (by simp)
  have kept_le : (keptValue event.kept).nesting ≤ 2 :=
    Value.nesting_array_le (by simp [range_le])
  have excerpt_le := event.excerpt.nesting_toValue
  refine Value.nesting_ofEntries_le ?_
  simp only [List.forall_mem_cons, Value.nesting_ofNat]
  exact ⟨by omega, by omega, by omega, kept_le, by simp⟩

def keptRange (value : Value) (index : Nat) : Option (Nat × Nat) := do
  match ← (← (← (← value.get? "kept").asArray)[index]?).asArray with
  | [first, last] => some (← first.asU64, ← last.asU64)
  | _ => none

def fromValue (value : Value) : Option ReducedEvent := do
  let reference ← value.get? "reference"
  let seq ← (← reference.get? "seq").asU64
  let original ← Hash.fromHex (← (← reference.get? "hash").asStr)
  let originalBytes ← (← value.get? "original_bytes").asU64
  let excerpt ← PayloadRef.fromValue (← value.get? "excerpt")
  let first ← keptRange value 0
  let last ← keptRange value 1
  some { seq, original, originalBytes, excerpt, kept := (first, last) }

end ReducedEvent

/-- The data carried by `payload.purged`; hash lists and released pairs are sorted. -/
structure PurgedEvent where
  requested : List Hash
  /-- Source sequence and hash of each reference this project released. -/
  released : List (Nat × Hash)
  /-- Hashes whose bodies this purge removed. -/
  removed : List Hash
  /-- Released hashes still required, plus requested originals with shared excerpts. -/
  shared : List Hash
  reason : String

namespace PurgedEvent

def hashesValue (hashes : List Hash) : Value :=
  .array (hashes.map fun hash => .string hash.toHex)

def pairValue (pair : Nat × Hash) : Value :=
  .array [.ofNat pair.1, .string pair.2.toHex]

def toValue (event : PurgedEvent) : Value :=
  .ofEntries
    [("requested", hashesValue event.requested),
      ("released", .array (event.released.map pairValue)),
      ("removed", hashesValue event.removed), ("shared", hashesValue event.shared),
      ("reason", .string event.reason)]

theorem wellFormed_hashesValue (hashes : List Hash) : (hashesValue hashes).WellFormed := by
  simp [hashesValue]

@[simp]
theorem wellFormed_toValue (event : PurgedEvent) : event.toValue.WellFormed := by
  have released_wellFormed : (Value.array (event.released.map pairValue)).WellFormed := by
    rw [Value.wellFormed_array_iff]
    intro item item_mem
    obtain ⟨pair, -, rfl⟩ := List.mem_map.mp item_mem
    simp [pairValue]
  refine Value.wellFormed_ofEntries ?_
  simp only [List.forall_mem_cons, wellFormed_hashesValue, released_wellFormed,
    Value.wellFormed_string, true_and]
  simp

theorem nesting_toValue (event : PurgedEvent) : event.toValue.nesting ≤ 3 := by
  have hashes_le (hashes : List Hash) : (hashesValue hashes).nesting ≤ 1 :=
    Value.nesting_array_le (by simp)
  have released_le : (Value.array (event.released.map pairValue)).nesting ≤ 2 := by
    refine Value.nesting_array_le fun item item_mem => ?_
    obtain ⟨pair, -, rfl⟩ := List.mem_map.mp item_mem
    exact Value.nesting_array_le (by simp)
  have requested_le := hashes_le event.requested
  have removed_le := hashes_le event.removed
  have shared_le := hashes_le event.shared
  refine Value.nesting_ofEntries_le ?_
  simp only [List.forall_mem_cons, Value.nesting_string]
  exact ⟨by omega, released_le, by omega, by omega, by omega, by simp⟩

def hashes (value : Value) (name : String) : Option (List Hash) := do
  (← (← value.get? name).asArray).mapM fun item => do Hash.fromHex (← item.asStr)

def pair (value : Value) : Option (Nat × Hash) := do
  match ← value.asArray with
  | [seq, hash] => some (← seq.asU64, ← Hash.fromHex (← hash.asStr))
  | _ => none

def fromValue (value : Value) : Option PurgedEvent := do
  let requested ← hashes value "requested"
  let released ← (← (← value.get? "released").asArray).mapM pair
  let removed ← hashes value "removed"
  let shared ← hashes value "shared"
  let reason ← (← value.get? "reason").asStr
  some { requested, released, removed, shared, reason }

end PurgedEvent

end Baley
