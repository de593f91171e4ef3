import Baley.Checkout.Judge
import Baley.Models.Names

/-!
# The recorded policy

The `policy.effective` payload, the view that keeps the latest one of each checkout and host, and
whether a payload differs from what is stored.
-/

namespace Baley

open Json
open Models (Host)

def policyEffective : String := "policy.effective"
def policyEffectiveVersion : Nat := 1
def policyView : String := "policy"

/-- A checkout and the policy it ran under: the settings, their sources and the diagnostics. -/
structure RecordedPolicy where
  checkout : String
  /-- The connected host, or nothing for the command line. -/
  host : Option Host
  values : Value
  sources : Value
  diagnostics : Value
  values_wellFormed : values.WellFormed
  sources_wellFormed : sources.WellFormed
  diagnostics_wellFormed : diagnostics.WellFormed

/-- The `policy.effective` payload, citing a catalog version. -/
def effectivePayload (recorded : RecordedPolicy) (project : ProjectId) (catalogVersion : Nat) :
    Value :=
  .ofEntries
    [("project", .string project), ("checkout", .string recorded.checkout),
      ("host", textOrNull (recorded.host.map Host.name)), ("values", recorded.values),
      ("sources", recorded.sources), ("diagnostics", recorded.diagnostics),
      ("catalog_version", .ofNat catalogVersion)]

theorem wellFormed_effectivePayload (recorded : RecordedPolicy) (project : ProjectId)
    (catalogVersion : Nat) : (effectivePayload recorded project catalogVersion).WellFormed :=
  Value.wellFormed_ofEntries (by
    simp [recorded.values_wellFormed, recorded.sources_wellFormed, recorded.diagnostics_wellFormed])

/-! ## The `policy` view -/

/-- The key of one checkout's document for a host; the command line's host text is empty. -/
def policyKey (checkout : String) (host : Option Host) : DocKey :=
  [.text checkout, .text (host.elim "" Host.name)]

theorem policyKey_injective {checkout checkout' : String} {host host' : Option Host}
    (same : policyKey checkout host = policyKey checkout' host') :
    checkout = checkout' ∧ host = host' := by
  simp only [policyKey, List.cons.injEq, KeyValue.text.injEq, and_true] at same
  refine ⟨same.1, ?_⟩
  cases host with
  | none =>
      cases host' with
      | none => rfl
      | some known => exact absurd same.2 (by cases known; decide)
  | some known =>
      cases host' with
      | none => exact absurd same.2 (by cases known; decide)
      | some known' => cases known; cases known'; rfl

def policySpec : ViewSpec where
  name := policyView
  version := 1
  key := [⟨"checkout", .text⟩, ⟨"host_key", .text⟩]
  indexes := []
  pageBound := 1

namespace PolicyProjector

def refuse (event : Event) (message : String) : String :=
  event.typeName ++ " at seq " ++ event.seq.repr ++ ": " ++ message

/-- The text the key holds for a payload's host. -/
def hostText (event : Event) : Option String :=
  match event.payload.get? "host" with
  | some .null => some ""
  | some (.string host) => if host = "" then none else some host
  | _ => none

/-- The payload under its key's second field and the sequence that is its version. -/
def body (event : Event) (host : String) : Value :=
  (event.payload.set "host_key" (.string host)).set "version" (.ofNat event.seq)

def apply (event : Event) (_ : List (DocKey × Value)) : Except String (List Change) :=
  match event.payload with
  | .object _ =>
      match event.payload.get? "checkout" with
      | some (.string checkout) =>
          if checkout = "" then .error (refuse event "checkout is missing, not text or empty")
          else
            match hostText event with
            | some host => .ok [.put [.text checkout, .text host] (body event host)]
            | none => .error (refuse event "host is neither null nor non-empty text")
      | _ => .error (refuse event "checkout is missing, not text or empty")
  | _ => .error (refuse event "the payload is not an object")

/-- The key an event's document is put at. -/
def keyOf (event : Event) : Option DocKey := do
  let checkout ← textOf event.payload "checkout"
  let host ← hostText event
  some [.text checkout, .text host]

/-- The body an event's document is given. -/
def bodyOf (event : Event) : Value :=
  body event ((hostText event).getD "")

end PolicyProjector

/-- Keeps the latest `policy.effective` of each checkout and host. -/
def policyProjector : Projector where
  spec := policySpec
  handles := [policyEffective]
  keys := fun _ => []
  apply := PolicyProjector.apply

theorem policy_keepsLast :
    Ledger.KeepsLast policyProjector PolicyProjector.keyOf PolicyProjector.bodyOf where
  applied := by
    intro event documents changes _ applied
    simp only [policyProjector, PolicyProjector.apply] at applied
    split at applied
    · split at applied
      · next checkout checkout_eq =>
          split_ifs at applied
          split at applied
          · next host host_eq =>
              refine ⟨[.text checkout, .text host], ?_, ?_⟩
              · simp [PolicyProjector.keyOf, textOf, checkout_eq, host_eq]
              · rw [PolicyProjector.bodyOf, host_eq]
                exact (Except.ok.inj applied).symm
          · cases applied
      · cases applied
    · cases applied

/-! ## Whether a policy is recorded -/

/-- The members a record is compared on. -/
def comparedMembers : List String := ["values", "sources", "diagnostics", "catalog_version"]

inductive PolicyJudgement where
  | unchanged (version : Nat)
  | record
  deriving DecidableEq

/-- Whether a payload holds what a stored body does, on every compared member. -/
def sameCompared (payload stored : Value) : Bool :=
  comparedMembers.all fun member =>
    match stored.get? member, payload.get? member with
    | some held, some supplied => supplied == held
    | _, _ => false

/-- Judge a payload against the body stored at its key. -/
def judgePolicy (payload : Value) (stored : Option Value) : PolicyJudgement :=
  match stored with
  | none => .record
  | some stored =>
      match (stored.get? "version").bind Value.asU64 with
      | some version =>
          if 0 < version ∧ sameCompared payload stored then .unchanged version else .record
      | none => .record

theorem judgePolicy_unchanged {payload : Value} {stored : Option Value} {version : Nat}
    (judged : judgePolicy payload stored = .unchanged version) :
    ∃ body, stored = some body ∧ (body.get? "version").bind Value.asU64 = some version ∧
      ∀ member ∈ comparedMembers, payload.get? member = body.get? member := by
  unfold judgePolicy at judged
  split at judged
  · cases judged
  · next body =>
      split at judged
      · next found version_eq =>
          split_ifs at judged with same
          obtain rfl := PolicyJudgement.unchanged.inj judged
          refine ⟨body, rfl, version_eq, fun member member_mem => ?_⟩
          have held := List.all_eq_true.mp same.2 member member_mem
          split at held
          · next supplied_eq held_eq =>
              rw [supplied_eq, held_eq, Value.eq_of_beq held]
          · cases held
      · cases judged

/-- A payload to record differs from a stored body that has a version and every compared member. -/
theorem judgePolicy_record {payload body : Value} {version : Nat}
    (judged : judgePolicy payload (some body) = .record)
    (version_eq : (body.get? "version").bind Value.asU64 = some version) (positive : 0 < version)
    (payload_has : ∀ member ∈ comparedMembers, (payload.get? member).isSome = true) :
    ∃ member ∈ comparedMembers, payload.get? member ≠ body.get? member := by
  by_contra none_differs
  push Not at none_differs
  have same : sameCompared payload body = true := by
    refine List.all_eq_true.mpr fun member member_mem => ?_
    obtain ⟨supplied, supplied_eq⟩ := Option.isSome_iff_exists.mp (payload_has member member_mem)
    rw [← none_differs member member_mem, supplied_eq]
    exact Value.beq_self supplied
  simp [judgePolicy, version_eq, positive, same] at judged

/-- What the policy view puts beside a payload leaves the compared members as they are. -/
theorem get?_bodyOf {event : Event} {members : Members} (object_eq : event.payload = .object members)
    {member : String} (member_mem : member ∈ comparedMembers) :
    (PolicyProjector.bodyOf event).get? member = event.payload.get? member := by
  have differ : member ≠ "host_key" ∧ member ≠ "version" := by
    simp only [comparedMembers, List.mem_cons, List.not_mem_nil, or_false] at member_mem
    rcases member_mem with rfl | rfl | rfl | rfl <;> decide
  rw [PolicyProjector.bodyOf, PolicyProjector.body, object_eq]
  simp [Value.set, differ.1, differ.2]

end Baley
