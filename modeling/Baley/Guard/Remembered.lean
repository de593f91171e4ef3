import Baley.Guard.Answer
import Baley.Members
import Baley.Projection

/-!
# The remembered policy

The denials of the last complete policy, kept per session project, target checkout and host.  No
document remembers no denial.
-/

namespace Baley

open Json

def guardPolicyView : String := "guard_policy"

def guardPolicyRecorded : String := "guard.policy_recorded"

def guardPolicyRecordedVersion : Nat := 1

def guardStream : StreamName := "guard"

/-- What a complete policy leaves behind for torn settings: its denials and nothing that allows. -/
structure DenialParts where
  refuse : Bool
  hardFail : Bool
  /-- Kept only when a denial is on. -/
  protectedBranches : List String
  deriving DecidableEq

/-- No denial. -/
def DenialParts.none : DenialParts := ⟨false, false, []⟩

/-- What settings leave behind. -/
def denialParts (settings : GuardSettings) : DenialParts :=
  let refuse := decide (settings.onProtected = .refuse)
  { refuse, hardFail := settings.hardFail
    protectedBranches := if refuse || settings.hardFail then settings.protectedBranches else [] }

/-- The denials a payload or document holds, if they can be read. -/
def storedParts (value : Value) : Option DenialParts := do
  let protectedBranches ← asTexts (← value.get? "protected_branches")
  let refuse ← asBool (← value.get? "refuse")
  let hardFail ← asBool (← value.get? "hard_fail")
  some { refuse, hardFail, protectedBranches }

/-- Whether the denials must be recorded over the document under their key, if any. -/
def denialsChanged (stored : Option Value) (current : DenialParts) : Bool :=
  let remembered :=
    match stored with
    | none => some DenialParts.none
    | some document => storedParts document
  decide (remembered ≠ some current)

/-- The settings a document hands the commit judge. -/
def rememberedSettings (stored : Value) : Option GuardSettings := do
  let parts ← storedParts stored
  some
    { protectedBranches := parts.protectedBranches
      onProtected := if parts.refuse then .refuse else .ask
      hardFail := parts.hardFail }

def guardPolicySpec : ViewSpec where
  name := guardPolicyView
  version := 1
  key := [⟨"project_root", .text⟩, ⟨"checkout_key", .text⟩, ⟨"host", .text⟩]
  indexes := []
  pageBound := 1

/-- The key of what is remembered for one session project, target checkout and host. -/
def guardPolicyKey (projectRoot : String) (checkoutRoot : Option String) (host : String) : DocKey :=
  [.text projectRoot, .text (checkoutRoot.getD ""), .text host]

def policyRecordedPayload (projectRoot : String) (checkoutRoot : Option String) (host : String)
    (parts : DenialParts) : Value :=
  .ofEntries
    [("project_root", .string projectRoot), ("checkout_root", textOrNull checkoutRoot),
      ("host", .string host), ("refuse", .bool parts.refuse), ("hard_fail", .bool parts.hardFail),
      ("protected_branches", texts parts.protectedBranches)]

namespace GuardPolicyProjector

def refuse (event : Event) (message : String) : String :=
  event.typeName ++ " at seq " ++ event.seq.repr ++ ": " ++ message

/-- A text member that is not empty. -/
def text (event : Event) (member : String) : Option String :=
  (textOf event.payload member).filter fun value => value ≠ ""

/-- The checkout root: null for none, never an empty text. -/
def checkout (event : Event) : Option (Option String) :=
  match event.payload.get? "checkout_root" with
  | some .null => some none
  | some (.string checkout) => if checkout ≠ "" then some (some checkout) else none
  | _ => none

/-- The document of a key. -/
def document (project : String) (checkout : Option String) (host : String) (parts : DenialParts)
    (seq : Nat) : Value :=
  .ofEntries
    [("project_root", .string project), ("checkout_key", .string (checkout.getD "")),
      ("host", .string host), ("refuse", .bool parts.refuse), ("hard_fail", .bool parts.hardFail),
      ("protected_branches", texts parts.protectedBranches), ("seq", .ofNat seq)]

@[simp]
theorem storedParts_document (project : String) (checkout : Option String) (host : String)
    (parts : DenialParts) (seq : Nat) :
    storedParts (document project checkout host parts seq) = some parts := by
  simp [storedParts, document, Members.lookup_ofEntries, Members.lookup_cons, asBool]

def apply (event : Event) (_ : List (DocKey × Value)) : Except String (List Change) := do
  let _ ← .ofOption (refuse event "the payload is not an object") event.payload.asObject
  let missing := refuse event "project_root or host is missing, not text or empty"
  let project ← .ofOption missing (text event "project_root")
  let host ← .ofOption missing (text event "host")
  let checkout ← .ofOption (refuse event "checkout_root is neither null nor non-empty text")
    (checkout event)
  let parts ← .ofOption
    (refuse event "refuse, hard_fail or protected_branches is missing or of the wrong type")
    (storedParts event.payload)
  .ok [.put (guardPolicyKey project checkout host)
    (document project checkout host parts event.seq)]

end GuardPolicyProjector

/-- Keeps the `guard_policy` view current: the latest record of a key replaces its document. -/
def guardPolicyProjector : Projector where
  spec := guardPolicySpec
  handles := [guardPolicyRecorded]
  keys := fun _ => []
  apply := GuardPolicyProjector.apply

/-! ## Keys -/

/-- The canonical root of a project or a checkout, which is never empty. -/
structure Root where
  text : String
  text_ne : text ≠ ""

/-- What denials are remembered under: the session project, the checkout the commit reaches if any,
and the host. -/
structure GuardKey where
  project : Root
  checkout : Option Root
  host : HostName

namespace GuardKey

/-- The document key. -/
def docKey (key : GuardKey) : DocKey :=
  guardPolicyKey key.project.text (key.checkout.map Root.text) key.host.text.val

theorem hostName_ext {first second : HostName} (text_eq : first.text.val = second.text.val) :
    first = second := by
  obtain ⟨⟨_, _, _⟩, _⟩ := first
  obtain ⟨⟨_, _, _⟩, _⟩ := second
  simp only at text_eq
  subst text_eq
  rfl

theorem root_ext {first second : Root} (text_eq : first.text = second.text) : first = second := by
  obtain ⟨_, _⟩ := first
  obtain ⟨_, _⟩ := second
  simp only at text_eq
  subst text_eq
  rfl

/-- Two keys never share a document. -/
theorem docKey_injective : Function.Injective docKey := by
  rintro ⟨project, checkout, host⟩ ⟨project', checkout', host'⟩ key_eq
  simp only [docKey, guardPolicyKey, List.cons.injEq, KeyValue.text.injEq, and_true] at key_eq
  obtain ⟨project_eq, checkout_eq, host_eq⟩ := key_eq
  have same_checkout : checkout = checkout' := by
    cases checkout with
    | none =>
        cases checkout' with
        | none => rfl
        | some root => exact absurd checkout_eq.symm root.text_ne
    | some root =>
        cases checkout' with
        | none => exact absurd checkout_eq root.text_ne
        | some root' => exact congrArg some (root_ext checkout_eq)
  rw [root_ext project_eq, same_checkout, hostName_ext host_eq]

end GuardKey

/-! ## What is read back -/

/-- Whether parts keep protected branches only beside a denial. -/
def DenialParts.Kept (parts : DenialParts) : Prop :=
  parts.refuse = false → parts.hardFail = false → parts.protectedBranches = []

theorem denialParts_kept (settings : GuardSettings) : (denialParts settings).Kept := by
  intro not_refused not_hard
  simp only [denialParts] at not_refused not_hard ⊢
  rw [not_refused, not_hard]
  rfl

/-- Settings rebuilt from parts leave the same parts behind. -/
theorem denialParts_rememberedSettings {stored : Value} {parts : DenialParts} (kept : parts.Kept)
    (stored_eq : storedParts stored = some parts) :
    ∃ settings, rememberedSettings stored = some settings ∧ denialParts settings = parts := by
  obtain ⟨refuse, hardFail, branches⟩ := parts
  refine ⟨_, by rw [rememberedSettings, stored_eq]; rfl, ?_⟩
  cases refuse <;> cases hardFail <;> simp [denialParts]
  exact kept rfl rfl

@[simp]
theorem storedParts_payload (projectRoot : String) (checkoutRoot : Option String) (host : String)
    (parts : DenialParts) :
    storedParts (policyRecordedPayload projectRoot checkoutRoot host parts) = some parts := by
  simp [storedParts, policyRecordedPayload, Members.lookup_ofEntries, Members.lookup_cons, asBool]

/-- Settings deny a commit under torn settings exactly when they deny it as complete ones. -/
theorem tornCommit_denies_of_parts {settings last : GuardSettings} {branch : BranchObservation}
    {torn : String} (same : denialParts last = denialParts settings)
    (denied : (completeCommit settings branch).Denies) :
    (tornCommit torn (some last) branch).Denies := by
  have refuse_eq : decide (last.onProtected = .refuse) = decide (settings.onProtected = .refuse) :=
    congrArg DenialParts.refuse same
  have hard_eq : last.hardFail = settings.hardFail := congrArg DenialParts.hardFail same
  have branches_eq : (denialParts last).protectedBranches =
      (denialParts settings).protectedBranches := congrArg DenialParts.protectedBranches same
  simp only [denialParts, refuse_eq, hard_eq] at branches_eq
  rw [completeCommit_denies] at denied
  rw [tornCommit_denies]
  rcases denied with ⟨name, branch_eq, refused, guarded⟩ | ⟨name, failure, branch_eq, hard, guarded⟩
  · have refused' : last.onProtected = .refuse := by simpa [refused] using refuse_eq
    rw [if_pos (by simp [refused]), if_pos (by simp [refused])] at branches_eq
    refine Or.inl ⟨name, branch_eq, refused', ?_⟩
    rw [GuardSettings.protects, branches_eq]
    exact guarded
  · rw [if_pos (by simp [hard]), if_pos (by simp [hard])] at branches_eq
    refine Or.inr ⟨name, failure, branch_eq, hard_eq.trans hard, ?_⟩
    rw [GuardSettings.protects, branches_eq]
    exact guarded

end Baley
