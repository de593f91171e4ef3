import Baley.Ledger.Recorded
import Baley.Members

/-!
# The fork judgement

One checkout against the project's checkout rows: a fork, a checkout already seen as it is, or one to
record.
-/

namespace Baley

open Json

def checkoutSeen : String := "checkout.seen"
def checkoutSeenVersion : Nat := 1
def checkoutView : String := "checkout"

/-- One checkout as gathered. -/
structure Checkout where
  /-- The checkout's root. -/
  path : String
  /-- The repository's root commit, or nothing for an unborn HEAD. -/
  rootCommit : Option String
  /-- The remote URL with its user information stripped. -/
  remoteUrl : Option String
  deriving DecidableEq

@[simp]
theorem wellFormed_textOrNull (text : Option String) : (textOrNull text).WellFormed := by
  cases text <;> simp [textOrNull]

/-- The `checkout.seen` payload. -/
def seenPayload (checkout : Checkout) : Value :=
  .ofEntries
    [("path", .string checkout.path), ("root_commit", textOrNull checkout.rootCommit),
      ("remote_url", textOrNull checkout.remoteUrl)]

theorem wellFormed_seenPayload (checkout : Checkout) : (seenPayload checkout).WellFormed :=
  Value.wellFormed_ofEntries (by simp)

/-- A checkout that shares a project id with a checkout of another remote. -/
structure ProjectIdConflict where
  path : String
  remoteUrl : String
  otherPath : String
  otherRemoteUrl : String
  deriving DecidableEq

namespace ProjectIdConflict

def code : String := "project-id-conflict"

def text (conflict : ProjectIdConflict) : String :=
  code ++ ": the checkout at " ++ conflict.path ++ " has the remote " ++ conflict.remoteUrl ++
    ", but the project already has a checkout at " ++ conflict.otherPath ++ " with the remote " ++
    conflict.otherRemoteUrl ++
    ", so this one is a fork. Run `baley init --new-id` in this checkout to give it its own project"

end ProjectIdConflict

/-- What checkout admission does with a checkout. -/
inductive CheckoutVerdict where
  | conflict (conflict : ProjectIdConflict)
  | unchanged
  | record
  deriving DecidableEq

/-- A member as the projector writes it: a text or null; nothing for anything else. -/
def storedMember (row : Value) (member : String) : Option (Option String) :=
  match row.get? member with
  | some .null => some none
  | some (.string text) => some (some text)
  | _ => none

/-- The first of the pairs with the lowest path. -/
def minByPath : List (String × String) → Option (String × String)
  | [] => none
  | pair :: pairs =>
      match minByPath pairs with
      | none => some pair
      | some least => if least.1 < pair.1 then some least else some pair

/-- The other paths whose rows hold another URL. -/
def conflicting (path remoteUrl : String) (rows : List Value) : List (String × String) :=
  (rows.filterMap fun row => do
    let path ← textOf row "path"
    let url ← textOf row "remote_url"
    some (path, url)).filter fun pair => pair.1 ≠ path && pair.2 ≠ remoteUrl

/-- Whether a row already holds the checkout as it is. -/
def rowHolds (checkout : Checkout) (row : Value) : Bool :=
  textOf row "path" = some checkout.path &&
    storedMember row "root_commit" = some checkout.rootCommit &&
    storedMember row "remote_url" = some checkout.remoteUrl

/-- Judge a checkout against the bodies of the project's checkout rows. -/
def judgeCheckout (checkout : Checkout) (rows : List Value) : CheckoutVerdict :=
  let other := checkout.remoteUrl.bind fun remoteUrl =>
    (minByPath (conflicting checkout.path remoteUrl rows)).map fun other =>
      ({ path := checkout.path, remoteUrl, otherPath := other.1, otherRemoteUrl := other.2 } :
        ProjectIdConflict)
  match other with
  | some conflict => .conflict conflict
  | none => if rows.any (rowHolds checkout) then .unchanged else .record

/-! ## The plan of an admission -/

/-- One request of an admitting command. -/
inductive CheckoutOperation where
  | recordSeen (payload : Value) (wellFormed : payload.WellFormed)
  | policyStep
  | command

inductive CheckoutAction where
  | refuse (conflict : ProjectIdConflict)
  | proceed (operations : List CheckoutOperation)

structure CheckoutPlan where
  /-- It rides a refusal too: the command is built before the judgement is made again. -/
  policyVersion : Nat
  action : CheckoutAction

/-- The version a stored policy holds, or 0. -/
def storedVersion (body : Value) : Nat :=
  ((body.get? "version").bind Value.asU64).getD 0

/-- The plan of admitting a checkout against the rows and the policy stored for its path. -/
def planCheckoutAdmission (checkout : Checkout) (rows : List Value) (storedPolicy : Option Value) :
    CheckoutPlan where
  policyVersion := storedPolicy.elim 0 storedVersion
  action :=
    match judgeCheckout checkout rows with
    | .conflict conflict => .refuse conflict
    | .unchanged => .proceed [.policyStep, .command]
    | .record =>
        .proceed
          [.recordSeen (seenPayload checkout) (wellFormed_seenPayload checkout), .policyStep,
            .command]

/-- Whether a plan opens a command: a refusal is judged again inside it. -/
def CheckoutAction.records : CheckoutAction → Bool
  | .refuse _ => true
  | .proceed operations =>
      operations.any fun operation =>
        match operation with
        | .recordSeen .. => true
        | _ => false

/-! ## What a judgement says of the rows -/

theorem minByPath_eq_none {pairs : List (String × String)} : minByPath pairs = none ↔ pairs = [] := by
  cases pairs with
  | nil => exact ⟨fun _ => rfl, fun _ => rfl⟩
  | cons pair pairs =>
      constructor
      · intro none_eq
        rw [minByPath] at none_eq
        split at none_eq
        · cases none_eq
        · split_ifs at none_eq
      · intro pairs_eq
        cases pairs_eq

/-- A checkout to record has no row as it is, and no other path holds another URL. -/
theorem judgeCheckout_record {checkout : Checkout} {rows : List Value}
    (judged : judgeCheckout checkout rows = .record) :
    (∀ row ∈ rows, rowHolds checkout row = false) ∧
      ∀ remoteUrl, checkout.remoteUrl = some remoteUrl → ∀ row ∈ rows, ∀ path url,
        textOf row "path" = some path → textOf row "remote_url" = some url →
          path ≠ checkout.path → url = remoteUrl := by
  unfold judgeCheckout at judged
  simp only at judged
  split at judged
  · cases judged
  · next none_found =>
      split_ifs at judged with held
      refine ⟨fun row row_mem => ?_, ?_⟩
      · rw [List.any_eq_true, not_exists] at held
        exact Bool.eq_false_iff.mpr fun holds => held row ⟨row_mem, holds⟩
      · intro remoteUrl url_eq row row_mem path url path_eq row_url other
        rw [url_eq, Option.bind_some, Option.map_eq_none_iff, minByPath_eq_none] at none_found
        by_contra differs
        have pair_mem : (path, url) ∈ conflicting checkout.path remoteUrl rows := by
          refine List.mem_filter.mpr ⟨List.mem_filterMap.mpr ⟨row, row_mem, ?_⟩, ?_⟩
          · simp [path_eq, row_url]
          · simp [other, differs]
        rw [none_found] at pair_mem
        cases pair_mem

/-! ## The `checkout` view -/

def checkoutSpec : ViewSpec where
  name := checkoutView
  version := 1
  key := [⟨"path", .text⟩]
  indexes := [⟨"by_path", [⟨⟨"path", .text⟩, .ascending⟩]⟩]
  pageBound := 100

/-- The most documents one page of the view holds. -/
def checkoutPageBound : Nat := 100

def checkoutKey (path : String) : DocKey := [.text path]

namespace CheckoutProjector

def refuse (event : Event) (message : String) : String :=
  event.typeName ++ " at seq " ++ event.seq.repr ++ ": " ++ message

/-- A member that is null or a non-empty text. -/
def checkMember (event : Event) (member : String) : Except String Unit :=
  match event.payload.get? member with
  | some .null => .ok ()
  | some (.string text) =>
      if text = "" then .error (refuse event (member ++ " is neither null nor non-empty text"))
      else .ok ()
  | _ => .error (refuse event (member ++ " is neither null nor non-empty text"))

def apply (event : Event) (_ : List (DocKey × Value)) : Except String (List Change) :=
  match event.payload with
  | .object _ =>
      match event.payload.get? "path" with
      | some (.string path) =>
          if path = "" then .error (refuse event "path is missing, not text or empty")
          else do
            ["root_commit", "remote_url"].forM (checkMember event)
            .ok [.put (checkoutKey path) event.payload]
      | _ => .error (refuse event "path is missing, not text or empty")
  | _ => .error (refuse event "the payload is not an object")

/-- The key an event's document is put at. -/
def keyOf (event : Event) : Option DocKey :=
  (textOf event.payload "path").map checkoutKey

end CheckoutProjector

/-- Keeps the latest `checkout.seen` of each path, whole. -/
def checkoutProjector : Projector where
  spec := checkoutSpec
  handles := [checkoutSeen]
  keys := fun _ => []
  apply := CheckoutProjector.apply

theorem checkout_keepsLast :
    Ledger.KeepsLast checkoutProjector CheckoutProjector.keyOf Event.payload where
  applied := by
    intro event documents changes _ applied
    simp only [checkoutProjector, CheckoutProjector.apply] at applied
    split at applied
    · split at applied
      · next path path_eq =>
          split_ifs at applied
          obtain ⟨_, _, changes_eq⟩ := Except.bind_eq_ok.mp applied
          refine ⟨checkoutKey path, ?_, (Except.ok.inj changes_eq).symm⟩
          simp [CheckoutProjector.keyOf, textOf, path_eq]
      · cases applied
    · cases applied

@[simp]
theorem textOf_path (checkout : Checkout) :
    textOf (seenPayload checkout) "path" = some checkout.path := by
  simp [textOf, seenPayload]

@[simp]
theorem storedMember_rootCommit (checkout : Checkout) :
    storedMember (seenPayload checkout) "root_commit" = some checkout.rootCommit := by
  cases root_eq : checkout.rootCommit <;> simp [storedMember, seenPayload, textOrNull, root_eq]

@[simp]
theorem storedMember_remoteUrl (checkout : Checkout) :
    storedMember (seenPayload checkout) "remote_url" = some checkout.remoteUrl := by
  cases url_eq : checkout.remoteUrl <;> simp [storedMember, seenPayload, textOrNull, url_eq]

@[simp]
theorem textOf_remoteUrl (checkout : Checkout) :
    textOf (seenPayload checkout) "remote_url" = checkout.remoteUrl := by
  cases url_eq : checkout.remoteUrl <;> simp [textOf, seenPayload, textOrNull, url_eq, Value.asStr]

/-- A row of a checkout holds it as it is exactly when it is the same checkout. -/
theorem rowHolds_seenPayload (checkout other : Checkout) :
    rowHolds checkout (seenPayload other) = true ↔ other = checkout := by
  simp only [rowHolds, textOf_path, storedMember_rootCommit, storedMember_remoteUrl,
    Option.some.injEq, Bool.and_eq_true, decide_eq_true_eq]
  constructor
  · rintro ⟨⟨path_eq, root_eq⟩, url_eq⟩
    cases other
    cases checkout
    simp_all
  · rintro rfl
    exact ⟨⟨rfl, rfl⟩, rfl⟩

end Baley
