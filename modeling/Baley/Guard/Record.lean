import Baley.Command
import Baley.Guard.Remembered

/-!
# Recording a guard answer

One command in the per-user project: the answer recorded under the call's id is found first, then
the commit is judged with what is remembered, and a changed denial is recorded beside the answer.
-/

namespace Baley

open Json

def guardView : String := "guard"

def guardAnswered : String := "guard.answered"

def guardAnsweredVersion : Nat := 1

/-! ## The answer recorded under a call id -/

def guardSpec : ViewSpec where
  name := guardView
  version := 1
  key := [⟨"host", .text⟩, ⟨"session_key", .text⟩, ⟨"call", .text⟩]
  indexes := []
  pageBound := 1

/-- The key of one call's answer. -/
def guardKey (host : String) (session : Option String) (call : String) : DocKey :=
  [.text host, .text (session.getD ""), .text call]

/-- The outcome's name and the reason of a recordable answer. -/
def GuardAnswer.outcome : GuardAnswer → Option (String × String)
  | .pass => none
  | .ask reason => some ("ask", reason)
  | .deny reason => some ("deny", reason)
  | .passOnFailure reason => some ("pass-on-failure", reason)

/-- What a call gets from the answer recorded under its call id. -/
inductive Redelivery where
  | noRecord
  | replay (answer : GuardAnswer)
  | clash

/-- A text or null member: the outer level is none where it is neither. -/
def textOrNone (value : Value) (name : String) : Option (Option String) :=
  match value.get? name with
  | some .null => some none
  | some (.string text) => some (some text)
  | _ => none

/-- Judge a call against the document under its key, if any. -/
def redelivery (stored : Option Value) (inputDigest : String) (projectDirectory : Option String)
    (cwd : String) : Redelivery :=
  match stored with
  | none => .noRecord
  | some document =>
      if textOf document "input_digest" ≠ some inputDigest ∨
          textOrNone document "project_directory" ≠ some projectDirectory ∨
          textOf document "cwd" ≠ some cwd then .clash
      else
        match textOf document "reason", textOf document "outcome" with
        | some reason, some outcome =>
            if outcome = "ask" then .replay (.ask reason)
            else if outcome = "deny" then .replay (.deny reason)
            else if outcome = "pass-on-failure" then .replay (.passOnFailure reason)
            else .clash
        | _, _ => .clash

namespace GuardProjector

open GuardPolicyProjector (refuse text)

/-- Null for none, never an empty text. -/
def textOrAbsent (event : Event) (member : String) : Option (Option String) :=
  (textOrNone event.payload member).filter fun value => value ≠ some ""

def apply (event : Event) (_ : List (DocKey × Value)) : Except String (List Change) := do
  let _ ← .ofOption (refuse event "the payload is not an object") event.payload.asObject
  let missing := refuse event "host, call, input_digest or cwd is missing, not text or empty"
  let host ← .ofOption missing (text event "host")
  let call ← .ofOption missing (text event "call")
  let digest ← .ofOption missing (text event "input_digest")
  let cwd ← .ofOption missing (text event "cwd")
  let session ← .ofOption (refuse event "session is neither null nor non-empty text")
    (textOrAbsent event "session")
  let directory ← .ofOption (refuse event "project_directory is neither null nor non-empty text")
    (textOrAbsent event "project_directory")
  let outcome ← .ofOption (refuse event "outcome is not ask, deny or pass-on-failure")
    ((textOf event.payload "outcome").filter fun outcome =>
      outcome = "ask" || outcome = "deny" || outcome = "pass-on-failure")
  let reason ← .ofOption (refuse event "reason is missing or not text")
    (textOf event.payload "reason")
  .ok [.put (guardKey host session call) (.ofEntries
    [("host", .string host), ("session_key", .string (session.getD "")), ("call", .string call),
      ("input_digest", .string digest), ("project_directory", textOrNull directory),
      ("cwd", .string cwd), ("outcome", .string outcome), ("reason", .string reason),
      ("seq", .ofNat event.seq)])]

end GuardProjector

/-- Keeps the `guard` view current: the latest answer of a key replaces its document. -/
def guardProjector : Projector where
  spec := guardSpec
  handles := [guardAnswered]
  keys := fun _ => []
  apply := GuardProjector.apply

/-! ## The payload of an answer -/

/-- The settings an answer was judged under, as the record keeps them. -/
inductive SettingsFact where
  | complete (settings : GuardSettings)
  | torn (words : String)
  | absent

def OnProtected.name : OnProtected → String
  | .ask => "ask"
  | .refuse => "refuse"
  | .allow => "allow"

def SettingsFact.toValue : SettingsFact → Value
  | .complete settings =>
      .ofEntries
        [("protected_branches", texts settings.protectedBranches),
          ("on_protected", .string settings.onProtected.name), ("hard_fail", .bool settings.hardFail)]
  | .torn words => .ofEntries [("torn", .string words)]
  | .absent => .null

def GitVerb.name : GitVerb → String
  | .commit => "commit"
  | .push => "push"

/-- The classified call the answer is recorded for. -/
structure Selected where
  tool : String
  inputDigest : String
  target : Option String
  verb : Option GitVerb
  branch : Option String

/-- The payload of `guard.answered`; a plain pass has none. -/
def answeredPayload (caller : HookCaller) (selected : Selected) (settings : SettingsFact)
    (answer : GuardAnswer) : Option Value := do
  let (outcome, reason) ← answer.outcome
  some (.ofEntries
    [("host", .string caller.common.host.text.val),
      ("session", textOrNull (caller.common.hostSession.map TextField.val)),
      ("call", .string caller.common.call.text.val),
      ("project_directory", textOrNull (caller.projectDirectory.map fun path => path.text.val)),
      ("cwd", .string caller.common.workingDirectory.text.val), ("tool", .string selected.tool),
      ("input_digest", .string selected.inputDigest), ("target", textOrNull selected.target),
      ("verb", textOrNull (selected.verb.map GitVerb.name)), ("branch", textOrNull selected.branch),
      ("settings", settings.toValue), ("outcome", .string outcome), ("reason", .string reason)])

/-! ## The decision -/

/-- Where a commit's remembered denials are kept, beside the host. -/
structure PolicyKey where
  project : Root
  checkout : Option Root

/-- How the answer to record was judged. -/
inductive Judged where
  /-- No settings were read. -/
  | absent (answer : GuardAnswer)
  /-- A commit judged under a complete policy. -/
  | complete (answer : GuardAnswer) (settings : GuardSettings) (key : PolicyKey)
  /-- A commit under torn settings, judged with the denials remembered under the key. -/
  | torn (torn : Unavailable) (excerpt : Option String) (verb : GitVerb) (branch : BranchObservation)
      (key : PolicyKey)

/-- The answer when nothing remembered is read. -/
def Judged.alone : Judged → GuardAnswer
  | .absent answer => answer
  | .complete answer _ _ => answer
  | .torn unavailable _ verb branch _ =>
      commitPushAnswer verb true (.torn unavailable) none branch

/-- What a record keeps in place of git's stderr. -/
def redacted : String := "[redacted]"

/-- The torn file's refusal as a record keeps it, with git's excerpt replaced. -/
def withoutExcerpt (torn : Unavailable) (excerpt : Option String) : Unavailable :=
  match excerpt, torn.fault with
  | some excerpt, .unreadable cause =>
      let cause :=
        if excerpt.toList <:+ cause.toList then
          String.ofList (cause.toList.take (cause.toList.length - excerpt.toList.length)) ++ redacted
        else cause.replace excerpt redacted
      { torn with fault := .unreadable cause }
  | _, _ => torn

/-- The event that records denials under a key. -/
def policyRecorded (key : GuardKey) (parts : DenialParts) : NewEvent where
  stream := guardStream
  typeName := guardPolicyRecorded
  typeVersion := guardPolicyRecordedVersion
  git := none
  payload := policyRecordedPayload key.project.text (key.checkout.map Root.text) key.host.text.val
    parts
  attachments := []

/-- The event of an answer. -/
def answered (payload : Value) : NewEvent where
  stream := guardStream
  typeName := guardAnswered
  typeVersion := guardAnsweredVersion
  git := none
  payload := payload
  attachments := []

/-- The two views a guard record reads and changes. -/
structure GuardViews where
  answers : Table DocKey Value
  policies : Table DocKey Value

/-- No call was answered and nothing is remembered. -/
def GuardViews.empty : GuardViews := ⟨∅, ∅⟩

/-- What a decision gives: the answer, the answer the record keeps, the settings it keeps and the
denials it records, if any. -/
structure Decided where
  answer : GuardAnswer
  kept : GuardAnswer
  settings : SettingsFact
  recorded : Option NewEvent

namespace GuardViews

variable (views : GuardViews)

/-- The settings remembered under a key, if any can be read. -/
def remembered (key : GuardKey) : Option GuardSettings :=
  (views.policies.lookup key.docKey).bind rememberedSettings

/-- Only torn settings read the remembered denials, and only a complete policy writes them. -/
def decide (host : HostName) : Judged → Decided
  | .absent answer => ⟨answer, answer, .absent, none⟩
  | .complete answer settings key =>
      let key : GuardKey := ⟨key.project, key.checkout, host⟩
      let parts := denialParts settings
      let recorded :=
        if denialsChanged (views.policies.lookup key.docKey) parts then
          some (policyRecorded key parts)
        else none
      ⟨answer, answer, .complete settings, recorded⟩
  | .torn torn excerpt verb branch key =>
      let remembered := views.remembered ⟨key.project, key.checkout, host⟩
      let judge := fun torn => commitPushAnswer verb true (.torn torn) remembered branch
      let keptTorn := withoutExcerpt torn excerpt
      ⟨judge torn, judge keptTorn, .torn keptTorn.words, none⟩

end GuardViews

/-- What the decision settled. -/
inductive GuardSettled where
  /-- The call id was answered before: nothing is appended, and this answer stands. -/
  | answeredFirst (answer : GuardAnswer) (isRecorded : Bool)
  /-- A new answer and the events recorded with it. -/
  | staged (answer : GuardAnswer) (events : List NewEvent)

/-- The decision of a guard record, for the denials of a host. -/
def GuardViews.settle (views : GuardViews) (host : HostName) (caller : HookCaller)
    (selected : Selected) (judged : Judged) : Except String GuardSettled :=
  let key := guardKey caller.common.host.text.val (caller.common.hostSession.map TextField.val)
    caller.common.call.text.val
  match redelivery (views.answers.lookup key) selected.inputDigest
      (caller.projectDirectory.map fun path => path.text.val)
      caller.common.workingDirectory.text.val with
  | .replay answer => .ok (.answeredFirst answer true)
  | .clash => .ok (.answeredFirst judged.alone false)
  | .noRecord => do
      let decided := views.decide host judged
      let payload ← .ofOption "a plain pass is never recorded"
        (answeredPayload caller selected decided.settings decided.kept)
      .ok (.staged decided.answer (decided.recorded.toList ++ [answered payload]))

/-- Fold the recorded events into both views. -/
def GuardViews.commit (views : GuardViews) (events : List Event) : Except String GuardViews := do
  let answers ← guardProjector.projectAll views.answers events
  let policies ← guardPolicyProjector.projectAll views.policies events
  .ok ⟨answers, policies⟩

/-- The host whose denials the guard remembers. -/
def claudeCode : HostName :=
  ⟨⟨"claude-code", by decide, by decide⟩, by decide⟩

/-- Record an answer for the guard's own host. -/
def GuardViews.record (views : GuardViews) : HookCaller → Selected → Judged →
    Except String GuardSettled :=
  views.settle claudeCode

end Baley
