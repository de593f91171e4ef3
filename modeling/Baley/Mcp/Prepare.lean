import Baley.Checkout.Admit
import Baley.Policy.Record

/-!
# Preparing a session's read or write

From what was observed so far the plan gives the next step to perform, the answer that ends the call,
or the prepared result.  A refusal always comes before the step after it.
-/

namespace Baley.Mcp

open Json
open Models (Host)

/-- The project file's name in a project's folder. -/
def projectFile : String := "baley.toml"

/-- One ancestor of a directory as it was observed. -/
structure Ancestor (Path : Type) where
  path : Path
  hasProjectFile : Bool
  hasGit : Bool

/-- Where a directory stands. -/
inductive Discovery (Path : Type) where
  | managed (folder root : Path)
  | unmanaged (root : Path)
  | outside

/-- Judge the ancestors nearest first, with the nearest project file below them: the first one
holding `.git` is the root, and a file above it never counts. -/
def discoverFrom {Path : Type} (nearest : Option Path) : List (Ancestor Path) → Discovery Path
  | [] => .outside
  | ancestor :: ancestors =>
      let nearest := nearest.or (if ancestor.hasProjectFile then some ancestor.path else none)
      if ancestor.hasGit then
        match nearest with
        | some folder => .managed folder ancestor.path
        | none => .unmanaged ancestor.path
      else discoverFrom nearest ancestors

def discover {Path : Type} (ancestors : List (Ancestor Path)) : Discovery Path :=
  discoverFrom none ancestors

/-- What preparation reads and judges outside the ledger. -/
structure Surroundings where
  Path : Type
  join : Path → String → Path
  display : Path → String
  /-- A settings file as it was read. -/
  File : Type
  Unavailable : Type
  unavailableText : Unavailable → String
  /-- The id a project file names. -/
  readProject : File → Except Unavailable ProjectId
  /-- The global file and HEAD's copy of a working-tree file. -/
  Reads : Type
  Policy : Type
  build : Reads → Option Host → Except Unavailable Policy
  recordedPolicy : Path → Policy → Except Unavailable RecordedPolicy
  errorText : StoreError → String
  /-- What an operation gathers for itself between its preparation and its transaction. -/
  Gathered : Type

variable (S : Surroundings)

/-- The identity a served write supplies. -/
structure WriteRequest where
  kind : CommandKind
  requestId : RequestId
  /-- The operation's digest, with no policy version in it. -/
  digest : Hash

/-- The domain command a prepared write runs. -/
def preparedCommand (project : ProjectId) (request : WriteRequest) (policyVersion : Nat)
    (recordedAt : String) (caller : ServerCaller) : Command where
  project
  kind := request.kind
  requestId := request.requestId
  digest := request.digest
  scope := []
  policyVersion
  recordedAt
  actor := .baley
  caller := some (.server caller)

/-- What a write's checkout admission and policy step found. -/
structure Stepped where
  policy : S.Policy
  rootCommit : Option String

/-- A project read or write ready to run. -/
structure Prepared where
  project : ProjectId
  root : S.Path
  projectFile : S.Path
  command : Option Command
  /-- Nothing on a read, and on a write that is a replay. -/
  stepped : Option (Stepped S)
  policy : Option S.Policy

/-- The policies a write is judged under. -/
structure WritePolicies where
  /-- The one built with no host, which names the remote. -/
  facts : S.Policy
  host : S.Policy
  recorded : RecordedPolicy

inductive EntryError where
  | gather (text : String)
  | admission (error : AdmitError)

/-- Why a store step could not answer. -/
inductive LedgerFault where
  | noStore
  | store (error : StoreError)
  | checkout (error : EntryError)

/-- What preparation has observed so far. -/
structure Seen where
  ancestors : Option (Except String (List (Ancestor S.Path)))
  working : Option (Except S.Unavailable (Option S.File))
  projects : Option (Except LedgerFault (List ProjectId))
  /-- The body of the request document, nothing inside when the ledger holds none. -/
  replay : Option (Except LedgerFault (Option Value))
  checked : Option (Except Value Unit)
  /-- The request document read again after the check refused. -/
  relooked : Option (Except LedgerFault (Option Value))
  reads : Option S.Reads
  admitted : Option (Except LedgerFault (Option String))
  /-- The version the policy step returned. -/
  stepped : Option (Except LedgerFault Nat)

def Seen.nothing : Seen S := ⟨none, none, none, none, none, none, none, none, none⟩

/-- What the call is, as the plan needs it. -/
structure Call where
  caller : ServerCaller
  host : Host
  recordedAt : String
  write : Option WriteRequest
  /-- Whether a read also reads and judges the settings. -/
  readsSettings : Bool
  /-- Whether the write has a check of its own. -/
  checks : Bool

/-- One step performed for the plan. -/
inductive Step where
  | discover (directory : String)
  | readProjectFile (path : S.Path)
  | listProjects
  | lookUpRequest (project : ProjectId) (key : DocKey)
  | check (project : ProjectId)
  | lookUpRequestAgain (project : ProjectId) (key : DocKey)
  | readSettings (root : S.Path) (working : S.File)
  | admitCheckout (project : ProjectId) (root : S.Path) (policy : S.Policy) (path : String)
  | recordPolicy (project : ProjectId) (recorded : RecordedPolicy)

/-- A `failed` answer, which says that nothing was recorded. -/
structure FailedAnswer where
  code : String
  reason : String
  place : String
  deriving DecidableEq

/-- What the plan wants next. -/
inductive Next where
  | perform (step : Step S)
  | failed (answer : FailedAnswer)
  /-- The write's own check ended the call. -/
  | checked (answer : Value)
  | ready (prepared : Prepared S)

variable {S}

/-- The answer for a store step that could not answer; only a busy ledger is retryable. -/
def storeFailed : StoreError → Next S
  | .busy =>
      .failed ⟨"ledger-busy", "the ledger is busy, so the call was not taken. Try it again", "ledger"⟩
  | error => .failed ⟨"ledger-unavailable", S.errorText error, "ledger"⟩

def forkText (conflict : ProjectIdConflict) : String :=
  "the checkout at " ++ conflict.path ++ " has the remote " ++ conflict.remoteUrl ++
    ", but the project already has a checkout at " ++ conflict.otherPath ++ " with the remote " ++
    conflict.otherRemoteUrl ++ ", so this one is a fork. The owner gives this checkout its own " ++
    "project by running `baley init --new-id` in it"

/-- The answer for a step that failed. -/
def faultFailed : LedgerFault → Next S
  | .noStore =>
      .failed ⟨"ledger-unavailable", "the ledger could not be opened when this server started, so " ++
        "no project call can be taken", "ledger"⟩
  | .store error => storeFailed error
  | .checkout (.gather text) => .failed ⟨"checkout-facts-unavailable", text, "git"⟩
  | .checkout (.admission (.fork conflict)) =>
      .failed ⟨ProjectIdConflict.code, forkText conflict, "checkout"⟩
  | .checkout (.admission (.store error)) => storeFailed error

/-- The answer for a project file that was there at the walk and is gone. -/
def unavailableFile (file : S.Path) : Next S :=
  .failed
    ⟨"config-unavailable", "config-unavailable: " ++ S.display file ++ " was not found", "settings"⟩

/-- Judge the gathered settings of a write for the call's host and the root. -/
def judgeSettings (reads : S.Reads) (host : Host) (root : S.Path) :
    Except String (WritePolicies S) := do
  let facts ← (S.build reads none).mapError S.unavailableText
  let withHost ← (S.build reads (some host)).mapError S.unavailableText
  let recorded ← (S.recordedPolicy root withHost).mapError S.unavailableText
  .ok { facts, host := withHost, recorded }

/-- Where discovery found the project a write is prepared for. -/
structure Found (S : Surroundings) where
  project : ProjectId
  root : S.Path
  file : S.Path

/-- The prepared call for a command. -/
def Found.ready (found : Found S) (command : Command) (stepped : Option (Stepped S)) : Next S :=
  .ready
    { project := found.project, root := found.root, projectFile := found.file
      command := some command, stepped, policy := none }

/-- The settings step a write and a settings-reading read share: what is to be done first, or the
policies. -/
def judgedSettings (call : Call) (seen : Seen S) (found : Found S) (working : S.File) :
    Except (Next S) (WritePolicies S) :=
  match seen.reads with
  | none => .error (.perform (.readSettings found.root working))
  | some reads =>
      (judgeSettings reads call.host found.root).mapError fun fault =>
        .failed ⟨"config-unavailable", fault, "settings"⟩

/-- What a lookup found decides the call when the ledger holds a record of the request. -/
def held (lookedUp : Except LedgerFault (Option Value)) (found : Found S) (replay : Command) :
    Option (Next S) :=
  match lookedUp with
  | .error fault => some (faultFailed fault)
  | .ok none => none
  | .ok (some body) =>
      if (requestState body).isSome then some (found.ready replay none)
      else some (.failed ⟨"ledger-unavailable",
        "the ledger holds a record of this request that cannot be read", "ledger"⟩)

/-- The steps after a write's check: the settings, checkout admission and the policy step. -/
def settledNext (call : Call) (request : WriteRequest) (seen : Seen S) (found : Found S)
    (working : S.File) : Next S :=
  match judgedSettings call seen found working with
  | .error next => next
  | .ok policies =>
      match seen.admitted with
      | none =>
          .perform (.admitCheckout found.project found.root policies.facts
            policies.recorded.checkout)
      | some (.error fault) => faultFailed fault
      | some (.ok rootCommit) =>
          match seen.stepped with
          | none => .perform (.recordPolicy found.project policies.recorded)
          | some (.error fault) => faultFailed fault
          | some (.ok version) =>
              found.ready
                (preparedCommand found.project request version call.recordedAt call.caller)
                (some { policy := policies.host, rootCommit })

/-- A write's steps after the known-project check: the replay lookup, the write's own check when it
has one, then the steps that may record. -/
def writeNext (call : Call) (request : WriteRequest) (seen : Seen S) (found : Found S)
    (working : S.File) : Next S :=
  -- A replay appends nothing, so its command carries no version.
  let replay := preparedCommand found.project request 0 call.recordedAt call.caller
  match seen.replay with
  | none => .perform (.lookUpRequest found.project (requestKey replay))
  | some lookedUp =>
      match held lookedUp found replay with
      | some ends => ends
      | none =>
          if call.checks then
            match seen.checked with
            | none => .perform (.check found.project)
            | some (.error answer) =>
                -- The original of a retry can commit between the lookup and the check.
                match seen.relooked with
                | none => .perform (.lookUpRequestAgain found.project (requestKey replay))
                | some relooked => (held relooked found replay).getD (.checked answer)
            | some (.ok ()) => settledNext call request seen found working
          else settledNext call request seen found working

/-- The id of a project file that was read, nothing when there is no file. -/
def observeFile (read : Except S.Unavailable (Option S.File)) :
    Except S.Unavailable (Option ProjectId) := do
  match ← read with
  | none => .ok none
  | some file => (S.readProject file).map some

/-- The steps after the project file was read: the known-project check, then what the call needs. -/
def knownNext (call : Call) (seen : Seen S) (found : Found S) (working : Option S.File) : Next S :=
  match seen.projects with
  | none => .perform .listProjects
  | some (.error fault) => faultFailed fault
  | some (.ok known) =>
      if found.project ∉ known then
        .failed ⟨"project-not-in-ledger", "project " ++ found.project ++
          " is not in this machine's ledger. The owner ties this checkout to the ledger by running " ++
          "`baley init` in it", "project"⟩
      else if call.write.isNone ∧ call.readsSettings = false then
        .ready
          { project := found.project, root := found.root, projectFile := found.file
            command := none, stepped := none, policy := none }
      else
        match working with
        | none => unavailableFile found.file
        | some working =>
            match call.write with
            | some request => writeNext call request seen found working
            | none =>
                match judgedSettings call seen found working with
                | .error next => next
                | .ok policies =>
                    .ready
                      { project := found.project, root := found.root, projectFile := found.file
                        command := none, stepped := none, policy := some policies.host }

/-- The next step for the call, or its answer. -/
def next (call : Call) (seen : Seen S) : Next S :=
  let directory := call.caller.projectDirectory.text.val
  match seen.ancestors with
  | none => .perform (.discover directory)
  | some (.error fault) =>
      .failed ⟨"project-context-invalid", "CLAUDE_PROJECT_DIR " ++ directory ++
        " cannot be read as the project: " ++ fault, "CLAUDE_PROJECT_DIR"⟩
  | some (.ok ancestors) =>
      match discover ancestors with
      | .managed folder root =>
          let file := S.join folder projectFile
          match seen.working with
          | none => .perform (.readProjectFile file)
          | some working =>
              match observeFile working with
              | .error fault =>
                  .failed ⟨"config-unavailable", S.unavailableText fault, "settings"⟩
              | .ok none => unavailableFile file
              | .ok (some project) =>
                  knownNext call seen ⟨project, root, file⟩ (working.toOption.bind id)
      | _ =>
          .failed ⟨"not-a-project", "CLAUDE_PROJECT_DIR " ++ directory ++
            " is not in a project: no " ++ projectFile ++ " was found in its repository",
            "CLAUDE_PROJECT_DIR"⟩

end Baley.Mcp
