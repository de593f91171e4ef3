import Baley.Ledger.Effects
import Baley.Mcp.Prepare
import Baley.Models.Entries

/-!
# Driving the plan

Each step of the plan is performed and its observation noted, until the plan is ready or ends.  A
served write then runs its command in one transaction of its own.
-/

namespace Baley.Mcp

open Json
open Models (Host)

variable (S : Surroundings)

/-- One project's ledger among all of them. -/
abbrev Ledgers := ProjectId → Ledger

/-- What a served call does, step by step. -/
inductive ServedCall where
  | discover (directory : String)
  | readProjectFile (path : S.Path)
  | listProjects
  /-- Read the request document, again once the check refused. -/
  | lookUp (again : Bool) (project : ProjectId) (key : DocKey)
  | check (project : ProjectId)
  | readSettings (root : S.Path) (working : S.File)
  | newRequestId
  | gather (root : S.Path) (policy : S.Policy)
  /-- Read the model catalog's state in its own project. -/
  | readCatalog
  | admitting (project : ProjectId) (call : LedgerCall Noted)
  | recording (project : ProjectId) (call : LedgerCall Noted)
  /-- What an operation reads for itself before its transaction. -/
  | gatherOwn (prepared : Prepared S)
  | domain (project : ProjectId) (command : Command) (decide : Noting Noted Decision)
  /-- A call of another command. -/
  | other (project : ProjectId) (call : EffectCall Noted)

variable {S}

/-- A checkout's facts. -/
structure Facts where
  rootCommit : Option String
  remoteUrl : Option String

namespace ServedCall

def Reply : ServedCall S → Type
  | .discover _ => Except String (List (Ancestor S.Path))
  | .readProjectFile _ => Except S.Unavailable (Option S.File)
  | .listProjects => Except StoreError (List ProjectId)
  | .lookUp .. => Except StoreError (Option Document)
  | .check _ => Except Value Unit
  | .readSettings .. => S.Reads
  | .newRequestId => RequestId
  | .gather .. => Except String Facts
  | .readCatalog => Except StoreError (Option Document)
  | .admitting _ call => call.Reply
  | .recording _ call => call.Reply
  | .gatherOwn _ => Except Value S.Gathered
  | .domain .. => Except StoreError Recorded × Option Noted
  | .other _ call => call.Reply

/-- A call that acts on one project and leaves the others alone. -/
def On {α : Type} (project : ProjectId) (acts : Ledger → α → Ledger → Prop) (before : Ledgers)
    (reply : α) (after : Ledgers) : Prop :=
  acts (before project) reply (after project) ∧ ∀ other, other ≠ project → after other = before other

/-- What a call may do.  What it observes outside the ledger may be anything; a check only reads. -/
def Performs (port : Port) : Script.Acts (ServedCall S) Reply Ledgers
  | .lookUp _ project key, before, reply, after =>
      after = before ∧
        ∀ found, reply = .ok found → found = (before project).document requestView key
  | .admitting project call, before, reply, after =>
      On project (call.Performs port) before reply after
  | .recording project call, before, reply, after =>
      On project (call.Performs port) before reply after
  | .domain project command decide, before, reply, after =>
      On project (fun ledger => ledger.Transacts port command decide) before reply after
  | .other project call, before, reply, after =>
      On project (call.Performs port) before reply after
  | .readCatalog, before, reply, after =>
      after = before ∧ ∀ found, reply = .ok found →
        found = (before Models.userProject).document Models.modelCatalogView Models.stateKey
  | _, before, _, after => after = before

end ServedCall

/-- A script of a served call. -/
abbrev Serving (S : Surroundings) (α : Type) := Script (ServedCall S) ServedCall.Reply α

/-- What performing a step observes. -/
@[reducible]
def Step.Observed : Step S → Type
  | .discover _ => Except String (List (Ancestor S.Path))
  | .readProjectFile _ => Except S.Unavailable (Option S.File)
  | .listProjects => Except LedgerFault (List ProjectId)
  | .lookUpRequest .. => Except LedgerFault (Option Value)
  | .check _ => Except Value Unit
  | .lookUpRequestAgain .. => Except LedgerFault (Option Value)
  | .readSettings .. => S.Reads
  | .admitCheckout .. => Except LedgerFault (Option String)
  | .recordPolicy .. => Except LedgerFault Nat

/-- Keep what a step observed. -/
def Seen.note (seen : Seen S) : (step : Step S) → step.Observed → Seen S
  | .discover _, observed => { seen with ancestors := some observed }
  | .readProjectFile _, observed => { seen with working := some observed }
  | .listProjects, observed => { seen with projects := some observed }
  | .lookUpRequest .., observed => { seen with replay := some observed }
  | .check _, observed => { seen with checked := some observed }
  | .lookUpRequestAgain .., observed => { seen with relooked := some observed }
  | .readSettings .., observed => { seen with reads := some observed }
  | .admitCheckout .., observed => { seen with admitted := some observed }
  | .recordPolicy .., observed => { seen with stepped := some observed }

/-- Where a served call runs: whether the ledger was opened when the server started, and what the
store is given. -/
structure Server where
  opened : Bool
  sha256 : List UInt8 → Hash
  /-- How many pages a walk of checkout admission is given. -/
  pages : Nat

/-- The body of the request document under a key. -/
def lookUp (server : Server) (again : Bool) (project : ProjectId) (key : DocKey) :
    Serving S (Except LedgerFault (Option Value)) :=
  if server.opened then
    .call (.lookUp again project key) fun reply =>
      .done ((Except.map (Option.map Document.body) reply).mapError .store)
  else .done (.error .noStore)

/-- Gather a checkout's facts and admit it; only the root commit is kept. -/
def gatherAndAdmit (server : Server) (call : Call) (project : ProjectId) (root : S.Path)
    (policy : S.Policy) (path : String) : Serving S (Except LedgerFault (Option String)) :=
  .call .newRequestId fun requestId => .call (.gather root policy) fun
    | .error text => .done (.error (.checkout (.gather text)))
    | .ok facts =>
        let admission : Admission :=
          { project, requestId, recordedAt := call.recordedAt
            checkout := { path, rootCommit := facts.rootCommit, remoteUrl := facts.remoteUrl }
            caller := some (.server call.caller), sha256 := server.sha256, pages := server.pages }
        (admission.admitCheckout.through (.admitting project) fun _ reply => reply).bind fun
          | .error error => .done (.error (.checkout (.admission error)))
          | .ok () => .done (.ok facts.rootCommit)

/-- The catalog version: 0 when the `user` project is absent or its views are a newer binary's. -/
def observeCatalogVersion : Serving S (Except StoreError Nat) :=
  .call .listProjects fun
    | .error error => .done (.error error)
    | .ok known =>
        if Models.userProject ∉ known then .done (.ok 0)
        else
          .call .readCatalog fun
            | .ok state => .done (.ok (Models.readState (state.map Document.body)).catalogVersion)
            | .error (.refused (.projectReadOnly ..)) => .done (.ok 0)
            | .error error => .done (.error error)

/-- Record the policy when it changed, and return the version in force. -/
def policyStep (server : Server) (call : Call) (project : ProjectId) (recorded : RecordedPolicy) :
    Serving S (Except LedgerFault Nat) :=
  .call .newRequestId fun requestId => observeCatalogVersion.bind fun
    | .error error => .done (.error (.store error))
    | .ok catalogVersion =>
        let record : PolicyRecord :=
          { project, recorded, catalogVersion, requestId, recordedAt := call.recordedAt
            caller := some (.server call.caller), sha256 := server.sha256 }
        (record.recordPolicy.through (.recording project) fun _ reply => reply).bind fun result =>
          .done (result.mapError .store)

/-- Perform one step; it owns no policy. -/
def perform (server : Server) (call : Call) : (step : Step S) → Serving S step.Observed
  | .discover directory => .call (.discover directory) .done
  | .readProjectFile path => .call (.readProjectFile path) .done
  | .listProjects =>
      if server.opened then
        .call .listProjects fun reply => .done (Except.mapError LedgerFault.store reply)
      else .done (.error .noStore : Except LedgerFault (List ProjectId))
  | .lookUpRequest project key => lookUp server false project key
  | .check project =>
      if call.checks then .call (.check project) .done else .done (.ok () : Except Value Unit)
  | .lookUpRequestAgain project key => lookUp server true project key
  | .readSettings root working => .call (.readSettings root working) .done
  | .admitCheckout project root policy path =>
      if server.opened then gatherAndAdmit server call project root policy path
      else .done (.error .noStore : Except LedgerFault (Option String))
  | .recordPolicy project recorded =>
      if server.opened then policyStep server call project recorded
      else .done (.error .noStore : Except LedgerFault Nat)

/-- How a preparation ended without a result. -/
inductive Ended where
  | failed (answer : FailedAnswer)
  | checked (answer : Value)

end Baley.Mcp
