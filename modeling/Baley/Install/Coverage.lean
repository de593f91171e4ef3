import Baley.Install.Compose
import Baley.Plan.Binding

/-!
# The coverage judge

What each guarded tool can read and write in Baley's folders, and whether each write-only file is kept from
writes, judged from a settings document and a hook document alone.
-/

namespace Baley.Install

open Json

/-- A tool the guard hook's matcher names. -/
inductive Tool where
  | bash
  | monitor
  | powerShell
  | read
  | grep
  | glob
  | write
  | edit
  | notebookEdit
  deriving DecidableEq

inductive Access where
  | read
  | write
  deriving DecidableEq

/-- Every guarded tool, in the hook matcher's order. -/
def Tool.all : List Tool := [bash, monitor, powerShell, read, grep, glob, write, edit, notebookEdit]

/-- The name the host gives the tool. -/
def Tool.name : Tool → String
  | bash => "Bash"
  | monitor => "Monitor"
  | powerShell => "PowerShell"
  | read => "Read"
  | grep => "Grep"
  | glob => "Glob"
  | write => "Write"
  | edit => "Edit"
  | notebookEdit => "NotebookEdit"

/-- The accesses judged for the tool. -/
def Tool.accesses : Tool → List Access
  | bash | monitor | powerShell => [.read, .write]
  | read | grep | glob => [.read]
  | write | edit | notebookEdit => [.write]

inductive Mechanism where
  | sandbox
  | permissionRules
  | hook
  deriving DecidableEq

/-- Why a tool's access, or a file, is not covered. -/
inductive Cause where
  | unsupported (mechanism : Mechanism)
  | sandboxSetting (key : String)
  | excluded (entry : String)
  | notDenied (list path : String)
  | reopened (list entry : String)
  | unjudged (list entry : String)
  | noRule (rule : String)
  | noGuard
  | hooksDisabled
  | unrendered (report : Unrendered)

inductive Verdict where
  | covered (by_ : List Mechanism) (bestEffort : Bool)
  | gap (causes : List Cause)

structure ToolVerdict where
  tool : Tool
  access : Access
  verdict : Verdict

structure FileVerdict where
  path : HostPath
  write : Verdict

structure Coverage where
  /-- Every guarded tool's verdict for each access it has. -/
  tools : List ToolVerdict
  /-- Each write-only file, then the executable. -/
  files : List FileVerdict

/-- What the judge reads. -/
structure CoverageInputs where
  settings : Value
  hook : Value
  folders : Folders
  executable : String
  writeOnly : List HostPath
  unsupported : List Mechanism

/-! ## The causes -/

def verdictOf (by_ : List Mechanism) (bestEffort : Bool) (causes : List Cause) : Verdict :=
  if causes.isEmpty then .covered by_ bestEffort else .gap causes

/-- The causes that void every sandbox entry, whatever path it names. -/
def sandboxSettings (inputs : CoverageInputs) : List Cause :=
  (if inputs.unsupported.contains .sandbox then [.unsupported .sandbox] else []) ++
    ([("enabled", true), ("failIfUnavailable", true), ("allowUnsandboxedCommands", false)].filterMap
      fun (key, secure) =>
        if (inputs.settings.under ["sandbox", key]).any (·.same (.bool secure)) then none
        else some (.sandboxSetting key)) ++
    (if (inputs.settings.under ["sandbox", "filesystem", "disabled"]).any (·.same (.bool true)) then
      [.sandboxSetting "filesystem.disabled"] else []) ++
    (strings (inputs.settings.under ["sandbox", "excludedCommands"])).map .excluded

/-- The sandbox's deny list and allow list for one access. -/
def lists : Access → String × String
  | .read => ("denyRead", "allowRead")
  | .write => ("denyWrite", "allowWrite")

/-- The causes that keep the sandbox from denying an access to one path. -/
def sandboxPath (settings : Value) (access : Access) (path : String) : List Cause :=
  (if (strings (settings.under ["sandbox", "filesystem", (lists access).1])).contains path then []
    else [.notDenied (lists access).1 path]) ++
  ((strings (settings.under ["sandbox", "filesystem", (lists access).2])).filter fun entry =>
    reach entry path = .within).map (.reopened (lists access).2)

/-- The causes against an access to a folder, if it can be named at all. -/
def folderCauses (settings : Value) (access : Access) : Except Unrendered String → List Cause
  | .ok path => sandboxPath settings access path
  | .error report => [.unrendered report]

/-- One cause for each allow entry that cannot be placed. -/
def unjudged (settings : Value) (access : Access) : List Cause :=
  ((strings (settings.under ["sandbox", "filesystem", (lists access).2])).filter fun entry =>
    (components entry).isNone).map (.unjudged (lists access).2)

/-- The causes that keep the deny rules from holding a rule for each path. -/
def rules (inputs : CoverageInputs) (paths : List (Except Unrendered String)) (rule : String → String) :
    List Cause :=
  (if inputs.unsupported.contains .permissionRules then [.unsupported .permissionRules] else []) ++
  paths.filterMap fun path =>
    match path with
    | .ok path =>
        if (strings (inputs.settings.under ["permissions", "deny"])).contains (rule path) then none
        else some (.noRule (rule path))
    | .error report => some (.unrendered report)

/-- Whether a character may stand in a matcher that is a list of exact names. -/
def plain (c : Char) : Bool :=
  ('a' ≤ c && c ≤ 'z') || ('A' ≤ c && c ≤ 'Z') || ('0' ≤ c && c ≤ '9') ||
    c == '_' || c == '-' || c == ' ' || c == ',' || c == '|'

/-- Whether a matcher names the tool. -/
def matcherNames (matcher : Option Value) (tool : Tool) : Bool :=
  match matcher with
  | none => true
  | some (.string text) =>
      text = "" || text = "*" ||
        text.toList.all plain &&
          (text.toList.splitOnP fun c => c == '|' || c == ',').any fun name =>
            Plan.trimmed (String.ofList name) = tool.name.toList
  | some _ => false

/-- Whether a handler is the guard: the command hook itself, with nothing that narrows, detaches or
reshapes it.  The parameter says which number texts read as at least the host's timeout. -/
def isGuard (lasts : String → Bool) (handler : Value) (command : String) : Bool :=
  match handler.asObject with
  | none => false
  | some fields =>
      let known := (Members.names fields).all fun key =>
        ["type", "command", "timeout", "statusMessage", "shell"].contains key
      let timeout :=
        match Members.lookup "timeout" fields with
        | none => true
        | some (.number text) => lasts text
        | some _ => false
      let shell := (Members.lookup "shell" fields).all (·.same (.string "bash"))
      known && (Members.lookup "type" fields).any (·.same (.string "command")) &&
        ((Members.lookup "command" fields).bind Value.asStr = some command : Bool) && timeout && shell

/-- The causes that keep the guard from running before a tool. -/
def guard (lasts : String → Bool) (inputs : CoverageInputs) (tool : Tool) : List Cause :=
  let disabled := [inputs.settings, inputs.hook].any fun document =>
    (document.get? "disableAllHooks").any (·.same (.bool true))
  let found := (guardItems inputs.hook).any fun item =>
    matcherNames (item.get? "matcher") tool &&
      (((item.get? "hooks").bind Value.asArray).getD []).any fun handler =>
        isGuard lasts handler (hookCommand inputs.executable)
  (if inputs.unsupported.contains .hook then [.unsupported .hook] else []) ++
    (if disabled then [.hooksDisabled] else []) ++ if found then [] else [.noGuard]

/-! ## The judge -/

/-- Judged paths are equal when their texts or their reports are. -/
instance : BEq (Except Unrendered String) where
  beq
    | .ok path, .ok path' => path == path'
    | .error report, .error report' => report == report'
    | _, _ => false

/-- The folders as rules, each once. -/
def judgedFolders (folders : Folders) : List (Except Unrendered String) :=
  [folders.home, folders.config].foldl (fun judged folder => pushUnique judged (rulePath folder)) []

/-- The causes against one tool's access, and what would carry the verdict. -/
def toolCauses (lasts : String → Bool) (inputs : CoverageInputs) (tool : Tool) (access : Access) :
    List Mechanism × List Cause :=
  let folders := judgedFolders inputs.folders
  match tool with
  | .bash | .monitor | .powerShell =>
      ([.sandbox],
        sandboxSettings inputs ++
          folders.flatMap (folderCauses inputs.settings access) ++
          unjudged inputs.settings access)
  | .read | .grep | .glob =>
      ([.permissionRules, .hook], rules inputs folders readFolderRule ++ guard lasts inputs tool)
  | .write | .edit | .notebookEdit =>
      ([.permissionRules, .hook], rules inputs folders editFolderRule ++ guard lasts inputs tool)

def fileCauses (inputs : CoverageInputs) (path : HostPath) : List Cause :=
  match rulePath path with
  | .ok text =>
      sandboxSettings inputs ++ sandboxPath inputs.settings .write text ++ unjudged inputs.settings .write ++
        rules inputs [.ok text] editFileRule
  | .error report => [.unrendered report]

/-- The write-only files, then the executable, each once. -/
def judgedFiles (inputs : CoverageInputs) : List HostPath :=
  (inputs.writeOnly ++ [(⟨inputs.executable, true⟩ : HostPath)]).foldl pushUnique []

/-- Judge every tool's access to both folders and every write-only file's writes. -/
def judgeCoverage (lasts : String → Bool) (inputs : CoverageInputs) : Coverage where
  tools :=
    Tool.all.flatMap fun tool =>
      tool.accesses.map fun access =>
        let (by_, causes) := toolCauses lasts inputs tool access
        { tool, access, verdict := verdictOf by_ (tool = .grep ∨ tool = .glob) causes }
  files :=
    (judgedFiles inputs).map fun path =>
      { path, write := verdictOf [.sandbox, .permissionRules] false (fileCauses inputs path) }

/-- The verdict for one tool and access, if the tool has that access. -/
def Coverage.verdict (coverage : Coverage) (tool : Tool) (access : Access) : Option Verdict :=
  (coverage.tools.find? fun judged => judged.tool = tool ∧ judged.access = access).map ToolVerdict.verdict

end Baley.Install
