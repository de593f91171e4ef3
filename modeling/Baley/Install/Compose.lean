import Baley.Blank
import Baley.Json.InOrder

/-!
# Composing this binary's entries into the owner's settings

The guard hook, the session's registration and the sandbox and permission proposal, put into the owner's
document: an object's missing members go last, a list gains the entries it lacks, and a value that is
Baley's own replaces the owner's and is reported.
-/

namespace Baley.Install

open Json

/-! ## Paths -/

/-- A path as it is shown, and whether it is UTF-8 text. -/
structure HostPath where
  shown : String
  utf8 : Bool
  deriving DecidableEq

/-- The components a path is compared by: its root, a leading `.` of a relative one, and every part that is
neither empty nor `.`. -/
def HostPath.parts (path : HostPath) : Bool × Bool × List (List Char) :=
  let pieces := path.shown.toList.splitOn '/'
  let rooted := path.shown.toList.head? = some '/'
  (rooted, !rooted && pieces.head? = some ['.'], pieces.filter fun piece => piece ≠ [] ∧ piece ≠ ['.'])

/-- Two paths are equal when their components are. -/
instance : BEq HostPath := ⟨fun first second => first.utf8 == second.utf8 && first.parts == second.parts⟩

def HostPath.toStr (path : HostPath) : Option String :=
  if path.utf8 then some path.shown else none

/-- Why a supplied path cannot be used as given. -/
inductive PathFault where
  | empty
  | notUtf8
  | relative
  deriving DecidableEq

def PathFault.text : PathFault → String
  | .empty => "is empty"
  | .notUtf8 => "is not UTF-8"
  | .relative => "is not absolute"

/-- Judge a supplied path: the first fault found. -/
def judgePath (path : HostPath) : Except PathFault String :=
  if path.shown = "" then .error .empty
  else
    match path.toStr with
    | none => .error .notUtf8
    | some text => if text.toList.head? = some '/' then .ok text else .error .relative

/-- Why a supplied path got no entry in the proposal. -/
inductive Unrendered where
  /-- The path is not absolute UTF-8. -/
  | missingPrerequisite (path : HostPath) (fault : PathFault)
  /-- The path holds a character that a rule would not read literally, or ends in a space. -/
  | unsupportedCharacter (path : String) (character : Char)
  deriving BEq

def Unrendered.text : Unrendered → String
  | .missingPrerequisite path fault => "the path " ++ path.shown ++ " " ++ fault.text
  | .unsupportedCharacter path character =>
      if character = ' ' then "the path " ++ path ++ " ends in a space, which a deny rule would drop"
      else
        "the path " ++ path ++ " holds `" ++ String.singleton character ++
          "`, which a deny rule would read as a pattern"

/-- Judge one path for the proposal. -/
def rulePath (path : HostPath) : Except Unrendered String :=
  match judgePath path with
  | .error fault => .error (.missingPrerequisite path fault)
  | .ok text =>
      let pattern := text.toList.find? fun c => c == '*' || c == '?' || c == '[' || c == '\\'
      let trailing := if text.toList.getLast? = some ' ' then some ' ' else none
      match pattern.or trailing with
      | some character => .error (.unsupportedCharacter text character)
      | none => .ok text

/-! ## The proposal -/

def readFolderRule (path : String) : String := "Read(/" ++ path ++ "/**)"

def editFolderRule (path : String) : String := "Edit(/" ++ path ++ "/**)"

def editFileRule (path : String) : String := "Edit(/" ++ path ++ ")"

def pushUnique {α : Type} [BEq α] (list : List α) (item : α) : List α :=
  if list.contains item then list else list ++ [item]

/-- Judge one path after others: its text, or its report, once. -/
def addRulePath (judged : List String × List Unrendered) (path : HostPath) :
    List String × List Unrendered :=
  match rulePath path with
  | .ok text => (pushUnique judged.1 text, judged.2)
  | .error report => (judged.1, pushUnique judged.2 report)

/-- The paths that can be written as rules, and the reports of the others, each once. -/
def rulePaths (paths : List HostPath) (reports : List Unrendered) : List String × List Unrendered :=
  paths.foldl addRulePath ([], reports)

structure Folders where
  home : HostPath
  config : HostPath

/-- The deny lists of a proposal. -/
structure DenyLists where
  permissionsDeny : List String
  denyRead : List String
  denyWrite : List String

/-- The settings content and every supplied path it could not render. -/
structure Proposal where
  settings : Value
  unrendered : List Unrendered

/-- A list of texts. -/
def denyList (items : List String) : Value := .array (items.map .string)

def sandboxOf (denyRead denyWrite : List String) : Value :=
  .object
    [("enabled", .bool true), ("failIfUnavailable", .bool true),
      ("allowUnsandboxedCommands", .bool false),
      ("filesystem", .object [("denyRead", denyList denyRead), ("denyWrite", denyList denyWrite)])]

def permissionsOf (deny : List String) : Value := .object [("deny", denyList deny)]

/-- The proposal over Baley's folders, the executable, the write-only files and the write-only folders. -/
def propose (folders : Folders) (executable : String) (writeOnly writeOnlyFolders : List HostPath) :
    Proposal :=
  let (folderPaths, unrendered) := rulePaths [folders.home, folders.config] []
  let (writeOnlyFolderPaths, unrendered) := rulePaths writeOnlyFolders unrendered
  let (files, unrendered) := rulePaths (writeOnly ++ [⟨executable, true⟩]) unrendered
  let rules := folderPaths.flatMap fun folder => [readFolderRule folder, editFolderRule folder]
  let rules := writeOnlyFolderPaths.foldl
    (fun rules folder => pushUnique rules (editFolderRule folder)) rules
  let denyWrite := writeOnlyFolderPaths.foldl pushUnique folderPaths
  let rules := files.foldl (fun rules file => pushUnique rules (editFileRule file)) rules
  let denyWrite := files.foldl pushUnique denyWrite
  { settings :=
      .object [("sandbox", sandboxOf folderPaths denyWrite), ("permissions", permissionsOf rules)]
    unrendered }

/-! ## The hook and the registration -/

/-- POSIX single quoting. -/
def shellQuote (text : String) : String :=
  "'" ++ String.ofList (text.toList.flatMap fun c => if c = '\'' then "'\\''".toList else [c]) ++ "'"

def hookCommand (executable : String) : String := shellQuote executable ++ " guard"

def matcher : String := "Bash|Monitor|PowerShell|Read|Grep|Glob|Write|Edit|NotebookEdit"

/-- The host's hook timeout, in whole seconds. -/
def hostTimeout : Nat := 10

/-- The `PreToolUse` item that runs the guard. -/
def hookItem (executable : String) : Value :=
  .object
    [("matcher", .string matcher),
      ("hooks", .array
        [.object
          [("type", .string "command"), ("command", .string (hookCommand executable)),
            ("timeout", .ofNat hostTimeout)]])]

def renderHook (executable : String) : Value :=
  .object [("hooks", .object [("PreToolUse", .array [hookItem executable])])]

/-- The registration's entry. -/
def serverOf (executable : String) (alwaysLoad : Bool) : Value :=
  .object
    ([("command", .string executable), ("args", .array [.string "serve"])] ++
      if alwaysLoad then [("alwaysLoad", .bool true)] else [])

def renderRegistration (executable : String) (alwaysLoad : Bool) : Value :=
  .object [("mcpServers", .object [("baley", serverOf executable alwaysLoad)])]

/-! ## This binary's entries -/

/-- Where every artifact goes: the stable executable, and the paths and folders kept from writes. -/
structure PlacementMap where
  executable : String
  protectedPaths : List HostPath
  writeOnlyFolders : List HostPath

/-- This binary's entries in the settings document. -/
structure Ours where
  hookItem : Value
  proposal : Proposal
  lists : DenyLists

def strings (value : Option Value) : List String :=
  match value with
  | some (.array items) => items.filterMap Value.asStr
  | _ => []

def ours (placements : PlacementMap) (folders : Folders) : Ours :=
  let proposal := propose folders placements.executable placements.protectedPaths placements.writeOnlyFolders
  { hookItem := hookItem placements.executable
    proposal
    lists :=
      { permissionsDeny := strings (proposal.settings.under ["permissions", "deny"])
        denyRead := strings (proposal.settings.under ["sandbox", "filesystem", "denyRead"])
        denyWrite := strings (proposal.settings.under ["sandbox", "filesystem", "denyWrite"]) } }

/-! ## Conflicts -/

/-- What the composed document holds that leaves Baley's protection off or differs from its entries. -/
inductive Conflict where
  | replaced (key : String) (was : Value)
  | notComposable (key : String)
  | disabled (setting : String)
  | otherGuardHook (item : Value)
  | otherRegistration (entry : Value)
  | reopened (list entry : String)
  | unjudged (list entry : String)
  | excluded (entry : String)

structure Composed where
  document : Value
  /-- Every conflict, in the order found. -/
  conflicts : List Conflict

/-- Whether a member is absent or satisfies a test. -/
def absentOr (value : Value) (name : String) (test : Value → Bool) : Bool :=
  match value.get? name with
  | none => true
  | some held => test held

def sameMember (first second : Value) (name : String) : Bool :=
  match first.get? name, second.get? name with
  | none, none => true
  | some held, some held' => held.same held'
  | _, _ => false

/-- Whether a registration is a stdio server that runs the same command with the same arguments and sets
no environment entry. -/
def sameServer (existing ours : Value) : Bool :=
  absentOr existing "type" (·.same (.string "stdio")) && sameMember existing ours "command" &&
    sameMember existing ours "args" &&
    absentOr existing "env" fun env => env.asObject.any List.isEmpty

/-! ## Merging -/

def dotted (key name : String) : String := if key = "" then name else key ++ "." ++ name

def gains (list : List Value) (item : Value) : List Value :=
  if list.any (·.same item) then list else list ++ [item]

mutual

/-- Merge a value of Baley's into what the document holds at a key. -/
def merge (target : Value) (key : String) : Value → Value × List Conflict
  | .object fields =>
      match target with
      | .object members =>
          let merged := mergeFields members key fields
          (.object merged.1, merged.2)
      | _ => (target, [.notComposable key])
  | .array items =>
      match target with
      | .array list => (.array (items.foldl gains list), [])
      | _ => (target, [.notComposable key])
  | ours => if target.same ours then (target, []) else (ours, [.replaced key target])
  termination_by structural ours => ours

def mergeFields (members : Members) (key : String) :
    List (String × Value) → Members × List Conflict
  | [] => (members, [])
  | field :: fields =>
      let step :=
        match Members.lookup field.1 members with
        | none => (Members.put field.1 field.2 members, [])
        | some existing =>
            -- Another server under Baley's key is reported by the scan.
            if key = "mcpServers" ∧ field.1 = "baley" ∧ sameServer existing field.2 = false then
              (members, [])
            else
              let merged := merge existing (dotted key field.1) field.2
              (Members.put field.1 merged.1 members, merged.2)
      let rest := mergeFields step.1 key fields
      (rest.1, step.2 ++ rest.2)
  termination_by structural fields => fields

end

/-! ## Scanning -/

/-- The components of an absolute path with `.` and `..` resolved. -/
def components (path : String) : Option (List String) :=
  if path.toList.head? = some '/' then
    some ((path.toList.splitOn '/').foldl
      (fun parts part =>
        if part = [] ∨ part = ['.'] then parts
        else if part = ['.', '.'] then parts.dropLast
        else parts ++ [String.ofList part])
      [])
  else none

inductive Reach where
  | within
  | outside
  | unjudged
  deriving DecidableEq

def reachParts : List String → List String → Reach
  | [], _ => .within
  | _ :: _, [] => .outside
  | name :: path, part :: entry =>
      if part = "**" then .within
      else if part = name ∨ (part.toList.any fun c => c == '*' || c == '?' || c == '[') = true then
        reachParts path entry
      else .outside

/-- Where a sandbox list entry stands against an absolute path. -/
def reach (entry path : String) : Reach :=
  match components entry with
  | none => .unjudged
  | some entry =>
      match components path with
      | none => .outside
      | some path => reachParts path entry

/-- The last word of a command. -/
def lastWord (command : String) : Option (List Char) :=
  ((command.toList.splitOnP isWhiteSpace).filter (· ≠ [])).getLast?

/-- Whether an item holds a handler whose command's last word is `guard`. -/
def runsGuard (item : Value) : Bool :=
  (((item.get? "hooks").bind Value.asArray).getD []).any fun handler =>
    ((handler.get? "command").bind Value.asStr).any fun command =>
      lastWord command = some "guard".toList

/-- The sandbox switches Baley sets, each with its secure value. -/
def switches : List (List String × String × Bool) :=
  [(["sandbox", "enabled"], "sandbox.enabled", true),
    (["sandbox", "failIfUnavailable"], "sandbox.failIfUnavailable", true),
    (["sandbox", "allowUnsandboxedCommands"], "sandbox.allowUnsandboxedCommands", false)]

def insecure (document : Value) (switch : List String × String × Bool) : Option Conflict :=
  match document.under switch.1 with
  | some value => if value.same (.bool switch.2.2) then none else some (.disabled switch.2.1)
  | none => none

def turnedOn (document : Value) (setting : List String × String) : Option Conflict :=
  if (document.under setting.1).any (·.same (.bool true)) then some (.disabled setting.2) else none

def guardItems (document : Value) : List Value :=
  ((document.under ["hooks", "PreToolUse"]).bind Value.asArray).getD []

def otherGuards (document : Value) (item : Value) : List Conflict :=
  ((guardItems document).filter fun existing => !existing.same item && runsGuard existing).map
    .otherGuardHook

def otherServer (document : Value) (executable : String) : List Conflict :=
  match document.under ["mcpServers", "baley"] with
  | some server => if sameServer server (serverOf executable false) then [] else [.otherRegistration server]
  | none => []

def listConflict (folders : List String) (list entry : String) : Option Conflict :=
  let reaches := folders.map (reach entry)
  if .within ∈ reaches then some (.reopened list entry)
  else if .unjudged ∈ reaches then some (.unjudged list entry)
  else none

/-- What the document holds, whoever put it there, that turns the protection off or runs something else
under Baley's name. -/
def scan (document : Value) (folders : Folders) (executable : String) : List Conflict :=
  let places := [folders.home, folders.config].filterMap HostPath.toStr
  switches.filterMap (insecure document) ++
    [(["disableAllHooks"], "disableAllHooks"),
      (["sandbox", "filesystem", "disabled"], "sandbox.filesystem.disabled")].filterMap
        (turnedOn document) ++
    otherGuards document (hookItem executable) ++
    otherServer document executable ++
    (["allowRead", "allowWrite"].flatMap fun list =>
      (strings (document.under ["sandbox", "filesystem", list])).filterMap (listConflict places list)) ++
    (strings (document.under ["sandbox", "excludedCommands"])).map .excluded

/-- Compose Baley's values into a document. -/
def compose (existing : Option Value) (ours : List Value) (folders : Folders) (executable : String) :
    Composed :=
  let merged := ours.foldl
    (fun (document, conflicts) value =>
      let step := merge document "" value
      (step.1, conflicts ++ step.2))
    (existing.getD (.object []), [])
  { document := merged.1, conflicts := merged.2 ++ scan merged.1 folders executable }

end Baley.Install
