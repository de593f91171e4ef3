import Baley.Json.Scan
import Baley.Json.Tree

/-!
# What a hook call is

A host's hook call, judged from its bytes alone: which tool sent it and the fields the guard judges.
A path tool whose input cannot be read is refused; a command tool's then gets no answer.
-/

namespace Baley.Hook

open Json
open Json.Tree (lookup)

/-- The most bytes the guard judges.  One more is read, so an input over the bound is seen as over. -/
def maxInputBytes : Nat := 65536

/-- What every readable event carries.  An empty call id is none. -/
structure Envelope where
  cwd : String
  sessionId : Option String
  toolUseId : Option String

/-- A tool whose input is one shell command. -/
inductive CommandTool
  | bash
  | monitor

/-- A tool that reads or writes files. -/
inductive PathTool
  | read
  | grep
  | glob
  | write
  | edit
  | notebookEdit
  deriving DecidableEq

namespace PathTool

def all : List PathTool :=
  [read, grep, glob, write, edit, notebookEdit]

/-- The name the host gives the tool. -/
def name : PathTool → String
  | read => "Read"
  | grep => "Grep"
  | glob => "Glob"
  | write => "Write"
  | edit => "Edit"
  | notebookEdit => "NotebookEdit"

theorem mem_all (tool : PathTool) : tool ∈ all := by
  cases tool <;> decide

theorem name_injective : Function.Injective name := by
  intro tool other
  cases tool <;> cases other <;> decide

end PathTool

/-- The paths a path tool's call names, and a pattern that can reach files outside them. -/
structure PathTarget where
  tool : PathTool
  path : Option String
  pattern : Option String

inductive HookInput
  | command (envelope : Envelope) (tool : CommandTool) (text : String)
  | watch (envelope : Envelope)
  | powerShell (envelope : Envelope)
  | path (envelope : Envelope) (target : PathTarget)
  | deny (reason : String)
  | noAnswer

inductive Tool
  | bash
  | monitor
  | powerShell
  | path (tool : PathTool)
  deriving DecidableEq

namespace Tool

def named (name : String) : Option Tool :=
  if name = "Bash" then some bash
  else if name = "Monitor" then some monitor
  else if name = "PowerShell" then some powerShell
  else (PathTool.all.find? fun tool => tool.name = name).map path

def asPath : Tool → Option PathTool
  | path tool => some tool
  | _ => none

end Tool

/-! ## Typed reads -/

abbrev Entries := List (Option String × Tree)

/-- The members of an object and of nothing else.  Every name must spell a text. -/
def readObject : Tree → Option Entries
  | .object members => if members.all fun member => member.1.isSome then some members else none
  | _ => none

/-- A known field: absent, or given once with a value of its type.  A null is a value. -/
def readField {α : Type} (read : Tree → Option α) (name : String) (members : Entries) :
    Option (Option α) :=
  match members.filter fun member => member.1 = some name with
  | [] => some none
  | [member] => (read member.2).map some
  | _ => none

def readText : Tree → Option String
  | .string spelled => spelled
  | _ => none

def readIgnored (_ : Tree) : Option Unit :=
  some ()

/-- The envelope fields, with `tool_input` skipped. -/
structure Wire where
  toolName : String
  cwd : Option String
  sessionId : Option String
  toolUseId : Option String
  hookEventName : Option String

def readWire (tree : Tree) : Option Wire := do
  let members ← readObject tree
  let toolName ← readField readText "tool_name" members
  let cwd ← readField readText "cwd" members
  let sessionId ← readField readText "session_id" members
  let toolUseId ← readField readText "tool_use_id" members
  let hookEventName ← readField readText "hook_event_name" members
  let _ ← readField readIgnored "tool_input" members
  let toolName ← toolName
  some { toolName, cwd, sessionId, toolUseId, hookEventName }

/-- The fields of `tool_input` the guard reads. -/
structure Fields where
  command : Option String
  filePath : Option String
  notebookPath : Option String
  path : Option String
  glob : Option String
  pattern : Option String

def readFields (tree : Tree) : Option Fields := do
  let members ← readObject tree
  let command ← readField readText "command" members
  let filePath ← readField readText "file_path" members
  let notebookPath ← readField readText "notebook_path" members
  let path ← readField readText "path" members
  let glob ← readField readText "glob" members
  let pattern ← readField readText "pattern" members
  some { command, filePath, notebookPath, path, glob, pattern }

/-- Only `tool_input`. -/
def readCall (tree : Tree) : Option (Option Fields) := do
  let members ← readObject tree
  readField readFields "tool_input" members

/-! ## Classification -/

/-- The answer for input that cannot be read. -/
def unreadable (tool : Option PathTool) (why : String) : HookInput :=
  match tool with
  | some tool => .deny (tool.name ++ " hook input cannot be read safely (" ++ why ++
      "), so the call is refused")
  | none => .noAnswer

def isAsciiWhitespace (byte : UInt8) : Bool :=
  byte = 0x20 || byte = 0x09 || byte = 0x0a || byte = 0x0c || byte = 0x0d

def compact (bytes : List UInt8) : List UInt8 :=
  bytes.filter fun byte => !isAsciiWhitespace byte

/-- The bytes by which an input that may not parse names a path tool.  The closing quote is part of
them, so `Reader` is not `Read`. -/
def needle (tool : PathTool) : List UInt8 :=
  utf8 ("\"tool_name\":\"" ++ tool.name ++ "\"").toList

/-- Finds a path tool's name in bytes that may not parse, through any whitespace. -/
def identifyPathTool (bytes : List UInt8) : Option PathTool :=
  PathTool.all.find? fun tool => (compact bytes).tails.any fun window => (needle tool).isPrefixOf window

/-- The path tool's target, or a refusal when a field it needs is missing. -/
def pathInput (tool : PathTool) (envelope : Envelope) (fields : Fields) : HookInput :=
  let (path, pattern) := match tool with
    | .read | .write | .edit => (fields.filePath, none)
    | .notebookEdit => (fields.notebookPath, none)
    | .grep => (fields.path, fields.glob)
    | .glob => (fields.path, fields.pattern)
  let required := match tool with
    | .glob => pattern.isSome
    | .grep => true
    | _ => path.isSome
  if required then .path envelope { tool, path, pattern }
  else unreadable (some tool) "a field it needs is missing"

/-- The call of a tool whose input is read. -/
def toolInput (tool : Tool) (envelope : Envelope) (fields : Fields) : HookInput :=
  match tool with
  | .bash =>
      match fields.command with
      | some text => .command envelope .bash text
      | none => unreadable tool.asPath "no command"
  | .monitor =>
      match fields.command with
      | some text => .command envelope .monitor text
      | none => .watch envelope
  | .powerShell => .powerShell envelope
  | .path tool => pathInput tool envelope fields

/-- The call of a named tool whose envelope is read. -/
def namedCall (bytes : List UInt8) (wire : Wire) (tool : Tool) : HookInput :=
  if wire.hookEventName.any fun name => name ≠ "PreToolUse" then
    unreadable tool.asPath "not a PreToolUse event"
  else
    match wire.cwd with
    | none => unreadable tool.asPath "no cwd"
    | some cwd =>
        let envelope : Envelope :=
          { cwd, sessionId := wire.sessionId, toolUseId := wire.toolUseId.filter fun id => !id.isEmpty }
        -- The field names of PowerShell are unmeasured, so nothing in its input is read.
        if tool = .powerShell then .powerShell envelope
        else
          match (readTree bytes).bind readCall with
          | some (some fields) => toolInput tool envelope fields
          | _ => unreadable tool.asPath "no readable tool_input"

/-- What a hook call is.  The bytes are the input up to one past the bound. -/
def classify (bytes : List UInt8) : HookInput :=
  if bytes.length > maxInputBytes then
    unreadable (identifyPathTool bytes) "over the 65536-byte bound"
  else
    match (readTree bytes).bind readWire with
    | none => unreadable (identifyPathTool bytes) "not one JSON object with readable fields"
    | some wire =>
        match Tool.named wire.toolName with
        | none => .noAnswer
        | some tool => namedCall bytes wire tool

/-- What the guard sees of an input. -/
def seen (bytes : List UInt8) : List UInt8 :=
  bytes.take (maxInputBytes + 1)

/-! ## What an object says -/

/-- The object says a text under a name, or has no such member. -/
def Says (members : Entries) (name : String) (value : Option String) : Prop :=
  lookup name members = value.map fun text => .string (some text)

/-- The envelope is the object's own. -/
structure Envelope.IsOf (envelope : Envelope) (members : Entries) : Prop where
  cwd : Says members "cwd" (some envelope.cwd)
  sessionId : Says members "session_id" envelope.sessionId
  toolUseId : ∃ given, Says members "tool_use_id" given ∧
    envelope.toolUseId = given.filter fun id => !id.isEmpty

/-- The member that names the file or the folder a tool works on. -/
def pathField : PathTool → String
  | .read | .write | .edit => "file_path"
  | .notebookEdit => "notebook_path"
  | .grep | .glob => "path"

/-- The member that holds a pattern which can reach files outside the path. -/
def patternField : PathTool → Option String
  | .grep => some "glob"
  | .glob => some "pattern"
  | _ => none

/-- The target is what the tool's own input names. -/
structure PathTarget.IsOf (target : PathTarget) (tool : PathTool) (input : Entries) : Prop where
  tool_eq : target.tool = tool
  path : Says input (pathField tool) target.path
  pattern : (patternField tool).elim (target.pattern = none) fun field =>
    Says input field target.pattern

/-- No file tool's call is let through because it could not be read, no other tool's is refused for
it, and a command's text is the one the call's own input gives. -/
structure Sound (members : Entries) (toolName : String) (answer : HookInput) : Prop where
  pathTool : ∀ tool : PathTool, tool.name = toolName → (∃ reason, answer = .deny reason) ∨
    ∃ envelope target input, answer = .path envelope target ∧ envelope.IsOf members ∧
      lookup "tool_input" members = some (.object input) ∧ target.IsOf tool input
  otherTool : (∀ tool : PathTool, tool.name ≠ toolName) →
    (∀ reason, answer ≠ .deny reason) ∧ ∀ envelope target, answer ≠ .path envelope target
  commandText : ∀ envelope tool text, answer = .command envelope tool text →
    ∃ input, lookup "tool_input" members = some (.object input) ∧ Says input "command" (some text)

/-- The names of the envelope's fields. -/
def envelopeFields : List String :=
  ["tool_name", "cwd", "session_id", "tool_use_id", "hook_event_name"]

/-- Every name of the object spells a text, and so does each of its envelope fields. -/
def Readable (members : Entries) : Prop :=
  (∀ member ∈ members, member.1 ≠ none) ∧
    ∀ name ∈ envelopeFields, ∃ value, Says members name value

/-! ## Fields of objects with distinct names -/

section Entries

variable {members : Entries} {name : String}

theorem filter_of_nodup (distinct : (members.filterMap Prod.fst).Nodup) :
    (members.filter fun member => member.1 = some name).map Prod.snd =
      (lookup name members).toList := by
  induction members with
  | nil => rfl
  | cons member members ih =>
      obtain ⟨written, value⟩ := member
      by_cases same : written = some name
      · subst same
        have distinct : (name :: members.filterMap Prod.fst).Nodup := distinct
        rw [List.nodup_cons] at distinct
        have others : (members.filter fun member => member.1 = some name) = [] := by
          refine List.filter_eq_nil_iff.mpr fun other other_mem named => ?_
          rw [decide_eq_true_eq] at named
          exact distinct.1 (List.mem_filterMap.mpr ⟨other, other_mem, named⟩)
        rw [List.filter_cons_of_pos (by simp), others, lookup, List.find?_cons_of_pos (by simp)]
        rfl
      · have rest_distinct : (members.filterMap Prod.fst).Nodup := by
          cases written with
          | none => simpa using distinct
          | some other =>
              have distinct : (other :: members.filterMap Prod.fst).Nodup := distinct
              exact (List.nodup_cons.mp distinct).2
        rw [List.filter_cons_of_neg (by simpa using same), ih rest_distinct, lookup, lookup,
          List.find?_cons_of_neg (by simpa using same)]

theorem readField_eq_some {α : Type} {read : Tree → Option α} {value : Option α}
    (distinct : (members.filterMap Prod.fst).Nodup) :
    readField read name members = some value ↔
      (lookup name members).elim (value = none) fun tree => (read tree).map some = some value := by
  have filtered := @filter_of_nodup members name distinct
  cases found : lookup name members with
  | none =>
      rw [found, Option.toList_none, List.map_eq_nil_iff] at filtered
      rw [readField, filtered]
      simp [eq_comm]
  | some tree =>
      rw [found, Option.toList_some, List.map_eq_singleton_iff] at filtered
      obtain ⟨member, filtered, rfl⟩ := filtered
      rw [readField, filtered]
      simp

theorem readText_eq_some {tree : Tree} {text : String} :
    readText tree = some text ↔ tree = .string (some text) := by
  cases tree <;> simp [readText]

/-- A field that must be a text reads as what the object says. -/
theorem readField_text (distinct : (members.filterMap Prod.fst).Nodup) {value : Option String} :
    readField readText name members = some value ↔ Says members name value := by
  rw [readField_eq_some distinct, Says]
  cases lookup name members with
  | none => cases value <;> simp
  | some tree => cases value <;> simp [readText_eq_some]

theorem readField_ignored (distinct : (members.filterMap Prod.fst).Nodup) :
    ∃ value, readField readIgnored name members = some value := by
  cases found : lookup name members with
  | none => exact ⟨none, (readField_eq_some distinct).mpr (by simp [found])⟩
  | some tree => exact ⟨some (), (readField_eq_some distinct).mpr (by simp [found, readIgnored])⟩

theorem readObject_eq_some {tree : Tree} :
    readObject tree = some members ↔ tree = .object members ∧ ∀ member ∈ members, member.1 ≠ none := by
  cases tree with
  | object given =>
      simp only [readObject, Option.ite_none_right_eq_some, Option.some.injEq, List.all_eq_true,
        Option.isSome_iff_ne_none, Tree.object.injEq]
      constructor
      · rintro ⟨named, rfl⟩
        exact ⟨rfl, named⟩
      · rintro ⟨rfl, named⟩
        exact ⟨named, rfl⟩
  | _ => simp [readObject]

end Entries

/-! ## What the typed reads read -/

section Reads

variable {members input : Entries}

theorem readWire_eq_some {wire : Wire} (distinct : (members.filterMap Prod.fst).Nodup) :
    readWire (.object members) = some wire ↔ (∀ member ∈ members, member.1 ≠ none) ∧
      Says members "tool_name" (some wire.toolName) ∧ Says members "cwd" wire.cwd ∧
      Says members "session_id" wire.sessionId ∧ Says members "tool_use_id" wire.toolUseId ∧
      Says members "hook_event_name" wire.hookEventName := by
  simp only [readWire, Option.bind_eq_bind, Option.bind_eq_some_iff, readObject_eq_some,
    Tree.object.injEq]
  constructor
  · rintro ⟨_, ⟨rfl, named⟩, toolName, tool_read, cwd, cwd_read, session, session_read, call, call_read,
      event, event_read, -, -, name, rfl, same⟩
    obtain rfl := Option.some.inj same
    rw [readField_text distinct] at tool_read cwd_read session_read call_read event_read
    exact ⟨named, tool_read, cwd_read, session_read, call_read, event_read⟩
  · rintro ⟨named, tool_said, cwd_said, session_said, call_said, event_said⟩
    obtain ⟨ignored, ignored_read⟩ := @readField_ignored members "tool_input" distinct
    rw [← readField_text distinct] at tool_said cwd_said session_said call_said event_said
    exact ⟨members, ⟨rfl, named⟩, _, tool_said, _, cwd_said, _, session_said, _, call_said, _,
      event_said, ignored, ignored_read, _, rfl, rfl⟩

/-- The envelope of an object with a tool's name is read when the object is readable. -/
theorem exists_wire {toolName : String} (distinct : (members.filterMap Prod.fst).Nodup)
    (named : lookup "tool_name" members = some (.string (some toolName))) :
    (∃ wire, readWire (.object members) = some wire) ↔ Readable members := by
  constructor
  · rintro ⟨wire, read⟩
    obtain ⟨all_named, tool_said, cwd_said, session_said, call_said, event_said⟩ :=
      (readWire_eq_some distinct).mp read
    refine ⟨all_named, ?_⟩
    simp only [envelopeFields, List.forall_mem_cons, List.not_mem_nil, false_imp_iff, implies_true,
      and_true]
    exact ⟨⟨_, tool_said⟩, ⟨_, cwd_said⟩, ⟨_, session_said⟩, ⟨_, call_said⟩, ⟨_, event_said⟩⟩
  · rintro ⟨all_named, said⟩
    simp only [envelopeFields, List.forall_mem_cons, List.not_mem_nil, false_imp_iff, implies_true,
      and_true] at said
    obtain ⟨-, ⟨cwd, cwd_said⟩, ⟨session, session_said⟩, ⟨call, call_said⟩, ⟨event, event_said⟩⟩ := said
    exact ⟨⟨toolName, cwd, session, call, event⟩, (readWire_eq_some distinct).mpr
      ⟨all_named, named, cwd_said, session_said, call_said, event_said⟩⟩

theorem says_of_readFields {fields : Fields} (distinct : (input.filterMap Prod.fst).Nodup)
    (read : readFields (.object input) = some fields) :
    Says input "command" fields.command ∧ Says input "file_path" fields.filePath ∧
      Says input "notebook_path" fields.notebookPath ∧ Says input "path" fields.path ∧
      Says input "glob" fields.glob ∧ Says input "pattern" fields.pattern := by
  simp only [readFields, Option.bind_eq_bind, Option.bind_eq_some_iff, readObject_eq_some,
    Tree.object.injEq] at read
  obtain ⟨_, ⟨rfl, -⟩, command, command_read, file, file_read, notebook, notebook_read, path, path_read,
    glob, glob_read, pattern, pattern_read, same⟩ := read
  obtain rfl := Option.some.inj same
  rw [readField_text distinct] at command_read file_read notebook_read path_read glob_read pattern_read
  exact ⟨command_read, file_read, notebook_read, path_read, glob_read, pattern_read⟩

/-- The values of an object whose names are distinct at every level. -/
theorem distinct_of_lookup {name : String} {value : Tree} (distinct : Tree.MembersDistinct members)
    (found : lookup name members = some value) : Tree.Distinct value := by
  induction members with
  | nil => cases found
  | cons member members ih =>
      obtain ⟨written, held⟩ := member
      rw [Tree.MembersDistinct] at distinct
      by_cases same : written = some name
      · rw [lookup, List.find?_cons_of_pos (by simpa using same)] at found
        obtain rfl := Option.some.inj found
        exact distinct.1
      · rw [lookup, List.find?_cons_of_neg (by simpa using same)] at found
        exact ih distinct.2 found

/-- The input a call is read with is the object's own. -/
theorem exists_input {fields : Fields} (distinct : Tree.Distinct (.object members))
    (read : readCall (.object members) = some (some fields)) :
    ∃ input, lookup "tool_input" members = some (.object input) ∧
      (input.filterMap Prod.fst).Nodup ∧ readFields (.object input) = some fields := by
  rw [Tree.Distinct] at distinct
  simp only [readCall, Option.bind_eq_bind, Option.bind_eq_some_iff, readObject_eq_some,
    Tree.object.injEq] at read
  obtain ⟨_, ⟨rfl, -⟩, read⟩ := read
  rw [readField_eq_some distinct.1] at read
  cases found : lookup "tool_input" members with
  | none => simp [found] at read
  | some tree =>
      have fields_read : readFields tree = some fields := by simpa [found] using read
      have tree_distinct := distinct_of_lookup distinct.2 found
      cases tree with
      | object input =>
          rw [Tree.Distinct] at tree_distinct
          exact ⟨input, rfl, tree_distinct.1, fields_read⟩
      | _ => simp [readFields, readObject] at fields_read

end Reads

/-! ## Sound answers -/

section Answers

variable {members : Entries} {toolName : String} {why : String}

/-- Unread input is answered soundly when a path tool is taken to have sent it exactly when one did. -/
theorem sound_unreadable_iff {tool : Option PathTool} : Sound members toolName (unreadable tool why) ↔
    (tool.isSome = true ↔ ∃ sent : PathTool, sent.name = toolName) := by
  cases tool with
  | none =>
      simp only [Option.isSome_none, Bool.false_eq_true, false_iff, not_exists]
      constructor
      · intro sound sent named
        obtain ⟨_, same⟩ | ⟨_, _, _, same, -⟩ := sound.pathTool sent named <;> cases same
      · intro unsent
        refine ⟨fun sent named => absurd named (unsent sent), fun _ => ⟨?_, ?_⟩, ?_⟩
        all_goals
          intros
          simp [unreadable] at *
  | some tool =>
      simp only [Option.isSome_some, true_iff]
      constructor
      · intro sound
        by_contra unsent
        exact (sound.otherTool (not_exists.mp unsent)).1 _ rfl
      · rintro ⟨sent, named⟩
        refine ⟨fun _ _ => .inl ⟨_, rfl⟩, fun unsent => absurd named (unsent sent), ?_⟩
        intro _ _ _ same
        cases same

theorem find_name {tool : PathTool} :
    (PathTool.all.find? fun tool => tool.name = toolName) = some tool ↔ tool.name = toolName := by
  constructor
  · intro found
    simpa using List.find?_some found
  · rintro rfl
    have found : (PathTool.all.find? fun other => other.name = tool.name).isSome = true :=
      List.find?_isSome.mpr ⟨tool, PathTool.mem_all tool, by simp⟩
    obtain ⟨other, other_found⟩ := Option.isSome_iff_exists.mp found
    have same : other.name = tool.name := by simpa using List.find?_some other_found
    rw [other_found, PathTool.name_injective same]

/-- A path tool has no other tool's name. -/
theorem named_of_path (tool : PathTool) : Tool.named tool.name = some (.path tool) := by
  have others : tool.name ≠ "Bash" ∧ tool.name ≠ "Monitor" ∧ tool.name ≠ "PowerShell" := by
    cases tool <;> decide
  rw [Tool.named, if_neg others.1, if_neg others.2.1, if_neg others.2.2, find_name.mpr rfl]
  rfl

theorem asPath_eq_some {tool : Tool} {sent : PathTool} : tool.asPath = some sent ↔ tool = .path sent := by
  cases tool <;> simp [Tool.asPath]

/-- A named tool is a path tool when the name is one's. -/
theorem isSome_asPath {tool : Tool} (named : Tool.named toolName = some tool) :
    tool.asPath.isSome = true ↔ ∃ sent : PathTool, sent.name = toolName := by
  rw [Option.isSome_iff_exists]
  constructor
  · rintro ⟨sent, is_path⟩
    obtain rfl := asPath_eq_some.mp is_path
    refine ⟨sent, ?_⟩
    unfold Tool.named at named
    split_ifs at named
    · cases named
    · cases named
    · cases named
    · obtain ⟨found, search, same⟩ := Option.map_eq_some_iff.mp named
      obtain rfl := Tool.path.inj same
      exact find_name.mp search
  · rintro ⟨sent, rfl⟩
    rw [named_of_path, Option.some.injEq] at named
    exact ⟨sent, asPath_eq_some.mpr named.symm⟩

theorem sound_unreadable {tool : Tool} (named : Tool.named toolName = some tool) :
    Sound members toolName (unreadable tool.asPath why) :=
  sound_unreadable_iff.mpr (isSome_asPath named)

/-- A path tool's call is refused or carries the paths its own input names. -/
theorem pathInput_cases {input : Entries} {fields : Fields} (tool : PathTool) (envelope : Envelope)
    (distinct : (input.filterMap Prod.fst).Nodup)
    (read : readFields (.object input) = some fields) :
    (∃ reason, pathInput tool envelope fields = .deny reason) ∨
      ∃ target, pathInput tool envelope fields = .path envelope target ∧ target.IsOf tool input := by
  obtain ⟨-, file_said, notebook_said, path_said, glob_said, pattern_said⟩ :=
    says_of_readFields distinct read
  have read_target (path : String) (given : fields.filePath = some path) (sent : PathTool)
      (field_eq : pathField sent = "file_path") (patternless : patternField sent = none) :
      PathTarget.IsOf ⟨sent, some path, none⟩ sent input := by
    refine ⟨rfl, ?_, ?_⟩
    · rw [field_eq, ← given]
      exact file_said
    · rw [patternless]
      rfl
  cases tool with
  | read =>
      cases given : fields.filePath with
      | none => exact .inl ⟨_, by rw [pathInput, given]; rfl⟩
      | some path => exact .inr ⟨_, by rw [pathInput, given]; rfl, read_target path given _ rfl rfl⟩
  | write =>
      cases given : fields.filePath with
      | none => exact .inl ⟨_, by rw [pathInput, given]; rfl⟩
      | some path => exact .inr ⟨_, by rw [pathInput, given]; rfl, read_target path given _ rfl rfl⟩
  | edit =>
      cases given : fields.filePath with
      | none => exact .inl ⟨_, by rw [pathInput, given]; rfl⟩
      | some path => exact .inr ⟨_, by rw [pathInput, given]; rfl, read_target path given _ rfl rfl⟩
  | notebookEdit =>
      cases given : fields.notebookPath with
      | none => exact .inl ⟨_, by rw [pathInput, given]; rfl⟩
      | some path =>
          rw [given] at notebook_said
          exact .inr ⟨⟨.notebookEdit, some path, none⟩, by rw [pathInput, given]; rfl, rfl, notebook_said, rfl⟩
  | grep => exact .inr ⟨_, rfl, rfl, path_said, glob_said⟩
  | glob =>
      cases given : fields.pattern with
      | none => exact .inl ⟨_, by rw [pathInput, given]; rfl⟩
      | some pattern =>
          rw [given] at pattern_said
          exact .inr ⟨⟨.glob, fields.path, some pattern⟩, by rw [pathInput, given]; rfl, rfl, path_said,
            pattern_said⟩

/-- An answer that names no path and gives no reason is sound for any other tool. -/
theorem sound_of_other {answer : HookInput} (other : ∀ sent : PathTool, sent.name ≠ toolName)
    (no_reason : ∀ reason, answer ≠ .deny reason) (no_path : ∀ envelope target, answer ≠ .path envelope target)
    (text_own : ∀ envelope tool text, answer = .command envelope tool text →
      ∃ input, lookup "tool_input" members = some (.object input) ∧ Says input "command" (some text)) :
    Sound members toolName answer :=
  ⟨fun sent named => absurd named (other sent), fun _ => ⟨no_reason, no_path⟩, text_own⟩

theorem other_of_named {tool : Tool} (named : Tool.named toolName = some tool) (pathless : tool.asPath = none)
    (sent : PathTool) : sent.name ≠ toolName := by
  intro same
  have is_path := (isSome_asPath named).mpr ⟨sent, same⟩
  rw [pathless] at is_path
  cases is_path

theorem sound_toolInput {tool : Tool} {envelope : Envelope} {input : Entries} {fields : Fields}
    (named : Tool.named toolName = some tool) (own : envelope.IsOf members)
    (found : lookup "tool_input" members = some (.object input))
    (distinct : (input.filterMap Prod.fst).Nodup)
    (read : readFields (.object input) = some fields) :
    Sound members toolName (toolInput tool envelope fields) := by
  have command_said := (says_of_readFields distinct read).1
  cases tool with
  | path tool =>
      have named_eq : tool.name = toolName := by
        obtain ⟨sent, rfl⟩ := (isSome_asPath named).mp rfl
        rw [named_of_path, Option.some.injEq, Tool.path.injEq] at named
        rw [named]
      obtain ⟨reason, refused⟩ | ⟨target, answered, target_own⟩ :=
        pathInput_cases tool envelope distinct read
      · refine ⟨fun _ _ => .inl ⟨reason, refused⟩, fun other => absurd named_eq (other tool), ?_⟩
        intro _ _ _ same
        rw [toolInput, refused] at same
        cases same
      · refine ⟨fun sent sent_eq => .inr ⟨envelope, target, input, answered, own, found, ?_⟩,
          fun other => absurd named_eq (other tool), ?_⟩
        · rwa [PathTool.name_injective (sent_eq.trans named_eq.symm)]
        · intro _ _ _ same
          rw [toolInput, answered] at same
          cases same
  | powerShell =>
      refine sound_of_other (other_of_named named rfl) ?_ ?_ ?_
      all_goals
        intros
        simp [toolInput] at *
  | bash =>
      cases given : fields.command with
      | none =>
          rw [toolInput, given]
          exact sound_unreadable named
      | some text =>
          rw [given] at command_said
          refine sound_of_other (other_of_named named rfl) ?_ ?_ ?_
          · simp [toolInput, given]
          · simp [toolInput, given]
          · intro _ _ other same
            rw [toolInput, given] at same
            cases same
            exact ⟨input, found, command_said⟩
  | monitor =>
      cases given : fields.command with
      | none =>
          refine sound_of_other (other_of_named named rfl) ?_ ?_ ?_
          all_goals
            intros
            simp [toolInput, given] at *
      | some text =>
          rw [given] at command_said
          refine sound_of_other (other_of_named named rfl) ?_ ?_ ?_
          · simp [toolInput, given]
          · simp [toolInput, given]
          · intro _ _ other same
            rw [toolInput, given] at same
            cases same
            exact ⟨input, found, command_said⟩

theorem sound_namedCall {bytes : List UInt8} {wire : Wire} {tool : Tool}
    (tree_read : readTree bytes = some (.object members)) (distinct : Tree.Distinct (.object members))
    (wire_read : readWire (.object members) = some wire) (named : Tool.named toolName = some tool) :
    Sound members toolName (namedCall bytes wire tool) := by
  have names_distinct : (members.filterMap Prod.fst).Nodup := by
    rw [Tree.Distinct] at distinct
    exact distinct.1
  obtain ⟨-, -, cwd_said, session_said, call_said, -⟩ := (readWire_eq_some names_distinct).mp wire_read
  unfold namedCall
  by_cases other_event : (wire.hookEventName.any fun name => name ≠ "PreToolUse") = true
  · rw [if_pos other_event]
    exact sound_unreadable named
  rw [if_neg other_event]
  cases cwd_eq : wire.cwd with
  | none => exact sound_unreadable named
  | some cwd =>
      rw [cwd_eq] at cwd_said
      dsimp only
      split_ifs with is_shell
      · subst is_shell
        refine sound_of_other (other_of_named named rfl) ?_ ?_ ?_
        all_goals
          intros
          simp at *
      · rw [tree_read, Option.bind_some]
        split
        · next fields call_read =>
            obtain ⟨input, found, input_distinct, fields_read⟩ := exists_input distinct call_read
            exact sound_toolInput named ⟨cwd_said, session_said, _, call_said, rfl⟩ found input_distinct
              fields_read
        · exact sound_unreadable named

/-- Bytes that name a path tool are taken for one's. -/
theorem isSome_identifyPathTool {bytes : List UInt8} : (identifyPathTool bytes).isSome = true ↔
    ∃ tool, needle tool <:+: compact bytes := by
  rw [identifyPathTool, List.find?_isSome]
  simp only [List.any_eq_true, List.mem_tails, List.isPrefixOf_iff_prefix]
  constructor
  · rintro ⟨tool, -, window, window_suffix, starts⟩
    exact ⟨tool, List.infix_iff_prefix_suffix.mpr ⟨window, starts, window_suffix⟩⟩
  · rintro ⟨tool, held⟩
    obtain ⟨window, starts, window_suffix⟩ := List.infix_iff_prefix_suffix.mp held
    exact ⟨tool, PathTool.mem_all tool, window, window_suffix, starts⟩

end Answers

/-- A call is answered soundly exactly when its envelope can be read within the bound, or else what the
guard sees names a path tool exactly when one sent the call. -/
theorem sound_classify_iff {bytes : List UInt8} {members : Entries} {toolName : String}
    (tree_read : readTree bytes = some (.object members)) (distinct : Tree.Distinct (.object members))
    (named : lookup "tool_name" members = some (.string (some toolName))) :
    Sound members toolName (classify (seen bytes)) ↔
      bytes.length ≤ maxInputBytes ∧ Readable members ∨
        ((∃ tool, needle tool <:+: compact (seen bytes)) ↔ ∃ tool : PathTool, tool.name = toolName) := by
  have names_distinct : (members.filterMap Prod.fst).Nodup := by
    rw [Tree.Distinct] at distinct
    exact distinct.1
  rw [← isSome_identifyPathTool]
  by_cases bounded : bytes.length ≤ maxInputBytes
  swap
  · have long : (seen bytes).length > maxInputBytes := by
      rw [seen, List.length_take]
      omega
    rw [classify, if_pos long, sound_unreadable_iff]
    simp [bounded]
  have whole : seen bytes = bytes := List.take_of_length_le (by omega)
  rw [whole, classify, if_neg (by omega), tree_read, Option.bind_some]
  by_cases readable : Readable members
  · obtain ⟨wire, wire_read⟩ := (exists_wire names_distinct named).mpr readable
    have wire_named := ((readWire_eq_some names_distinct).mp wire_read).2.1
    have name_eq : wire.toolName = toolName := by
      rw [Says, named] at wire_named
      simpa using wire_named.symm
    refine iff_of_true ?_ (.inl ⟨bounded, readable⟩)
    rw [wire_read]
    dsimp only
    rw [name_eq]
    cases tool_eq : Tool.named toolName with
    | none =>
        refine sound_of_other (fun sent same => ?_) (by simp) (by simp) (by simp)
        rw [← same, named_of_path] at tool_eq
        cases tool_eq
    | some tool => exact sound_namedCall tree_read distinct wire_read tool_eq
  · have unread : readWire (.object members) = none := by
      rw [← Option.not_isSome_iff_eq_none, Option.isSome_iff_exists]
      exact fun exists_read => readable ((exists_wire names_distinct named).mp exists_read)
    rw [unread]
    simp only [readable, and_false, false_or]
    exact sound_unreadable_iff

/-- A call of the Edit tool whose envelope can be read. -/
def readableMembers : Entries :=
  [(some "cwd", .string (some "/p")), (some "tool_name", .string (some "Edit")),
    (some "tool_input", .object [(some "file_path", .string (some "a"))])]

theorem readable_readableMembers : Readable readableMembers := by
  refine ⟨by simp [readableMembers], ?_⟩
  simp only [envelopeFields, List.forall_mem_cons, List.not_mem_nil, false_imp_iff, implies_true, and_true]
  exact ⟨⟨some "Edit", rfl⟩, ⟨some "/p", rfl⟩, ⟨none, rfl⟩, ⟨none, rfl⟩, ⟨none, rfl⟩⟩

theorem readable_call_sound : Sound readableMembers "Edit" (classify (seen (utf8
    "\x7b\"cwd\":\"/p\", \"tool_name\":\"Edit\",\"tool_input\":\x7b\"file_path\":\"a\"\x7d\x7d".toList))) :=
  (sound_classify_iff (by rfl) (by simp [Tree.Distinct, Tree.MembersDistinct, readableMembers]) rfl).mpr
    (.inl ⟨by decide +kernel, readable_readableMembers⟩)

/-- A call of the Read tool, its name written with an escape, whose folder is no text. -/
def escapedCall : List UInt8 :=
  utf8 "\x7b\"tool_name\":\"\\u0052ead\",\"cwd\":5\x7d".toList

def escapedMembers : Entries :=
  [(some "tool_name", .string (some "Read")), (some "cwd", .atom)]

theorem readTree_escapedCall : readTree escapedCall = some (.object escapedMembers) := by rfl

theorem distinct_escapedMembers : Tree.Distinct (.object escapedMembers) := by
  simp [Tree.Distinct, Tree.MembersDistinct, escapedMembers]

theorem classify_escapedCall : classify (seen escapedCall) = .noAnswer := by rfl

/-- The call of a file tool is let through because it could not be read. -/
theorem escaped_call_passes :
    readTree escapedCall = some (.object escapedMembers) ∧
      Tree.Distinct (.object escapedMembers) ∧
      lookup "tool_name" escapedMembers = some (.string (some PathTool.read.name)) ∧
      classify (seen escapedCall) = .noAnswer ∧
      ¬ Sound escapedMembers PathTool.read.name (classify (seen escapedCall)) := by
  refine ⟨readTree_escapedCall, distinct_escapedMembers, rfl, classify_escapedCall, fun sound => ?_⟩
  obtain ⟨_, same⟩ | ⟨_, _, _, same, -⟩ := sound.pathTool .read rfl
  · rw [classify_escapedCall] at same
    cases same
  · rw [classify_escapedCall] at same
    cases same

end Baley.Hook
