import Mathlib.Data.List.MinMax
import Mathlib.Data.Prod.Lex
import Baley.Config.Schema
import Baley.Json.Scan

/-!
# Settings files and their merge

Each file judged against the schema: typed values, diagnostics for what is ignored, and why a file that is
not valid gives no policy.  Then the merge of the files, later layers winning setting by setting.
-/

namespace Baley.Config

open Json (utf8)

/-! ## Values -/

/-- How many tasks a phase may hold: a number of 32 bits that is not zero. -/
abbrev Capacity := { tasks : Nat // 0 < tasks ∧ tasks < 2 ^ 32 }

def Capacity.ofNat (tasks : Nat) : Option Capacity :=
  if fits : 0 < tasks ∧ tasks < 2 ^ 32 then some ⟨tasks, fits⟩ else none

/-- A setting's value, typed by its entry's kind. -/
inductive Setting where
  | bool (value : Bool)
  | rung (value : Rung)
  | modelName (name : String)
  | remoteName (name : String)
  | onProtected (value : OnProtected)
  | branchList (names : List String)
  | reviewerList (names : List String)
  | httpsAddress (address : String)
  | personName (name : String)
  | capacity (tasks : Capacity)
  | command (line : String)
  deriving DecidableEq

/-- What `typed` found wrong, with where the part at fault starts when it is not the whole value. -/
inductive Mismatch where
  | type (found : String) (inside : Option Nat)
  | grammar (written : String) (inside : Option Nat)

def article (found : String) : String :=
  if found.toList.head?.any fun c => ['a', 'e', 'i', 'o', 'u'].contains c then "an" else "a"

/-- The value of a digit in a radix of at most sixteen. -/
def digitValue (radix : Nat) (c : Char) : Option Nat :=
  let value :=
    if '0' ≤ c ∧ c ≤ '9' then some (c.toNat - 48)
    else if 'a' ≤ c ∧ c ≤ 'z' then some (c.toNat - 87)
    else if 'A' ≤ c ∧ c ≤ 'Z' then some (c.toNat - 55)
    else none
  value.filter (· < radix)

/-- A number in its radix, of at least one digit. -/
def readDigits (radix : Nat) (digits : List Char) : Option Nat :=
  if digits = [] then none
  else digits.foldlM (fun number c => (digitValue radix c).map (number * radix + ·)) 0

/-- A number below 2^32 in its radix, with an optional `+` before its digits. -/
def readU32 (radix : Nat) (digits : String) : Option Nat :=
  (match digits.toList with
    | '+' :: digits => readDigits radix digits
    | digits => readDigits radix digits).filter (· < 2 ^ 32)

/-- An integer as TOML writes it. -/
def integerText (radix : Nat) (digits : String) : String :=
  (if radix = 2 then "0b" else if radix = 8 then "0o" else if radix = 16 then "0x" else "") ++ digits

/-- The names of a list, the first that is refused giving the mismatch. -/
def typedNames (judge : Nat → Toml → Except Mismatch String) :
    List (Nat × Toml) → Except Mismatch (List String)
  | [] => .ok []
  | (start, item) :: items => do
      let name ← judge start item
      let names ← typedNames judge items
      .ok (name :: names)

def branchName (start : Nat) (item : Toml) : Except Mismatch String :=
  match item.asStr with
  | none => .error (.type item.typeStr (some start))
  | some name => if isBlank name then .error (.grammar name (some start)) else .ok name

def reviewerName (start : Nat) (item : Toml) : Except Mismatch String :=
  match item.asStr with
  | none => .error (.grammar (article item.typeStr ++ " " ++ item.typeStr) (some start))
  | some name => if reviewerNames.contains name then .ok name else .error (.grammar name (some start))

/-- A text of a grammar. -/
def typedText (value : Toml) (read : String → Option Setting) : Except Mismatch Setting :=
  match value.asStr with
  | none => .error (.type value.typeStr none)
  | some written =>
      match read written with
      | some setting => .ok setting
      | none => .error (.grammar written none)

/-- A value as the type or grammar of a kind. -/
def typed (kind : Kind) (value : Toml) : Except Mismatch Setting :=
  match kind with
  | .bool =>
      match value with
      | .boolean flag => .ok (.bool flag)
      | _ => .error (.type value.typeStr none)
  | .rung => typedText value fun written => (Rung.parse written).map .rung
  | .modelName => typedText value fun written => if written = "" then none else some (.modelName written)
  | .remoteName => typedText value fun written => if written = "" then none else some (.remoteName written)
  | .onProtected => typedText value fun written => (OnProtected.parse written).map .onProtected
  | .branchList =>
      match value with
      | .array items => (typedNames branchName items).map .branchList
      | _ => .error (.type value.typeStr none)
  | .reviewerList =>
      match value with
      | .array items => (typedNames reviewerName items).map .reviewerList
      | _ => .error (.type value.typeStr none)
  | .httpsAddress =>
      typedText value fun written => if isHttpsAddress written then some (.httpsAddress written) else none
  | .personName =>
      typedText value fun written => if isPersonName written then some (.personName written) else none
  | .capacity =>
      match value with
      | .integer radix digits =>
          match (readU32 radix digits).bind Capacity.ofNat with
          | some tasks => .ok (.capacity tasks)
          | none => .error (.grammar (integerText radix digits) none)
      | _ => .error (.type value.typeStr none)
  | .command =>
      typedText value fun written => if isPersonName written then some (.command written) else none

/-! ## Files and what they hold -/

/-- Which of the two settings files a layer is. -/
inductive FileLayer where
  | global
  | project
  deriving DecidableEq

/-- One settings file as read. -/
structure SettingsFile where
  path : String
  bytes : List UInt8
  digest : String

/-- A settings file as the policy cites it. -/
structure FileRef where
  path : String
  digest : String
  deriving DecidableEq

/-- One setting a file writes, typed and within its scope. -/
structure Written where
  name : String
  /-- The host section it was written in. -/
  host : Option Host
  value : Setting
  line : Nat
  column : Nat
  deriving DecidableEq

inductive DiagnosticKind where
  | unknownName
  | wrongScope (scope : Scope)
  | unknownHost
  deriving DecidableEq

/-- Something a file holds that is ignored. -/
structure Diagnostic where
  layer : FileLayer
  path : String
  name : String
  line : Nat
  column : Nat
  kind : DiagnosticKind
  deriving DecidableEq

/-- What a place in the file requires. -/
inductive Expected where
  | table
  | kind (kind : Kind)
  deriving DecidableEq

/-- Why a settings file gives no policy. -/
inductive Fault where
  | notUtf8 (line column : Nat)
  | parse (position : Option (Nat × Nat)) (message : String)
  | wrongType (name : String) (expected : Expected) (found : String) (line column : Nat)
  | outsideGrammar (name : String) (kind : Kind) (written : String) (line column : Nat)
  deriving DecidableEq

def Fault.position : Fault → Option (Nat × Nat)
  | .notUtf8 line column => some (line, column)
  | .parse position _ => position
  | .wrongType _ _ _ line column => some (line, column)
  | .outsideGrammar _ _ _ line column => some (line, column)

structure Unavailable where
  path : String
  fault : Fault
  deriving DecidableEq

structure ParsedLayer where
  file : FileRef
  layer : FileLayer
  /-- Every setting written, top level and host sections alike. -/
  values : List Written
  /-- What was ignored, in file order. -/
  diagnostics : List Diagnostic
  deriving DecidableEq

/-! ## Places -/

def count (value : Nat) : Nat := min value 4294967295

/-- The one-based line and column of a byte offset; one at or past the end is clamped to the last byte and
the excess added to the column. -/
def lineAndColumn (text : List UInt8) (offset : Nat) : Nat × Nat :=
  if text = [] then (1, count (offset + 1))
  else
    let index := min offset (text.length - 1)
    let carry := offset - index
    let lineStart := index - ((text.take index).reverse.takeWhile (· ≠ 0x0a)).length
    let line := 1 + ((text.take lineStart).filter (· = 0x0a)).length
    let column :=
      match String.fromUTF8? ((text.take (index + 1)).drop lineStart).toByteArray with
      | some slice => slice.length - 1
      | none => index - lineStart
    (count line, count (column + carry + 1))

/-- A path for display, a part that holds a dot quoted as TOML does. -/
def display (segments : List String) : String :=
  ".".intercalate (segments.map fun segment =>
    if segment.toList.contains '.' then
      "\"" ++ String.ofList (segment.toList.flatMap fun c =>
        if c = '\\' then ['\\', '\\'] else if c = '"' then ['\\', '"'] else [c]) ++ "\""
    else segment)

/-- A path as written, with the prefix of its host section. -/
def shownName (path : List String) : Option Host → String
  | some host => display (["host", host.name] ++ path)
  | none => display path

/-! ## The walk -/

/-- What a walk reads besides the tree. -/
structure Walk where
  text : List UInt8
  path : String
  layer : FileLayer
  entries : List Entry

/-- What a walk finds. -/
structure Findings where
  values : List Written
  diagnostics : List Diagnostic
  faults : List Fault

def Findings.none : Findings := ⟨[], [], []⟩

def Findings.andThen (first second : Findings) : Findings :=
  ⟨first.values ++ second.values, first.diagnostics ++ second.diagnostics, first.faults ++ second.faults⟩

namespace Walk

variable (walk : Walk)

def diagnose (name : String) (offset : Nat) (kind : DiagnosticKind) : Findings :=
  let (line, column) := lineAndColumn walk.text offset
  { Findings.none with
    diagnostics := [{ layer := walk.layer, path := walk.path, name, line, column, kind }] }

def wrongType (path : List String) (host : Option Host) (key : Key) (value : Toml) : Findings :=
  let (line, column) := lineAndColumn walk.text key.valueStart
  { Findings.none with
    faults := [.wrongType (shownName path host) .table value.typeStr line column] }

/-- Whether an entry's scope keeps it out of the file. -/
def excluded (entry : Entry) : Bool :=
  (entry.scope = .project && walk.layer = .global) || (entry.scope = .global && walk.layer = .project)

/-- A mismatch as the fault of a setting. -/
def mismatch (entry : Entry) (path : List String) (host : Option Host) (key : Key) : Mismatch → Fault
  | .type found inside =>
      let (line, column) := lineAndColumn walk.text (inside.getD key.valueStart)
      .wrongType (shownName path host) (.kind entry.kind) found line column
  | .grammar written inside =>
      let (line, column) := lineAndColumn walk.text (inside.getD key.valueStart)
      .outsideGrammar (shownName path host) entry.kind written line column

/-- A declared setting: typed before its scope is judged. -/
def setting (entry : Entry) (path : List String) (host : Option Host) (key : Key) (value : Toml) : Findings :=
  match typed entry.kind value with
  | .error wrong => { Findings.none with faults := [walk.mismatch entry path host key wrong] }
  | .ok value =>
      if walk.excluded entry then
        walk.diagnose (shownName path host) key.start (.wrongScope entry.scope)
      else
        let (line, column) := lineAndColumn walk.text key.start
        { Findings.none with values := [{ name := entry.name, host, value, line, column }] }

def exact (path : List String) : Option Entry := walk.entries.find? fun entry => entry.segments = path

/-- Whether an entry lies below a path. -/
def below (path : List String) : Bool :=
  walk.entries.any fun entry => path.length < entry.segments.length && path.isPrefixOf entry.segments

mutual

/-- One diagnostic for each leaf under an unknown name; an empty table reports itself. -/
def unknown (path : List String) (host : Option Host) (key : Key) : Toml → Findings
  | .table (entry :: entries) => unknownEntries path host (entry :: entries)
  | _ => diagnose walk (shownName path host) key.start .unknownName
  termination_by structural value => value

def unknownEntries (path : List String) (host : Option Host) : List (Key × Toml) → Findings
  | [] => .none
  | (key, value) :: entries =>
      (unknown (path ++ [key.name]) host key value).andThen (unknownEntries path host entries)
  termination_by structural entries => entries

end

mutual

/-- What an entry of a table is: the project's identity, the host sections, a setting, a table of settings
or unknown. -/
def item (above : List String) (host : Option Host) (key : Key) : Toml → Findings
  | .table inner =>
      let top := above.isEmpty && host.isNone
      let path := above ++ [key.name]
      if top && key.name = "project" && walk.layer = .project then .none
      else if top && key.name = "host" then hosts inner
      else
        match exact walk path with
        | some entry => setting walk entry path host key (.table inner)
        | none =>
            if below walk path then table path host inner
            else unknown walk path host key (.table inner)
  | value =>
      let top := above.isEmpty && host.isNone
      let path := above ++ [key.name]
      if top && key.name = "project" && walk.layer = .project then .none
      else if top && key.name = "host" then wrongType walk ["host"] none key value
      else
        match exact walk path with
        | some entry => setting walk entry path host key value
        | none =>
            if below walk path then wrongType walk path host key value
            else unknown walk path host key value
  termination_by structural value => value

def table (above : List String) (host : Option Host) : List (Key × Toml) → Findings
  | [] => .none
  | (key, value) :: entries => (item above host key value).andThen (table above host entries)
  termination_by structural entries => entries

/-- The host sections of a file. -/
def hosts : List (Key × Toml) → Findings
  | [] => .none
  | (key, value) :: entries => (hostSection key value).andThen (hosts entries)
  termination_by structural entries => entries

def hostSection (key : Key) : Toml → Findings
  | .table inner =>
      match Host.parse key.name with
      | none => diagnose walk (display ["host", key.name]) key.start .unknownHost
      | some host => table [] (some host) inner
  | value =>
      match Host.parse key.name with
      | none => diagnose walk (display ["host", key.name]) key.start .unknownHost
      | some _ => wrongType walk ["host", key.name] none key value
  termination_by structural value => value

end

end Walk

/-! ## A whole file -/

/-- Why a text is not TOML, and where the reader stopped. -/
structure ParseError where
  start : Option Nat
  message : String

/-- A reader of TOML documents, whose tables name a key once. -/
structure Reader where
  read : String → Except ParseError (List (Key × Toml))
  named_once : ∀ {text : String} {entries : List (Key × Toml)}, read text = .ok entries → NamedOnce (.table entries)

/-- The length of the longest prefix that is UTF-8. -/
def validUpTo (bytes : List UInt8) : Nat :=
  ((List.range (bytes.length + 1)).filter fun size =>
    (String.fromUTF8? (bytes.take size).toByteArray).isSome).getLastD 0

/-- A file's text and its document, or the fault that stops either from being read. -/
def document (reader : Reader) (file : SettingsFile) : Except Unavailable (String × List (Key × Toml)) :=
  match String.fromUTF8? file.bytes.toByteArray with
  | none =>
      let valid := file.bytes.take (validUpTo file.bytes)
      let (line, column) := lineAndColumn valid valid.length
      .error { path := file.path, fault := .notUtf8 line column }
  | some text =>
      match reader.read text with
      | .error error =>
          .error { path := file.path,
                   fault := .parse (error.start.map (lineAndColumn file.bytes)) error.message }
      | .ok entries => .ok (text, entries)

/-- The document of a text. -/
theorem document_utf8 {reader : Reader} {text : String} {entries : List (Key × Toml)}
    (read_ok : reader.read text = .ok entries) (path digest : String) :
    document reader { path, bytes := utf8 text.toList, digest } = .ok (text, entries) := by
  have encoded : (utf8 text.toList).toByteArray = text.toByteArray := by
    conv_rhs => rw [← @String.ofList_toList text, String.toByteArray_ofList]
    rfl
  have decoded : String.fromUTF8? (utf8 text.toList).toByteArray = some text := by
    have valid : (utf8 text.toList).toByteArray.IsValidUTF8 := ⟨text.toList, rfl⟩
    unfold String.fromUTF8?
    rw [dif_pos valid]
    exact congrArg some (String.toByteArray_inj.mp encoded)
  simp only [document, decoded, read_ok]

/-- What a document was read from. -/
theorem document_eq_ok {reader : Reader} {file : SettingsFile} {text : String} {entries : List (Key × Toml)}
    (read_ok : document reader file = .ok (text, entries)) : reader.read text = .ok entries := by
  rw [document] at read_ok
  cases utf8 : String.fromUTF8? file.bytes.toByteArray with
  | none => rw [utf8] at read_ok; cases read_ok
  | some held =>
      simp only [utf8] at read_ok
      cases outcome : reader.read held with
      | error error => rw [outcome] at read_ok; cases read_ok
      | ok given =>
          rw [outcome] at read_ok
          cases read_ok
          exact outcome

theorem document_named_once {reader : Reader} {file : SettingsFile} {text : String} {entries : List (Key × Toml)}
    (read_ok : document reader file = .ok (text, entries)) : NamedOnce (.table entries) :=
  reader.named_once (document_eq_ok read_ok)

/-- A fault's position, ordered by line and then column, a fault without one first. -/
def Fault.place (fault : Fault) : WithBot (Nat ×ₗ Nat) := fault.position.map toLex

def Diagnostic.place (diagnostic : Diagnostic) : Nat ×ₗ Nat := toLex (diagnostic.line, diagnostic.column)

/-- A walk of a file before it has found anything. -/
def SettingsFile.walk (file : SettingsFile) (schema : Schema) (layer : FileLayer) : Walk :=
  { text := file.bytes, path := file.path, layer, entries := schema.entries }

/-- One settings file judged against a schema: the first fault in the file refuses it. -/
def parseLayer (reader : Reader) (schema : Schema) (layer : FileLayer) (file : SettingsFile) :
    Except Unavailable ParsedLayer := do
  let (_, entries) ← document reader file
  let found := (file.walk schema layer).table [] none entries
  match found.faults.argmin Fault.place with
  | some fault => .error { path := file.path, fault }
  | none =>
      .ok { file := { path := file.path, digest := file.digest }, layer, values := found.values,
            diagnostics := found.diagnostics.mergeSort fun first second => first.place ≤ second.place }

/-! ## The merge -/

/-- Where a setting's value came from. -/
inductive Layer where
  | default
  /-- The global file's top level. -/
  | global
  /-- The global file's section for the connected host. -/
  | globalHost
  | project
  | projectHost
  deriving DecidableEq

/-- The layer, file and position a value came from; a default has no file and is at zero. -/
structure Source where
  layer : Layer
  file : Option FileRef
  line : Nat
  column : Nat
  deriving DecidableEq

/-- A setting's value in effect, absent only for an absent default. -/
structure Effective where
  value : Option Setting
  source : Source
  deriving DecidableEq

abbrev Settings := Std.TreeMap String Effective

/-- The merged settings for one project and one host or none. -/
structure EffectivePolicy where
  host : Option Host
  settings : Settings
  /-- The global file's diagnostics, then the project file's. -/
  diagnostics : List Diagnostic
  global : Option FileRef
  project : Option FileRef

def Default.setting : Default → Option Setting
  | .absent => none
  | .bool value => some (.bool value)
  | .rung value => some (.rung value)
  | .onProtected value => some (.onProtected value)
  | .branchList names => some (.branchList names)
  | .reviewerList names => some (.reviewerList names)

/-- An entry's built-in value as an effective one. -/
def Entry.byDefault (entry : Entry) : Effective where
  value := entry.otherwise.setting
  source := { layer := .default, file := none, line := 0, column := 0 }

def Schema.defaults (schema : Schema) : Settings :=
  Std.TreeMap.ofList (schema.entries.map fun entry => (entry.name, entry.byDefault)) compare

namespace ParsedLayer

variable (parsed : ParsedLayer)

/-- A written value as the one in effect. -/
def effective (layer : Layer) (written : Written) : Effective where
  value := some written.value
  source := { layer, file := some parsed.file, line := written.line, column := written.column }

/-- The settings with what a file writes at its top level or in one host's section. -/
def apply (layer : Layer) (host : Option Host) (settings : Settings) : Settings :=
  (parsed.values.filter fun written => written.host = host).foldl
    (fun settings written => settings.modify written.name fun _ => parsed.effective layer written) settings

end ParsedLayer

/-- What a file's layers apply: its top level, then the connected host's section. -/
def applyFile (host : Option Host) (top inside : Layer) (parsed : Option ParsedLayer) (settings : Settings) :
    Settings :=
  match parsed with
  | none => settings
  | some parsed =>
      let settings := parsed.apply top none settings
      if host.isSome then parsed.apply inside host settings else settings

/-- The parsed files merged over the schema's defaults for a host. -/
def merge (schema : Schema) (host : Option Host) (global project : Option ParsedLayer) : EffectivePolicy where
  host
  settings :=
    applyFile host .project .projectHost project (applyFile host .global .globalHost global schema.defaults)
  diagnostics := [global, project].flatMap fun parsed => (parsed.map ParsedLayer.diagnostics).getD []
  global := global.map ParsedLayer.file
  project := project.map ParsedLayer.file

/-- A file's layer, when there is a file. -/
def parseFile (reader : Reader) (schema : Schema) (layer : FileLayer) :
    Option SettingsFile → Except Unavailable (Option ParsedLayer)
  | none => .ok none
  | some file => (parseLayer reader schema layer file).map some

/-- The settings in effect: the first file that gives no policy refuses. -/
def effectivePolicy (reader : Reader) (schema : Schema) (host : Option Host)
    (global project : Option SettingsFile) : Except Unavailable EffectivePolicy := do
  let global ← parseFile reader schema .global global
  let project ← parseFile reader schema .project project
  .ok (merge schema host global project)

end Baley.Config
