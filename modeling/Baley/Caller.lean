import Baley.CanonicalForm

/-!
# The caller of an event

Who asked for an append, in a bounded and checked value that is part of the hashed record.  A value
of these types satisfies the checks of its constructor, so the encoder always writes an object the
decoder accepts, and the decoder gives back the caller it was written from.
-/

namespace Baley

open Json

def maxDirectoryBytes : Nat := 4096
def maxHostBytes : Nat := 64
def maxClientVersionBytes : Nat := 128
def baleySessionBytes : Nat := 36
def maxHostSessionBytes : Nat := 128
def maxCallIdentityBytes : Nat := 256
def maxWorkOrderBytes : Nat := 256
def maxInstructions : Nat := 32
def maxInstructionIdentityBytes : Nat := 256
def maxInstructionVersionBytes : Nat := 64
def maxInstructionHashBytes : Nat := 128

/-- Why a caller cannot be built or read. -/
inductive CallerError where
  | empty (field : String)
  | tooLong (field : String) (limit bytes : Nat)
  | notAbsolute (field : String)
  | notSessionId
  | notHostName
  | tooManyInstructions (count : Nat)
  | notJsonRpcId
  | notAnObject (place : String)
  | badForm
  | unknownKey (place key : String)
  | missingField (field : String)
  | notText (field : String)
  | notAList
  | emptyInstructionList
  | hookHoldsSession
  | unknownSource (found : String)
  | sourceMismatch
  | notCanonicalJsonRpcId
  deriving DecidableEq, Repr

/-! ## Checked texts -/

/-- A text of one to `limit` bytes. -/
structure TextField (limit : Nat) where
  val : String
  val_ne : val ≠ ""
  fits : val.utf8ByteSize ≤ limit

def textField (field text : String) (limit : Nat) : Except CallerError (TextField limit) :=
  if empty : text = "" then .error (.empty field)
  else if long : limit < text.utf8ByteSize then .error (.tooLong field limit text.utf8ByteSize)
  else .ok ⟨text, empty, Nat.le_of_not_lt long⟩

@[simp]
theorem textField_val (field : String) {limit : Nat} (text : TextField limit) :
    textField field text.val limit = .ok text := by
  obtain ⟨text, text_ne, fits⟩ := text
  simp [textField, text_ne, Nat.not_lt.mpr fits]

/-- An absolute path has a leading slash. -/
def isAbsolute (text : String) : Bool :=
  text.toList.head? == some '/'

structure Directory where
  text : TextField maxDirectoryBytes
  absolute : isAbsolute text.val = true

def directory (field text : String) : Except CallerError Directory := do
  let text ← textField field text maxDirectoryBytes
  if absolute : isAbsolute text.val = true then .ok ⟨text, absolute⟩
  else .error (.notAbsolute field)

@[simp]
theorem directory_val (field : String) (path : Directory) :
    directory field path.text.val = .ok path := by
  obtain ⟨text, absolute⟩ := path
  simp [directory, bind, Except.bind, absolute]

/-- Lower-case letters, digits and dashes, a letter first. -/
def isHostName (text : String) : Bool :=
  match text.toList with
  | [] => false
  | first :: rest => first.isLower && rest.all fun c => c.isLower || c.isDigit || c == '-'

structure HostName where
  text : TextField maxHostBytes
  name : isHostName text.val = true

def hostName (text : String) : Except CallerError HostName := do
  let text ← textField "host" text maxHostBytes
  if name : isHostName text.val = true then .ok ⟨text, name⟩ else .error .notHostName

@[simp]
theorem hostName_val (host : HostName) : hostName host.text.val = .ok host := by
  obtain ⟨text, name⟩ := host
  simp [hostName, bind, Except.bind, name]

/-- Lower-case hex in groups of 8, 4, 4, 4 and 12 with the version and variant of a UUID v4. -/
def isSessionId (text : String) : Bool :=
  let chars := text.toList
  chars.length == baleySessionBytes &&
    (chars.zipIdx.all fun (c, index) =>
      if index = 8 ∨ index = 13 ∨ index = 18 ∨ index = 23 then c == '-'
      else c.isDigit || ('a' ≤ c && c ≤ 'f')) &&
    chars[14]? == some '4' &&
    (chars[19]? == some '8' || chars[19]? == some '9' || chars[19]? == some 'a' ||
      chars[19]? == some 'b')

structure SessionId where
  text : TextField baleySessionBytes
  uuid : isSessionId text.val = true

def sessionId (text : String) : Except CallerError SessionId := do
  let text ← textField "baley_session" text baleySessionBytes
  if uuid : isSessionId text.val = true then .ok ⟨text, uuid⟩ else .error .notSessionId

@[simp]
theorem sessionId_val (session : SessionId) : sessionId session.text.val = .ok session := by
  obtain ⟨text, uuid⟩ := session
  simp [sessionId, bind, Except.bind, uuid]

def hostSession (text : String) : Except CallerError (TextField maxHostSessionBytes) :=
  textField "host_session" text maxHostSessionBytes

def workOrder (text : String) : Except CallerError (TextField maxWorkOrderBytes) :=
  textField "work_order" text maxWorkOrderBytes

/-! ## Call identities -/

/-- Where a call identity came from. -/
inductive CallSource where
  | jsonRpcId
  | toolUseId
  deriving DecidableEq, Repr

namespace CallSource

def asStr : CallSource → String
  | .jsonRpcId => "jsonrpc_id"
  | .toolUseId => "tool_use_id"

def parse (text : String) : Option CallSource :=
  if text = "jsonrpc_id" then some .jsonRpcId
  else if text = "tool_use_id" then some .toolUseId
  else none

@[simp]
theorem parse_asStr (source : CallSource) : parse source.asStr = some source := by
  cases source <;> rfl

end CallSource

/-- An id written as JSON: an integer as its digits, a string as its canonical literal. -/
def jsonRpcText : Value → Except CallerError String
  | .number text =>
      match Value.readI64 text with
      | some integer => .ok integer.repr
      | none => .error .notJsonRpcId
  | .string string => .ok (String.ofList (writeString string))
  | _ => .error .notJsonRpcId

/-- The nesting the JSON parser follows before it gives up. -/
def recursionLimit : Nat := 128

/-- The id a call text names, if the text is exactly what is written for it. -/
def jsonRpcId (text : String) : Except CallerError Value := do
  let id ←
    if text.toList.head? = some '"' then
      match readDocument recursionLimit text with
      | some (.string string) => .ok (.string string)
      | _ => .error .notCanonicalJsonRpcId
    else
      match Value.readI64 text with
      | some integer => .ok (.number integer.repr)
      | none => .error .notCanonicalJsonRpcId
  match jsonRpcText id with
  | .ok written => if written = text then .ok id else .error .notCanonicalJsonRpcId
  | .error _ => .error .notCanonicalJsonRpcId

/-- Which call a caller made, from the source its form accepts; a JSON-RPC id is the text written for
some id. -/
structure CallIdentity (source : CallSource) where
  text : TextField maxCallIdentityBytes
  written : source = .jsonRpcId → ∃ id, jsonRpcText id = .ok text.val

def CallIdentity.jsonRpc (id : Value) : Except CallerError (CallIdentity .jsonRpcId) :=
  match written : jsonRpcText id with
  | .error error => .error error
  | .ok text =>
      match fits : textField "call_identity" text maxCallIdentityBytes with
      | .error error => .error error
      | .ok checked =>
          .ok ⟨checked, fun _ => ⟨id, by
            unfold textField at fits
            split_ifs at fits
            obtain rfl := Except.ok.inj fits
            exact written⟩⟩

def CallIdentity.toolUse (id : String) : Except CallerError (CallIdentity .toolUseId) := do
  let text ← textField "call_identity" id maxCallIdentityBytes
  .ok ⟨text, fun source_eq => by cases source_eq⟩

/-- The text of an id names an id with that text. -/
theorem jsonRpcId_text {id : Value} {text : String} (written : jsonRpcText id = .ok text) :
    ∃ id', jsonRpcId text = .ok id' ∧ jsonRpcText id' = .ok text := by
  cases id with
  | number source =>
      cases integer_eq : Value.readI64 source with
      | none => simp [jsonRpcText, integer_eq] at written
      | some integer =>
          simp only [jsonRpcText, integer_eq, Except.ok.injEq] at written
          subst written
          have fits : -9223372036854775808 ≤ integer ∧ integer < 9223372036854775808 := by
            rw [Value.readI64, Option.filter_eq_some_iff] at integer_eq
            simpa using integer_eq.2
          have not_quote : integer.repr.toList.head? ≠ some '"' := by
            obtain ⟨c, tail, text_eq, head⟩ := repr_int_eq_cons integer
            rw [text_eq]
            rintro quote_eq
            obtain rfl := Option.some.inj quote_eq
            rcases head with digit | minus
            · simp at digit
            · simp at minus
          refine ⟨.number integer.repr, ?_, ?_⟩
          · simp [jsonRpcId, not_quote, Value.readI64_repr fits, jsonRpcText, bind, Except.bind]
          · simp [jsonRpcText, Value.readI64_repr fits]
  | string string =>
      simp only [jsonRpcText, Except.ok.injEq] at written
      subst written
      have read_eq : readDocument recursionLimit (String.ofList (compact (.string string))) =
          some (canonicalForm (.string string)) :=
        readDocument_compact (.string string) (.string string)
          (by simp [Value.nesting, recursionLimit])
      simp only [compact, canonicalForm] at read_eq
      refine ⟨.string string, ?_, rfl⟩
      have quote : (writeString string).head? = some '"' := rfl
      simp [jsonRpcId, quote, read_eq, jsonRpcText, bind, Except.bind]
  | null => simp [jsonRpcText] at written
  | bool flag => simp [jsonRpcText] at written
  | array items => simp [jsonRpcText] at written
  | object members => simp [jsonRpcText] at written

@[simp]
theorem CallIdentity.toolUse_text (call : CallIdentity .toolUseId) :
    CallIdentity.toolUse call.text.val = .ok call := by
  simp [CallIdentity.toolUse, bind, Except.bind]

theorem CallIdentity.jsonRpc_ok {call : CallIdentity .jsonRpcId} {id : Value}
    (written : jsonRpcText id = .ok call.text.val) : CallIdentity.jsonRpc id = .ok call := by
  unfold CallIdentity.jsonRpc
  split
  · next error_eq => simp [written] at error_eq
  · next other other_eq =>
      obtain rfl : call.text.val = other := Except.ok.inj (written.symm.trans other_eq)
      split
      · next error_eq => simp at error_eq
      · next checked fits =>
          rw [textField_val] at fits
          obtain rfl := Except.ok.inj fits
          rfl

/-! ## The two forms -/

/-- One instruction a caller was working under. -/
structure InstructionEvidence where
  identity : TextField maxInstructionIdentityBytes
  version : TextField maxInstructionVersionBytes
  hash : TextField maxInstructionHashBytes

def InstructionEvidence.new (identity version hash : String) :
    Except CallerError InstructionEvidence := do
  let identity ← textField "instruction_identity" identity maxInstructionIdentityBytes
  let version ← textField "instruction_version" version maxInstructionVersionBytes
  let hash ← textField "instruction_hash" hash maxInstructionHashBytes
  .ok ⟨identity, version, hash⟩

/-- The fields both forms share. -/
structure Common (source : CallSource) where
  workingDirectory : Directory
  host : HostName
  call : CallIdentity source
  hostSession : Option (TextField maxHostSessionBytes) := none
  workOrder : Option (TextField maxWorkOrderBytes) := none
  instructions : List InstructionEvidence := []
  instructions_bound : instructions.length ≤ maxInstructions := by decide

theorem Common.noInstructions_bound : ([] : List InstructionEvidence).length ≤ maxInstructions := by
  decide

/-- A caller the server recorded for a request. -/
structure ServerCaller where
  projectDirectory : Directory
  baleySession : SessionId
  clientVersion : Option (TextField maxClientVersionBytes) := none
  common : Common .jsonRpcId

/-- A caller the guard hook recorded for a tool call; it has no Baley session. -/
structure HookCaller where
  projectDirectory : Option Directory := none
  common : Common .toolUseId

/-- The caller of a ledger event, in one of two forms. -/
inductive Caller where
  | server (server : ServerCaller)
  | hook (hook : HookCaller)

section Common

variable {source : CallSource}

def Common.withHostSession (common : Common source) (session : String) :
    Except CallerError (Common source) := do
  let session ← Baley.hostSession session
  .ok { common with hostSession := some session }

def Common.withWorkOrder (common : Common source) (order : String) :
    Except CallerError (Common source) := do
  let order ← Baley.workOrder order
  .ok { common with workOrder := some order }

def Common.setInstructions (common : Common source) (entries : List InstructionEvidence) :
    Except CallerError (Common source) :=
  if bound : entries.length ≤ maxInstructions then
    .ok { common with instructions := entries, instructions_bound := bound }
  else .error (.tooManyInstructions entries.length)

end Common

/-! ## Encoding -/

def InstructionEvidence.toValue (entry : InstructionEvidence) : Value :=
  .ofEntries
    [("identity", .string entry.identity.val), ("version", .string entry.version.val),
      ("hash", .string entry.hash.val)]

def CallIdentity.toValue {source : CallSource} (call : CallIdentity source) : Value :=
  .ofEntries [("text", .string call.text.val), ("source", .string source.asStr)]

/-- The keys both forms write. -/
def Common.entries {source : CallSource} (common : Common source) : List (String × Value) :=
  [("working_directory", .string common.workingDirectory.text.val),
    ("host", .string common.host.text.val), ("call", common.call.toValue)] ++
  Members.optional "host_session" (common.hostSession.map fun session => .string session.val) ++
  Members.optional "work_order" (common.workOrder.map fun order => .string order.val) ++
  Members.optional "instructions"
    (if common.instructions = [] then none
      else some (.array (common.instructions.map InstructionEvidence.toValue)))

def ServerCaller.entries (caller : ServerCaller) : List (String × Value) :=
  [("form", .string "server"), ("project_directory", .string caller.projectDirectory.text.val),
    ("baley_session", .string caller.baleySession.text.val)] ++
  Members.optional "client_version" (caller.clientVersion.map fun version => .string version.val) ++
  caller.common.entries

def HookCaller.entries (caller : HookCaller) : List (String × Value) :=
  [("form", .string "hook")] ++
  Members.optional "project_directory"
    (caller.projectDirectory.map fun path => .string path.text.val) ++
  caller.common.entries

/-- The one object that encodes a caller; an absent field has no key. -/
def Caller.toValue : Caller → Value
  | .server caller => .ofEntries caller.entries
  | .hook caller => .ofEntries caller.entries

/-! ## Decoding -/

def serverKeys : List String :=
  ["form", "project_directory", "working_directory", "host", "baley_session", "call",
    "client_version", "host_session", "work_order", "instructions"]

def hookKeys : List String :=
  ["form", "project_directory", "working_directory", "host", "call", "host_session", "work_order",
    "instructions"]

def callKeys : List String := ["text", "source"]

def instructionKeys : List String := ["identity", "version", "hash"]

def onlyKeys (place : String) (object : Members) (allowed : List String) :
    Except CallerError Unit :=
  match object.find? fun member => !allowed.contains member.1 with
  | some member => .error (.unknownKey place member.1)
  | none => .ok ()

/-- A present key's string; any other value is an error, never absence. -/
def optionalText (object : Members) (field : String) : Except CallerError (Option String) :=
  match Members.lookup field object with
  | none => .ok none
  | some (.string text) => .ok (some text)
  | some _ => .error (.notText field)

def requiredText (object : Members) (field : String) : Except CallerError String := do
  match ← optionalText object field with
  | some text => .ok text
  | none => .error (.missingField field)

/-- The call's text, once its source is the one the form accepts. -/
def decodeCall (object : Members) (expected : CallSource) : Except CallerError String := do
  let call ← match Members.lookup "call" object with
    | none => .error (.missingField "call")
    | some (.object call) => .ok call
    | some _ => .error (.notAnObject "call")
  onlyKeys "call" call callKeys
  let source ← requiredText call "source"
  match CallSource.parse source with
  | none => .error (.unknownSource source)
  | some found =>
      if found ≠ expected then .error .sourceMismatch
      else requiredText call "text"

def decodeInstruction (item : Value) : Except CallerError InstructionEvidence := do
  let entry ← match item with
    | .object entry => .ok entry
    | _ => .error (.notAnObject "instruction")
  onlyKeys "instruction" entry instructionKeys
  let identity ← requiredText entry "identity"
  let version ← requiredText entry "version"
  let hash ← requiredText entry "hash"
  InstructionEvidence.new identity version hash

def decodeInstructions (object : Members) :
    Except CallerError (Option (List InstructionEvidence)) := do
  match Members.lookup "instructions" object with
  | none => .ok none
  | some (.array items) =>
      if items = [] then .error .emptyInstructionList
      else if maxInstructions < items.length then .error (.tooManyInstructions items.length)
      else do
        let entries ← items.mapM decodeInstruction
        .ok (some entries)
  | some _ => .error .notAList

/-- The shared optional fields, in the order both forms read them. -/
def Common.decodeOptional {source : CallSource} (common : Common source) (object : Members) :
    Except CallerError (Common source) := do
  let common ← match ← optionalText object "host_session" with
    | some session => common.withHostSession session
    | none => .ok common
  let common ← match ← optionalText object "work_order" with
    | some order => common.withWorkOrder order
    | none => .ok common
  match ← decodeInstructions object with
  | some entries => common.setInstructions entries
  | none => .ok common

def Common.new {source : CallSource} (workingDirectory host : String) (call : CallIdentity source) :
    Except CallerError (Common source) := do
  let workingDirectory ← directory "working_directory" workingDirectory
  let host ← hostName host
  .ok { workingDirectory, host, call }

def decodeServer (object : Members) : Except CallerError ServerCaller := do
  onlyKeys "caller" object serverKeys
  let id ← decodeCall object .jsonRpcId
  let projectDirectory ← requiredText object "project_directory"
  let workingDirectory ← requiredText object "working_directory"
  let host ← requiredText object "host"
  let session ← requiredText object "baley_session"
  let id ← jsonRpcId id
  let call ← CallIdentity.jsonRpc id
  let common ← Common.new workingDirectory host call
  let projectDirectory ← directory "project_directory" projectDirectory
  let baleySession ← sessionId session
  let clientVersion ← match ← optionalText object "client_version" with
    | some version => (textField "client_version" version maxClientVersionBytes).map some
    | none => .ok none
  let common ← common.decodeOptional object
  .ok { projectDirectory, baleySession, clientVersion, common }

def decodeHook (object : Members) : Except CallerError HookCaller := do
  if (Members.lookup "baley_session" object).isSome then .error .hookHoldsSession
  else do
    onlyKeys "caller" object hookKeys
    let id ← decodeCall object .toolUseId
    let host ← requiredText object "host"
    let workingDirectory ← requiredText object "working_directory"
    let call ← CallIdentity.toolUse id
    let common ← Common.new workingDirectory host call
    let projectDirectory ← match ← optionalText object "project_directory" with
      | some path => (directory "project_directory" path).map some
      | none => .ok none
    let common ← common.decodeOptional object
    .ok { projectDirectory, common }

/-- The caller an encoded object holds. -/
def Caller.fromValue (value : Value) : Except CallerError Caller :=
  match value with
  | .object object =>
      match (Members.lookup "form" object).bind Value.asStr with
      | some "server" => (decodeServer object).map .server
      | some "hook" => (decodeHook object).map .hook
      | _ => .error .badForm
  | _ => .error (.notAnObject "caller")

/-! ## Round trip -/

theorem onlyKeys_ofEntries {entries : List (String × Value)} {allowed : List String}
    (entries_allowed : ∀ entry ∈ entries, entry.1 ∈ allowed) (place : String) :
    onlyKeys place (Members.ofEntries entries) allowed = .ok () := by
  unfold onlyKeys
  split
  · next member found =>
      have member_mem := Members.mem_ofEntries (List.mem_of_find?_eq_some found)
      have unknown := List.find?_some found
      simp [entries_allowed member member_mem] at unknown
  · rfl

theorem requiredText_of_lookup {object : Members} {field text : String}
    (found : Members.lookup field object = some (.string text)) :
    requiredText object field = .ok text := by
  simp [requiredText, optionalText, found, bind, Except.bind]

theorem optionalText_of_lookup {object : Members} {field : String} {text : Option String}
    (found : Members.lookup field object = text.map .string) :
    optionalText object field = .ok text := by
  cases text <;> simp_all [optionalText]

@[simp]
theorem decodeInstruction_toValue (entry : InstructionEvidence) :
    decodeInstruction entry.toValue = .ok entry := by
  have keys : onlyKeys "instruction" (Members.ofEntries
      [("identity", .string entry.identity.val), ("version", .string entry.version.val),
        ("hash", .string entry.hash.val)]) instructionKeys = .ok () :=
    onlyKeys_ofEntries (by simp [instructionKeys]) _
  simp [decodeInstruction, InstructionEvidence.toValue, Value.ofEntries, bind, Except.bind, keys,
    requiredText, optionalText, InstructionEvidence.new]

theorem mapM_decodeInstruction (entries : List InstructionEvidence) :
    (entries.map InstructionEvidence.toValue).mapM decodeInstruction = .ok entries := by
  induction entries with
  | nil => rfl
  | cons entry entries ih =>
      rw [List.map_cons, List.mapM_cons, decodeInstruction_toValue, ih]
      rfl

theorem decodeCall_toValue {source : CallSource} {object : Members} {call : CallIdentity source}
    (found : Members.lookup "call" object = some call.toValue) :
    decodeCall object source = .ok call.text.val := by
  have keys : onlyKeys "call" (Members.ofEntries
      [("text", .string call.text.val), ("source", .string source.asStr)]) callKeys = .ok () :=
    onlyKeys_ofEntries (by simp [callKeys]) _
  simp [decodeCall, found, CallIdentity.toValue, Value.ofEntries, bind, Except.bind, keys,
    requiredText, optionalText]

theorem decodeInstructions_entries {object : Members} {entries : List InstructionEvidence}
    (bound : entries.length ≤ maxInstructions)
    (found : Members.lookup "instructions" object =
      if entries = [] then none else some (.array (entries.map InstructionEvidence.toValue))) :
    decodeInstructions object = .ok (if entries = [] then none else some entries) := by
  by_cases empty : entries = []
  · simp [decodeInstructions, found, empty]
  · have decoded := mapM_decodeInstruction entries
    rw [decodeInstructions, found, if_neg empty]
    simp [-List.mapM_map, decoded, empty, Nat.not_lt.mpr bound, bind, Except.bind]

/-- The optional fields of an object that holds them are read back onto the required ones. -/
theorem Common.decodeOptional_eq {source : CallSource} (common : Common source) (object : Members)
    (session_found : Members.lookup "host_session" object =
      common.hostSession.map fun session => .string session.val)
    (order_found : Members.lookup "work_order" object =
      common.workOrder.map fun order => .string order.val)
    (instructions_found : Members.lookup "instructions" object =
      if common.instructions = [] then none
      else some (.array (common.instructions.map InstructionEvidence.toValue))) :
    Common.decodeOptional
        { workingDirectory := common.workingDirectory, host := common.host, call := common.call }
        object = .ok common := by
  obtain ⟨path, host, call, session, order, instructions, bound⟩ := common
  have entries_eq := decodeInstructions_entries bound instructions_found
  have session_eq : optionalText object "host_session" = .ok (session.map TextField.val) :=
    optionalText_of_lookup (by rw [Option.map_map]; exact session_found)
  have order_eq : optionalText object "work_order" = .ok (order.map TextField.val) :=
    optionalText_of_lookup (by rw [Option.map_map]; exact order_found)
  cases session <;> cases order <;> by_cases empty : instructions = [] <;>
    simp_all [Common.decodeOptional, Common.withHostSession, Common.withWorkOrder,
      Common.setInstructions, Baley.hostSession, Baley.workOrder, bind, Except.bind]

theorem mem_keys_of_mem_entries {source : CallSource} {common : Common source}
    {entry : String × Value} (entry_mem : entry ∈ common.entries) :
    entry.1 ∈ ["working_directory", "host", "call", "host_session", "work_order",
      "instructions"] := by
  simp only [Common.entries, List.mem_append, Members.mem_optional, List.mem_cons,
    List.not_mem_nil, or_false] at entry_mem
  rcases entry_mem with ((((rfl | rfl | rfl) | ⟨key_eq, _⟩) | ⟨key_eq, _⟩) | ⟨key_eq, _⟩) <;>
    simp_all

theorem onlyKeys_server (caller : ServerCaller) :
    onlyKeys "caller" (Members.ofEntries caller.entries) serverKeys = .ok () := by
  refine onlyKeys_ofEntries (fun entry entry_mem => ?_) _
  simp only [ServerCaller.entries, List.mem_append, Members.mem_optional] at entry_mem
  rcases entry_mem with (entry_mem | ⟨key_eq, _⟩) | entry_mem
  · simp only [List.mem_cons, List.not_mem_nil, or_false] at entry_mem
    rcases entry_mem with rfl | rfl | rfl <;> simp [serverKeys]
  · simp [key_eq, serverKeys]
  · have key_mem := mem_keys_of_mem_entries entry_mem
    simp only [serverKeys, List.mem_cons, List.not_mem_nil, or_false] at key_mem ⊢
    tauto

theorem onlyKeys_hook (caller : HookCaller) :
    onlyKeys "caller" (Members.ofEntries caller.entries) hookKeys = .ok () := by
  refine onlyKeys_ofEntries (fun entry entry_mem => ?_) _
  simp only [HookCaller.entries, List.mem_append, Members.mem_optional] at entry_mem
  rcases entry_mem with (entry_mem | ⟨key_eq, _⟩) | entry_mem
  · simp only [List.mem_cons, List.not_mem_nil, or_false] at entry_mem
    simp [entry_mem, hookKeys]
  · simp [key_eq, hookKeys]
  · have key_mem := mem_keys_of_mem_entries entry_mem
    simp only [hookKeys, List.mem_cons, List.not_mem_nil, or_false] at key_mem ⊢
    tauto

theorem decodeServer_entries (caller : ServerCaller) :
    decodeServer (Members.ofEntries caller.entries) = .ok caller := by
  have keys := onlyKeys_server caller
  have call_eq : decodeCall (Members.ofEntries caller.entries) .jsonRpcId =
      .ok caller.common.call.text.val :=
    decodeCall_toValue (by
      simp [ServerCaller.entries, Common.entries])
  have optional_eq := caller.common.decodeOptional_eq (Members.ofEntries caller.entries)
    (by simp [ServerCaller.entries, Common.entries])
    (by simp [ServerCaller.entries, Common.entries])
    (by simp [ServerCaller.entries, Common.entries])
  have path_eq : requiredText (Members.ofEntries caller.entries) "project_directory" =
      .ok caller.projectDirectory.text.val :=
    requiredText_of_lookup (by
      simp [ServerCaller.entries, Common.entries])
  have working_eq : requiredText (Members.ofEntries caller.entries) "working_directory" =
      .ok caller.common.workingDirectory.text.val :=
    requiredText_of_lookup (by
      simp [ServerCaller.entries, Common.entries])
  have host_eq : requiredText (Members.ofEntries caller.entries) "host" =
      .ok caller.common.host.text.val :=
    requiredText_of_lookup (by
      simp [ServerCaller.entries, Common.entries])
  have session_eq : requiredText (Members.ofEntries caller.entries) "baley_session" =
      .ok caller.baleySession.text.val :=
    requiredText_of_lookup (by
      simp [ServerCaller.entries, Common.entries])
  have version_eq : optionalText (Members.ofEntries caller.entries) "client_version" =
      .ok (caller.clientVersion.map TextField.val) :=
    optionalText_of_lookup (by
      simp [ServerCaller.entries, Common.entries,
        Function.comp_def])
  obtain ⟨id, id_eq, written⟩ := jsonRpcId_text (caller.common.call.written rfl).choose_spec
  have rpc_eq := CallIdentity.jsonRpc_ok written
  obtain ⟨path, session, version, common⟩ := caller
  cases version <;>
    simp_all [decodeServer, Common.new, bind, Except.bind, Except.map]

theorem decodeHook_entries (caller : HookCaller) :
    decodeHook (Members.ofEntries caller.entries) = .ok caller := by
  have keys := onlyKeys_hook caller
  have no_session : Members.lookup "baley_session" (Members.ofEntries caller.entries) = none := by
    simp [HookCaller.entries, Common.entries]
  have call_eq : decodeCall (Members.ofEntries caller.entries) .toolUseId =
      .ok caller.common.call.text.val :=
    decodeCall_toValue (by
      simp [HookCaller.entries, Common.entries])
  have optional_eq := caller.common.decodeOptional_eq (Members.ofEntries caller.entries)
    (by simp [HookCaller.entries, Common.entries])
    (by simp [HookCaller.entries, Common.entries])
    (by simp [HookCaller.entries, Common.entries])
  have working_eq : requiredText (Members.ofEntries caller.entries) "working_directory" =
      .ok caller.common.workingDirectory.text.val :=
    requiredText_of_lookup (by
      simp [HookCaller.entries, Common.entries])
  have host_eq : requiredText (Members.ofEntries caller.entries) "host" =
      .ok caller.common.host.text.val :=
    requiredText_of_lookup (by
      simp [HookCaller.entries, Common.entries])
  have path_eq : optionalText (Members.ofEntries caller.entries) "project_directory" =
      .ok (caller.projectDirectory.map fun path => path.text.val) :=
    optionalText_of_lookup (by
      simp [HookCaller.entries, Common.entries,
        Function.comp_def])
  obtain ⟨path, common⟩ := caller
  cases path <;>
    simp_all [decodeHook, Common.new, bind, Except.bind, Except.map]

/-- The decoder gives back the caller an object was written from. -/
theorem Caller.fromValue_toValue (caller : Caller) : Caller.fromValue caller.toValue = .ok caller := by
  cases caller with
  | server caller =>
      have form_eq : Members.lookup "form" (Members.ofEntries caller.entries) =
          some (.string "server") := by
        simp [ServerCaller.entries, Common.entries]
      simp [Caller.fromValue, Caller.toValue, Value.ofEntries, form_eq, decodeServer_entries,
        Except.map, -Members.lookup_ofEntries]
  | hook caller =>
      have form_eq : Members.lookup "form" (Members.ofEntries caller.entries) =
          some (.string "hook") := by
        simp [HookCaller.entries, Common.entries]
      simp [Caller.fromValue, Caller.toValue, Value.ofEntries, form_eq, decodeHook_entries,
        Except.map, -Members.lookup_ofEntries]

theorem Caller.toValue_injective : Function.Injective Caller.toValue := by
  intro first second value_eq
  have read_eq := congrArg Caller.fromValue value_eq
  rw [Caller.fromValue_toValue, Caller.fromValue_toValue] at read_eq
  exact Except.ok.inj read_eq

/-! ## The encoded object -/

/-- An entry of the encoded object holds no number, is well formed and nests at most `bound`. -/
def PlainEntry (bound : Nat) (entry : String × Value) : Prop :=
  NumberFree entry.2 ∧ entry.2.WellFormed ∧ entry.2.nesting ≤ bound

theorem plainEntry_string (bound : Nat) (key text : String) :
    PlainEntry bound (key, .string text) :=
  ⟨.string text, .string text, Nat.zero_le _⟩

theorem plainEntry_ofEntries {entries : List (String × Value)} {bound : Nat}
    (plain : ∀ entry ∈ entries, PlainEntry bound entry) (key : String) :
    PlainEntry (bound + 1) (key, .ofEntries entries) :=
  ⟨.ofEntries fun entry entry_mem => (plain entry entry_mem).1,
    Value.wellFormed_ofEntries fun entry entry_mem => (plain entry entry_mem).2.1,
    Value.nesting_ofEntries_le fun entry entry_mem => (plain entry entry_mem).2.2⟩

theorem InstructionEvidence.plainEntry (entry : InstructionEvidence) (key : String) :
    PlainEntry 1 (key, entry.toValue) := by
  refine plainEntry_ofEntries (fun field field_mem => ?_) key
  simp only [List.mem_cons, List.not_mem_nil, or_false] at field_mem
  rcases field_mem with rfl | rfl | rfl <;> exact plainEntry_string _ _ _

theorem CallIdentity.plainEntry {source : CallSource} (call : CallIdentity source) (key : String) :
    PlainEntry 2 (key, call.toValue) := by
  refine plainEntry_ofEntries (fun field field_mem => ?_) key
  simp only [List.mem_cons, List.not_mem_nil, or_false] at field_mem
  rcases field_mem with rfl | rfl <;> exact plainEntry_string _ _ _

theorem plainEntry_instructions (entries : List InstructionEvidence) (key : String) :
    PlainEntry 2 (key, .array (entries.map InstructionEvidence.toValue)) := by
  refine ⟨.array fun item item_mem => ?_, .array fun item item_mem => ?_, ?_⟩
  · obtain ⟨entry, _, rfl⟩ := List.mem_map.mp item_mem
    exact (entry.plainEntry "").1
  · obtain ⟨entry, _, rfl⟩ := List.mem_map.mp item_mem
    exact (entry.plainEntry "").2.1
  · rw [Value.nesting, Nat.add_le_add_iff_right, Value.nestingItems_le_iff]
    intro item item_mem
    obtain ⟨entry, _, rfl⟩ := List.mem_map.mp item_mem
    exact (entry.plainEntry "").2.2

theorem plainEntry_optional {bound : Nat} {key : String} {α : Type} {text : α → String}
    {field : Option α} {entry : String × Value}
    (entry_mem : entry ∈ Members.optional key (field.map fun field => .string (text field))) :
    PlainEntry bound entry := by
  cases field with
  | none => simp [Members.optional] at entry_mem
  | some field =>
      simp only [Members.optional, Option.map_some, Option.toList_some, List.mem_singleton] at entry_mem
      subst entry_mem
      exact plainEntry_string _ _ _

theorem Common.plainEntry {source : CallSource} {common : Common source} {entry : String × Value}
    (entry_mem : entry ∈ common.entries) : PlainEntry 2 entry := by
  simp only [Common.entries, List.mem_append] at entry_mem
  rcases entry_mem with ((entry_mem | entry_mem) | entry_mem) | entry_mem
  · simp only [List.mem_cons, List.not_mem_nil, or_false] at entry_mem
    rcases entry_mem with rfl | rfl | rfl
    · exact plainEntry_string _ _ _
    · exact plainEntry_string _ _ _
    · exact common.call.plainEntry _
  · exact plainEntry_optional entry_mem
  · exact plainEntry_optional entry_mem
  · rw [Members.mem_optional] at entry_mem
    obtain ⟨_, value_eq⟩ := entry_mem
    split_ifs at value_eq
    obtain ⟨key, value⟩ := entry
    obtain rfl := Option.some.inj value_eq
    exact plainEntry_instructions _ _

/-- An encoded caller holds no number and nests at most three deep. -/
theorem Caller.plainEntry (caller : Caller) (key : String) :
    PlainEntry 3 (key, caller.toValue) := by
  cases caller with
  | server caller =>
      refine plainEntry_ofEntries (fun entry entry_mem => ?_) key
      simp only [ServerCaller.entries, List.mem_append] at entry_mem
      rcases entry_mem with (entry_mem | entry_mem) | entry_mem
      · simp only [List.mem_cons, List.not_mem_nil, or_false] at entry_mem
        rcases entry_mem with rfl | rfl | rfl <;> exact plainEntry_string _ _ _
      · exact plainEntry_optional entry_mem
      · exact caller.common.plainEntry entry_mem
  | hook caller =>
      refine plainEntry_ofEntries (fun entry entry_mem => ?_) key
      simp only [HookCaller.entries, List.mem_append] at entry_mem
      rcases entry_mem with (entry_mem | entry_mem) | entry_mem
      · simp only [List.mem_cons, List.not_mem_nil, or_false] at entry_mem
        rw [entry_mem]
        exact plainEntry_string _ _ _
      · exact plainEntry_optional entry_mem
      · exact caller.common.plainEntry entry_mem

end Baley
