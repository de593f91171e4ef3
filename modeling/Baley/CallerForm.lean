import Baley.Attempt
import Baley.Caller
import Baley.Json.Alike

/-!
# The exact form of an encoded caller

The decoder accepts nothing but what the encoder writes.  Each check of the decoder is inverted to
what it has established of the object it read, and an object whose keys are the encoder's and whose
values are the encoder's is the encoded one.
-/

namespace Baley

open Json

/-! ## Inverting the checks -/

theorem textField_eq_ok {field text : String} {limit : Nat} {checked : TextField limit}
    (accepts : textField field text limit = .ok checked) : checked.val = text := by
  unfold textField at accepts
  split_ifs at accepts
  obtain rfl := Except.ok.inj accepts
  rfl

theorem directory_eq_ok {field text : String} {path : Directory}
    (accepts : directory field text = .ok path) : path.text.val = text := by
  obtain ⟨checked, text_ok, rest⟩ := Except.bind_eq_ok.mp accepts
  split_ifs at rest
  obtain rfl := Except.ok.inj rest
  exact textField_eq_ok text_ok

theorem hostName_eq_ok {text : String} {host : HostName} (accepts : hostName text = .ok host) :
    host.text.val = text := by
  obtain ⟨checked, text_ok, rest⟩ := Except.bind_eq_ok.mp accepts
  split_ifs at rest
  obtain rfl := Except.ok.inj rest
  exact textField_eq_ok text_ok

theorem sessionId_eq_ok {text : String} {session : SessionId}
    (accepts : sessionId text = .ok session) : session.text.val = text := by
  obtain ⟨checked, text_ok, rest⟩ := Except.bind_eq_ok.mp accepts
  split_ifs at rest
  obtain rfl := Except.ok.inj rest
  exact textField_eq_ok text_ok

theorem CallSource.eq_of_parse {text : String} {source : CallSource}
    (parsed : CallSource.parse text = some source) : text = source.asStr := by
  unfold CallSource.parse at parsed
  split_ifs at parsed with rpc tool
  · obtain rfl := Option.some.inj parsed
    exact rpc
  · obtain rfl := Option.some.inj parsed
    exact tool

/-- A text that names an id is the text written for it. -/
theorem jsonRpcId_eq_ok {text : String} {id : Value} (accepts : jsonRpcId text = .ok id) :
    jsonRpcText id = .ok text := by
  unfold jsonRpcId at accepts
  split_ifs at accepts with quoted
  · split at accepts
    · next string _ =>
        obtain ⟨named, named_ok, rest⟩ := Except.bind_eq_ok.mp accepts
        obtain rfl := Except.ok.inj named_ok
        simp only [jsonRpcText] at rest
        split_ifs at rest with same
        obtain rfl := Except.ok.inj rest
        exact congrArg Except.ok same
    · cases accepts
  · cases integer_eq : Value.readI64 text with
    | none =>
        rw [integer_eq] at accepts
        cases accepts
    | some integer =>
        have fits : -9223372036854775808 ≤ integer ∧ integer < 9223372036854775808 := by
          rw [Value.readI64, Option.filter_eq_some_iff] at integer_eq
          simpa using integer_eq.2
        rw [integer_eq] at accepts
        obtain ⟨named, named_ok, rest⟩ := Except.bind_eq_ok.mp accepts
        obtain rfl := Except.ok.inj named_ok
        simp only [jsonRpcText, Value.readI64_repr fits] at rest
        split_ifs at rest with same
        obtain rfl := Except.ok.inj rest
        simp only [jsonRpcText, same, integer_eq]

theorem CallIdentity.jsonRpc_eq_ok {id : Value} {call : CallIdentity .jsonRpcId}
    (accepts : CallIdentity.jsonRpc id = .ok call) : jsonRpcText id = .ok call.text.val := by
  unfold CallIdentity.jsonRpc at accepts
  split at accepts
  · cases accepts
  · next text written =>
      split at accepts
      · cases accepts
      · next checked fits =>
          obtain rfl := Except.ok.inj accepts
          exact written.trans (congrArg Except.ok (textField_eq_ok fits).symm)

theorem CallIdentity.toolUse_eq_ok {id : String} {call : CallIdentity .toolUseId}
    (accepts : CallIdentity.toolUse id = .ok call) : call.text.val = id := by
  obtain ⟨checked, text_ok, rest⟩ := Except.bind_eq_ok.mp accepts
  obtain rfl := Except.ok.inj rest
  exact textField_eq_ok text_ok

theorem InstructionEvidence.new_eq_ok {identity version hash : String}
    {entry : InstructionEvidence}
    (accepts : InstructionEvidence.new identity version hash = .ok entry) :
    entry.identity.val = identity ∧ entry.version.val = version ∧ entry.hash.val = hash := by
  obtain ⟨first, first_ok, rest⟩ := Except.bind_eq_ok.mp accepts
  obtain ⟨second, second_ok, rest⟩ := Except.bind_eq_ok.mp rest
  obtain ⟨third, third_ok, rest⟩ := Except.bind_eq_ok.mp rest
  obtain rfl := Except.ok.inj rest
  exact ⟨textField_eq_ok first_ok, textField_eq_ok second_ok, textField_eq_ok third_ok⟩

/-! ## Inverting the lookups -/

section Lookups

variable {object : Members} {field : String}

theorem optionalText_eq_ok {text : Option String} (reads : optionalText object field = .ok text) :
    Members.lookup field object = text.map .string := by
  unfold optionalText at reads
  split at reads
  · next missing =>
      obtain rfl := Except.ok.inj reads
      exact missing
  · next held found =>
      obtain rfl := Except.ok.inj reads
      exact found
  · cases reads

theorem requiredText_eq_ok {text : String} (reads : requiredText object field = .ok text) :
    Members.lookup field object = some (.string text) := by
  obtain ⟨held, held_ok, rest⟩ := Except.bind_eq_ok.mp reads
  cases held with
  | none => cases rest
  | some held =>
      obtain rfl := Except.ok.inj rest
      exact optionalText_eq_ok held_ok

theorem onlyKeys_eq_ok {place : String} {allowed : List String} {done : Unit}
    (checks : onlyKeys place object allowed = .ok done) (outside : field ∉ allowed) :
    Members.lookup field object = none := by
  rw [Option.eq_none_iff_forall_ne_some]
  intro value found
  have unknown : ((field, value) : String × Value) ∈ object := Members.mem_of_lookup found
  unfold onlyKeys at checks
  cases first_eq : object.find? fun member => !allowed.contains member.1 with
  | some member =>
      rw [first_eq] at checks
      cases checks
  | none =>
      have known := List.find?_eq_none.mp first_eq _ unknown
      simp [outside] at known

/-- A map with no other keys than the entries', holding the entries' values under them, is the map
of the entries. -/
theorem eq_ofEntries_of_lookup {entries : List (String × Value)} {place : String}
    {allowed : List String} {done : Unit} (sorted : Members.Sorted object)
    (checks : onlyKeys place object allowed = .ok done)
    (written : onlyKeys place (Members.ofEntries entries) allowed = .ok ())
    (same : ∀ key ∈ allowed, Members.lookup key object = Members.lookup key entries.reverse) :
    object = Members.ofEntries entries := by
  refine sorted.ext (Members.sorted_ofEntries entries) fun key => ?_
  by_cases inside : key ∈ allowed
  · rw [same key inside, Members.lookup_ofEntries]
  · rw [onlyKeys_eq_ok checks inside, onlyKeys_eq_ok written inside]

end Lookups

/-! ## Inverting the decoders -/

theorem decodeInstruction_eq_ok {item : Value} (wellFormed : item.WellFormed)
    {entry : InstructionEvidence} (decodes : decodeInstruction item = .ok entry) :
    item = entry.toValue := by
  cases item with
  | object members =>
      obtain ⟨object, object_ok, rest⟩ := Except.bind_eq_ok.mp decodes
      obtain rfl := Except.ok.inj object_ok
      obtain ⟨_, keys_ok, rest⟩ := Except.bind_eq_ok.mp rest
      obtain ⟨identity, identity_ok, rest⟩ := Except.bind_eq_ok.mp rest
      obtain ⟨version, version_ok, rest⟩ := Except.bind_eq_ok.mp rest
      obtain ⟨hash, hash_ok, rest⟩ := Except.bind_eq_ok.mp rest
      obtain ⟨rfl, rfl, rfl⟩ := InstructionEvidence.new_eq_ok rest
      cases wellFormed with
      | object sorted _ =>
          refine congrArg Value.object (eq_ofEntries_of_lookup sorted keys_ok ?_ ?_)
          · exact onlyKeys_ofEntries (by simp [instructionKeys]) _
          · intro key key_mem
            simp only [instructionKeys, List.mem_cons, List.not_mem_nil, or_false] at key_mem
            rcases key_mem with rfl | rfl | rfl
            · simp [requiredText_eq_ok identity_ok]
            · simp [requiredText_eq_ok version_ok]
            · simp [requiredText_eq_ok hash_ok]
  | null | bool | number | string | array => cases decodes

theorem mapM_decodeInstruction_eq_ok {items : List Value}
    (wellFormed : ∀ item ∈ items, item.WellFormed) {entries : List InstructionEvidence}
    (decodes : items.mapM decodeInstruction = .ok entries) :
    items = entries.map InstructionEvidence.toValue := by
  induction items generalizing entries with
  | nil =>
      obtain rfl := Except.ok.inj decodes
      rfl
  | cons item items ih =>
      rw [List.mapM_cons] at decodes
      obtain ⟨entry, entry_ok, rest⟩ := Except.bind_eq_ok.mp decodes
      obtain ⟨others, others_ok, rest⟩ := Except.bind_eq_ok.mp rest
      obtain rfl := Except.ok.inj rest
      rw [decodeInstruction_eq_ok (wellFormed item List.mem_cons_self) entry_ok,
        ih (fun other other_mem => wellFormed other (List.mem_cons_of_mem _ other_mem)) others_ok,
        List.map_cons]

theorem decodeInstructions_eq_ok {object : Members}
    (wellFormed : (Value.object object).WellFormed) {entries : Option (List InstructionEvidence)}
    (decodes : decodeInstructions object = .ok entries) :
    Members.lookup "instructions" object =
        entries.map (fun entries => .array (entries.map InstructionEvidence.toValue)) ∧
      ∀ list, entries = some list → list ≠ [] := by
  unfold decodeInstructions at decodes
  split at decodes
  · next missing =>
      obtain rfl := Except.ok.inj decodes
      exact ⟨missing, by simp⟩
  · next items found =>
      split_ifs at decodes with empty long
      obtain ⟨list, list_ok, rest⟩ := Except.bind_eq_ok.mp decodes
      obtain rfl := Except.ok.inj rest
      have items_wellFormed : ∀ item ∈ items, item.WellFormed := by
        cases wellFormed with
        | object _ members_wellFormed =>
            exact Value.wellFormed_array_iff.mp
              (members_wellFormed _ (Members.mem_of_lookup found))
      have items_eq := mapM_decodeInstruction_eq_ok items_wellFormed list_ok
      refine ⟨by rw [found, items_eq, Option.map_some], ?_⟩
      rintro _ ⟨⟩ list_empty
      rw [items_eq, list_empty] at empty
      exact empty rfl
  · cases decodes

theorem decodeCall_eq_ok {object : Members} (wellFormed : (Value.object object).WellFormed)
    {source : CallSource} {text : String} (decodes : decodeCall object source = .ok text) :
    Members.lookup "call" object =
      some (.ofEntries [("text", .string text), ("source", .string source.asStr)]) := by
  unfold decodeCall at decodes
  split at decodes
  · cases decodes
  · next held found =>
      obtain ⟨call, call_ok, rest⟩ := Except.bind_eq_ok.mp decodes
      obtain rfl := Except.ok.inj call_ok
      obtain ⟨_, keys_ok, rest⟩ := Except.bind_eq_ok.mp rest
      obtain ⟨named, named_ok, rest⟩ := Except.bind_eq_ok.mp rest
      cases parsed : CallSource.parse named with
      | none =>
          rw [parsed] at rest
          cases rest
      | some origin =>
          simp only [parsed] at rest
          split_ifs at rest with differs
          have text_ok : requiredText held "text" = .ok text := rest
          obtain rfl := not_not.mp differs
          rw [CallSource.eq_of_parse parsed] at named_ok
          have held_sorted : Members.Sorted held := by
            cases wellFormed with
            | object _ members_wellFormed =>
                cases members_wellFormed _ (Members.mem_of_lookup found) with
                | object sorted _ => exact sorted
          rw [found]
          refine congrArg (fun members => some (Value.object members))
            (eq_ofEntries_of_lookup held_sorted keys_ok ?_ ?_)
          · exact onlyKeys_ofEntries (by simp [callKeys]) _
          · intro key key_mem
            simp only [callKeys, List.mem_cons, List.not_mem_nil, or_false] at key_mem
            rcases key_mem with rfl | rfl
            · simp [requiredText_eq_ok text_ok]
            · simp [requiredText_eq_ok named_ok]
  · cases decodes

/-- What reading the shared optional fields onto the required ones has found. -/
structure Common.Reads {source : CallSource} (common read : Common source) (object : Members) :
    Prop where
  directory_eq : read.workingDirectory = common.workingDirectory
  host_eq : read.host = common.host
  call_eq : read.call = common.call
  session_found : Members.lookup "host_session" object =
    read.hostSession.map fun session => .string session.val
  order_found : Members.lookup "work_order" object =
    read.workOrder.map fun order => .string order.val
  instructions_found : Members.lookup "instructions" object =
    if read.instructions = [] then none
    else some (.array (read.instructions.map InstructionEvidence.toValue))

theorem Common.new_eq_ok {source : CallSource} {workingDirectory host : String}
    {call : CallIdentity source} {common : Common source}
    (builds : Common.new workingDirectory host call = .ok common) :
    common.workingDirectory.text.val = workingDirectory ∧ common.host.text.val = host ∧
      common.call = call ∧ common.hostSession = none ∧ common.workOrder = none ∧
      common.instructions = [] := by
  obtain ⟨path, path_ok, rest⟩ := Except.bind_eq_ok.mp builds
  obtain ⟨name, name_ok, rest⟩ := Except.bind_eq_ok.mp rest
  obtain rfl := Except.ok.inj rest
  exact ⟨directory_eq_ok path_ok, hostName_eq_ok name_ok, rfl, rfl, rfl, rfl⟩

/-- The optional fields are read one after another, each onto what was read before. -/
theorem Common.decodeOptional_steps {source : CallSource} (common : Common source)
    (object : Members) :
    common.decodeOptional object =
      optionalText object "host_session" >>= fun session =>
        session.elim (.ok common) common.withHostSession >>= fun common =>
          optionalText object "work_order" >>= fun order =>
            order.elim (.ok common) common.withWorkOrder >>= fun common =>
              decodeInstructions object >>= fun entries =>
                entries.elim (.ok common) common.setInstructions := by
  unfold Common.decodeOptional
  refine bind_congr fun session => ?_
  cases session with
  | none =>
      refine bind_congr fun common => bind_congr fun order => ?_
      cases order with
      | none => exact bind_congr fun common => bind_congr fun entries => by cases entries <;> rfl
      | some order =>
          exact bind_congr fun common => bind_congr fun entries => by cases entries <;> rfl
  | some session =>
      refine bind_congr fun common => bind_congr fun order => ?_
      cases order with
      | none => exact bind_congr fun common => bind_congr fun entries => by cases entries <;> rfl
      | some order =>
          exact bind_congr fun common => bind_congr fun entries => by cases entries <;> rfl

theorem Common.decodeOptional_eq_ok {source : CallSource} {common read : Common source}
    {object : Members} (wellFormed : (Value.object object).WellFormed)
    (no_session : common.hostSession = none) (no_order : common.workOrder = none)
    (no_instructions : common.instructions = [])
    (decodes : common.decodeOptional object = .ok read) : common.Reads read object := by
  rw [Common.decodeOptional_steps] at decodes
  obtain ⟨session, session_ok, rest⟩ := Except.bind_eq_ok.mp decodes
  obtain ⟨first, first_ok, rest⟩ := Except.bind_eq_ok.mp rest
  obtain ⟨order, order_ok, rest⟩ := Except.bind_eq_ok.mp rest
  obtain ⟨second, second_ok, rest⟩ := Except.bind_eq_ok.mp rest
  obtain ⟨entries, entries_ok, rest⟩ := Except.bind_eq_ok.mp rest
  obtain ⟨entries_found, entries_ne⟩ := decodeInstructions_eq_ok wellFormed entries_ok
  have first_eq : ∃ kept, first = { common with hostSession := kept } ∧
      session = kept.map TextField.val := by
    cases session with
    | none =>
        obtain rfl := Except.ok.inj first_ok
        exact ⟨none, by rw [← no_session], rfl⟩
    | some session =>
        obtain ⟨checked, checked_ok, rest⟩ := Except.bind_eq_ok.mp first_ok
        obtain rfl := Except.ok.inj rest
        exact ⟨some checked, rfl, congrArg some (textField_eq_ok checked_ok).symm⟩
  obtain ⟨kept, rfl, rfl⟩ := first_eq
  have second_eq : ∃ held, second = { common with hostSession := kept, workOrder := held } ∧
      order = held.map TextField.val := by
    cases order with
    | none =>
        obtain rfl := Except.ok.inj second_ok
        exact ⟨none, by rw [← no_order], rfl⟩
    | some order =>
        obtain ⟨checked, checked_ok, rest⟩ := Except.bind_eq_ok.mp second_ok
        obtain rfl := Except.ok.inj rest
        exact ⟨some checked, rfl, congrArg some (textField_eq_ok checked_ok).symm⟩
  obtain ⟨held, rfl, rfl⟩ := second_eq
  have session_found := optionalText_eq_ok session_ok
  have order_found := optionalText_eq_ok order_ok
  rw [Option.map_map] at session_found order_found
  cases entries with
  | none =>
      obtain rfl := Except.ok.inj rest
      exact ⟨rfl, rfl, rfl, session_found, order_found, by simp [entries_found, no_instructions]⟩
  | some entries =>
      rw [Option.elim_some, Common.setInstructions] at rest
      split_ifs at rest with bound
      obtain rfl := Except.ok.inj rest
      refine ⟨rfl, rfl, rfl, session_found, order_found, ?_⟩
      rw [entries_found, if_neg (entries_ne entries rfl)]
      rfl

/-- Only the object a server caller is written as decodes to it. -/
theorem decodeServer_eq_ok {object : Members} (wellFormed : (Value.object object).WellFormed)
    (form_found : Members.lookup "form" object = some (.string "server"))
    {caller : ServerCaller} (decodes : decodeServer object = .ok caller) :
    object = Members.ofEntries caller.entries := by
  obtain ⟨_, keys_ok, rest⟩ := Except.bind_eq_ok.mp decodes
  obtain ⟨text, call_ok, rest⟩ := Except.bind_eq_ok.mp rest
  obtain ⟨path, path_found, rest⟩ := Except.bind_eq_ok.mp rest
  obtain ⟨working, working_found, rest⟩ := Except.bind_eq_ok.mp rest
  obtain ⟨host, host_found, rest⟩ := Except.bind_eq_ok.mp rest
  obtain ⟨session, session_found, rest⟩ := Except.bind_eq_ok.mp rest
  obtain ⟨id, id_ok, rest⟩ := Except.bind_eq_ok.mp rest
  obtain ⟨call, identity_ok, rest⟩ := Except.bind_eq_ok.mp rest
  obtain ⟨common, common_ok, rest⟩ := Except.bind_eq_ok.mp rest
  obtain ⟨projectDirectory, path_ok, rest⟩ := Except.bind_eq_ok.mp rest
  obtain ⟨baleySession, session_ok, rest⟩ := Except.bind_eq_ok.mp rest
  obtain ⟨version, version_found, rest⟩ := Except.bind_eq_ok.mp rest
  obtain ⟨clientVersion, version_eq, rest⟩ :
      ∃ clientVersion : Option (TextField maxClientVersionBytes),
        version = clientVersion.map TextField.val ∧
          (common.decodeOptional object >>= fun common =>
            .ok { projectDirectory, baleySession, clientVersion, common }) = .ok caller := by
    cases version with
    | none => exact ⟨none, rfl, rest⟩
    | some version =>
        obtain ⟨clientVersion, version_ok, rest⟩ := Except.bind_eq_ok.mp rest
        obtain ⟨checked, checked_ok, rfl⟩ := Except.map_eq_ok.mp version_ok
        exact ⟨some checked, congrArg some (textField_eq_ok checked_ok).symm, rest⟩
  obtain ⟨read, read_ok, rest⟩ := Except.bind_eq_ok.mp rest
  obtain rfl := Except.ok.inj rest
  obtain ⟨rfl, rfl, rfl, no_session, no_order, no_instructions⟩ := Common.new_eq_ok common_ok
  have reads := Common.decodeOptional_eq_ok wellFormed no_session no_order no_instructions read_ok
  have call_found := decodeCall_eq_ok wellFormed call_ok
  have text_eq : common.call.text.val = text :=
    Except.ok.inj ((CallIdentity.jsonRpc_eq_ok identity_ok).symm.trans (jsonRpcId_eq_ok id_ok))
  cases wellFormed with
  | object sorted _ =>
      refine eq_ofEntries_of_lookup sorted keys_ok (onlyKeys_server _) fun key key_mem => ?_
      simp only [serverKeys, List.mem_cons, List.not_mem_nil, or_false] at key_mem
      rcases key_mem with rfl | rfl | rfl | rfl | rfl | rfl | rfl | rfl | rfl | rfl
      · simp [ServerCaller.entries, Common.entries, form_found]
      · simp [ServerCaller.entries, Common.entries, requiredText_eq_ok path_found,
          directory_eq_ok path_ok]
      · simp [ServerCaller.entries, Common.entries, requiredText_eq_ok working_found,
          reads.directory_eq]
      · simp [ServerCaller.entries, Common.entries, requiredText_eq_ok host_found, reads.host_eq]
      · simp [ServerCaller.entries, Common.entries, requiredText_eq_ok session_found,
          sessionId_eq_ok session_ok]
      · simp [ServerCaller.entries, Common.entries, call_found,
          reads.call_eq, CallIdentity.toValue, text_eq]
      · simp [ServerCaller.entries, Common.entries, optionalText_eq_ok version_found, version_eq,
          Function.comp_def]
      · simp [ServerCaller.entries, Common.entries, reads.session_found]
      · simp [ServerCaller.entries, Common.entries, reads.order_found]
      · simp [ServerCaller.entries, Common.entries, reads.instructions_found]

/-- Only the object a hook caller is written as decodes to it. -/
theorem decodeHook_eq_ok {object : Members} (wellFormed : (Value.object object).WellFormed)
    (form_found : Members.lookup "form" object = some (.string "hook"))
    {caller : HookCaller} (decodes : decodeHook object = .ok caller) :
    object = Members.ofEntries caller.entries := by
  unfold decodeHook at decodes
  split_ifs at decodes
  obtain ⟨_, keys_ok, rest⟩ := Except.bind_eq_ok.mp decodes
  obtain ⟨text, call_ok, rest⟩ := Except.bind_eq_ok.mp rest
  obtain ⟨host, host_found, rest⟩ := Except.bind_eq_ok.mp rest
  obtain ⟨working, working_found, rest⟩ := Except.bind_eq_ok.mp rest
  obtain ⟨call, identity_ok, rest⟩ := Except.bind_eq_ok.mp rest
  obtain ⟨common, common_ok, rest⟩ := Except.bind_eq_ok.mp rest
  obtain ⟨path, path_found, rest⟩ := Except.bind_eq_ok.mp rest
  obtain ⟨projectDirectory, path_eq, rest⟩ :
      ∃ projectDirectory : Option Directory,
        path = projectDirectory.map (fun path => path.text.val) ∧
          (common.decodeOptional object >>= fun common => .ok { projectDirectory, common }) =
            .ok caller := by
    cases path with
    | none => exact ⟨none, rfl, rest⟩
    | some path =>
        obtain ⟨projectDirectory, path_ok, rest⟩ := Except.bind_eq_ok.mp rest
        obtain ⟨checked, checked_ok, rfl⟩ := Except.map_eq_ok.mp path_ok
        exact ⟨some checked, congrArg some (directory_eq_ok checked_ok).symm, rest⟩
  obtain ⟨read, read_ok, rest⟩ := Except.bind_eq_ok.mp rest
  obtain rfl := Except.ok.inj rest
  obtain ⟨rfl, rfl, rfl, no_session, no_order, no_instructions⟩ := Common.new_eq_ok common_ok
  have reads := Common.decodeOptional_eq_ok wellFormed no_session no_order no_instructions read_ok
  have call_found := decodeCall_eq_ok wellFormed call_ok
  have text_eq : common.call.text.val = text := CallIdentity.toolUse_eq_ok identity_ok
  cases wellFormed with
  | object sorted _ =>
      refine eq_ofEntries_of_lookup sorted keys_ok (onlyKeys_hook _) fun key key_mem => ?_
      simp only [hookKeys, List.mem_cons, List.not_mem_nil, or_false] at key_mem
      rcases key_mem with rfl | rfl | rfl | rfl | rfl | rfl | rfl | rfl
      · simp [HookCaller.entries, Common.entries, form_found]
      · simp [HookCaller.entries, Common.entries, optionalText_eq_ok path_found, path_eq,
          Function.comp_def]
      · simp [HookCaller.entries, Common.entries, requiredText_eq_ok working_found,
          reads.directory_eq]
      · simp [HookCaller.entries, Common.entries, requiredText_eq_ok host_found, reads.host_eq]
      · simp [HookCaller.entries, Common.entries, call_found,
          reads.call_eq, CallIdentity.toValue, text_eq]
      · simp [HookCaller.entries, Common.entries, reads.session_found]
      · simp [HookCaller.entries, Common.entries, reads.order_found]
      · simp [HookCaller.entries, Common.entries, reads.instructions_found]

/-! ## The codec is exact -/

theorem eq_string_of_asStr {value : Value} {text : String} (text_eq : value.asStr = some text) :
    value = .string text := by
  cases value with
  | string held => exact congrArg Value.string (Option.some.inj text_eq)
  | _ => cases text_eq

/-- What decodes to a caller is what the caller is written as. -/
theorem Caller.toValue_of_fromValue {value : Value} (wellFormed : value.WellFormed)
    {caller : Caller} (decodes : Caller.fromValue value = .ok caller) : caller.toValue = value := by
  cases value with
  | object members =>
      simp only [Caller.fromValue] at decodes
      split at decodes
      · next form_eq =>
          obtain ⟨server, server_ok, rfl⟩ := Except.map_eq_ok.mp decodes
          obtain ⟨form, form_found, text_eq⟩ := Option.bind_eq_some_iff.mp form_eq
          obtain rfl := eq_string_of_asStr text_eq
          exact congrArg Value.object (decodeServer_eq_ok wellFormed form_found server_ok).symm
      · next form_eq =>
          obtain ⟨hook, hook_ok, rfl⟩ := Except.map_eq_ok.mp decodes
          obtain ⟨form, form_found, text_eq⟩ := Option.bind_eq_some_iff.mp form_eq
          obtain rfl := eq_string_of_asStr text_eq
          exact congrArg Value.object (decodeHook_eq_ok wellFormed form_found hook_ok).symm
      · cases decodes
  | null | bool | number | string | array => cases decodes

theorem writeString_injective : Function.Injective writeString := by
  intro first second same
  have read_eq := congrArg readString (List.cons.inj same).2
  rw [readString_writeString, readString_writeString] at read_eq
  exact (Prod.mk.inj (Option.some.inj read_eq)).1

theorem repr_ne_writeString (integer : Int) (string : String) :
    integer.repr ≠ String.ofList (writeString string) := by
  intro same
  obtain ⟨c, tail, text_eq, head⟩ := repr_int_eq_cons integer
  have quote_eq : c = '"' := by
    rw [same, String.toList_ofList] at text_eq
    exact (List.cons.inj text_eq).1.symm
  rw [quote_eq] at head
  rcases head with digit | minus
  · cases digit
  · cases minus

theorem jsonRpcText_eq_ok {id : Value} {text : String} (written : jsonRpcText id = .ok text) :
    (∃ integer, id.asI64 = some integer ∧ id.asStr = none ∧ text = integer.repr) ∨
      ∃ string, id.asI64 = none ∧ id.asStr = some string ∧
        text = String.ofList (writeString string) := by
  cases id with
  | number source =>
      cases integer_eq : Value.readI64 source with
      | none =>
          rw [jsonRpcText, integer_eq] at written
          cases written
      | some integer =>
          rw [jsonRpcText, integer_eq] at written
          exact Or.inl ⟨integer, integer_eq, rfl, (Except.ok.inj written).symm⟩
  | string string => exact Or.inr ⟨string, rfl, rfl, (Except.ok.inj written).symm⟩
  | null | bool | array | object => cases written

/-- Ids written as one text are one integer or one string. -/
theorem jsonRpcText_injective {first second : Value} {text : String}
    (first_written : jsonRpcText first = .ok text) (second_written : jsonRpcText second = .ok text) :
    first.asI64 = second.asI64 ∧ first.asStr = second.asStr := by
  rcases jsonRpcText_eq_ok first_written with ⟨integer, first_i64, first_str, rfl⟩ |
      ⟨string, first_i64, first_str, rfl⟩ <;>
    rcases jsonRpcText_eq_ok second_written with ⟨integer', second_i64, second_str, same⟩ |
      ⟨string', second_i64, second_str, same⟩
  · rw [first_i64, second_i64, first_str, second_str, repr_int_injective same]
    exact ⟨rfl, rfl⟩
  · exact absurd same (repr_ne_writeString integer string')
  · exact absurd same.symm (repr_ne_writeString integer' string)
  · rw [first_i64, second_i64, first_str, second_str,
      writeString_injective (String.ofList_injective same)]
    exact ⟨rfl, rfl⟩

/-- Decoding gives back the caller an object was written from, nothing but what a caller is
written as decodes, and no two ids of a call share a text. -/
theorem caller_codec_exact {value : Value} (wellFormed : value.WellFormed) (caller : Caller) :
    Caller.fromValue caller.toValue = .ok caller ∧
      (Caller.fromValue value = .ok caller → caller.toValue = value) ∧
      ((∀ written : Caller, written.toValue ≠ value) →
        ∃ error, Caller.fromValue value = .error error) ∧
      ∀ (first second : Value) (text : String), jsonRpcText first = .ok text →
        jsonRpcText second = .ok text →
        first.asI64 = second.asI64 ∧ first.asStr = second.asStr := by
  refine ⟨Caller.fromValue_toValue caller, Caller.toValue_of_fromValue wellFormed, ?_, ?_⟩
  · intro unwritten
    cases decoded : Caller.fromValue value with
    | error error => exact ⟨error, rfl⟩
    | ok read => exact absurd (Caller.toValue_of_fromValue wellFormed decoded) (unwritten read)
  · intro first second text first_written second_written
    exact jsonRpcText_injective first_written second_written

/-- A caller a hook recorded under no session. -/
def toolCaller : Caller :=
  .hook
    { common :=
        { workingDirectory := ⟨⟨"/work", by decide, by decide⟩, by decide⟩
          host := ⟨⟨"tool-host", by decide, by decide⟩, by decide⟩
          call := ⟨⟨"toolu_1", by decide, by decide⟩, fun other => by cases other⟩
          instructions_bound := Common.noInstructions_bound } }

theorem caller_codec_exact_toolCaller :
    Caller.fromValue toolCaller.toValue = .ok toolCaller ∧
      ∃ error, Caller.fromValue .null = .error error := by
  have wellFormed : toolCaller.toValue.WellFormed := (toolCaller.plainEntry "caller").2.1
  refine ⟨(caller_codec_exact wellFormed toolCaller).1, ?_⟩
  refine (caller_codec_exact Value.wellFormed_null toolCaller).2.2.1 ?_
  intro written same
  cases written <;> cases same

end Baley
