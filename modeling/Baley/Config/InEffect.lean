import Baley.Config.Layer
import Baley.Config.Walked

/-!
# The value in effect

Each setting's merged value is what the last layer that writes it writes: a value of the setting's kind, at
its place in a file that may set it.  Without one the first faulty place of a file is named, the global
file's before the project file's.
-/

namespace Baley.Config

open Json (utf8)

/-! ## What a file writes -/

namespace Walk

variable (walk : Walk)

/-- What a place of an entry writes: a value that fits the entry, in a file that may set it. -/
def written (entry : Entry) (host : Option Host) (found : Key × Toml) : Option Written :=
  match typed entry.kind found.2 with
  | .error _ => none
  | .ok value =>
      if walk.excluded entry then none
      else
        let (line, column) := lineAndColumn walk.text found.1.start
        some { name := entry.name, host, value, line, column }

/-- What a document writes for a setting at its top level or in a host's section. -/
def writes (entries : List (Key × Toml)) (entry : Entry) (host : Option Host) : Option Written :=
  (sectionOf host entries).bind fun inner => (entryAt entry.segments inner).bind (walk.written entry host)

variable {walk}

theorem values_setting (entry : Entry) (path : List String) (host : Option Host) (found : Key × Toml) :
    (walk.setting entry path host found.1 found.2).values = (walk.written entry host found).toList := by
  rw [setting, written]
  cases typed entry.kind found.2 with
  | error wrong => rfl
  | ok value =>
      cases admitted : walk.excluded entry with
      | true => rfl
      | false => rfl

theorem values_wrongType (path : List String) (host : Option Host) (key : Key) (value : Toml) :
    (walk.wrongType path host key value).values = [] := rfl

theorem values_misplaced (found : Key × Toml) (path : List String) : (walk.misplaced found path).values = [] := by
  rw [misplaced]
  cases found.2 with
  | _ => rfl

theorem mem_values_judge {path : List String} {host : Option Host} {found : Key × Toml} {made : Written} :
    made ∈ (walk.judge path host found).values ↔
      ∃ entry, walk.exact path = some entry ∧ walk.written entry host found = some made := by
  rw [judge]
  cases walk.exact path with
  | some entry => simp [values_setting]
  | none =>
      cases walk.below path with
      | false => simp [Findings.none]
      | true =>
          cases found.2 with
          | _ => simp [Findings.none, values_wrongType]

theorem name_of_written {entry : Entry} {host : Option Host} {found : Key × Toml} {made : Written}
    (writes : walk.written entry host found = some made) : made.name = entry.name ∧ made.host = host := by
  rw [written] at writes
  cases fits : typed entry.kind found.2 with
  | error wrong => rw [fits] at writes; cases writes
  | ok value =>
      rw [fits] at writes
      cases admitted : walk.excluded entry with
      | true => simp [admitted] at writes
      | false =>
          simp only [admitted, Bool.false_eq_true, if_false, Option.some.injEq] at writes
          subst writes
          exact ⟨rfl, rfl⟩

theorem name_of_writes {entries : List (Key × Toml)} {entry : Entry} {host : Option Host} {made : Written}
    (holds : walk.writes entries entry host = some made) : made.name = entry.name ∧ made.host = host := by
  obtain ⟨inner, -, holds⟩ := Option.bind_eq_some_iff.mp holds
  obtain ⟨found, -, holds⟩ := Option.bind_eq_some_iff.mp holds
  exact name_of_written holds

/-- What the walk of a document writes is what the places of its settings write. -/
theorem mem_values_iff (free : walk.Free) (reserves : walk.Reserves) {entries : List (Key × Toml)}
    (once : NamedOnce (.table entries)) {made : Written} :
    made ∈ (walk.table [] none entries).values ↔
      ∃ entry ∈ walk.entries, ∃ host, walk.writes entries entry host = some made := by
  rw [mem_document_iff part_values free reserves once, Finds]
  simp only [values_misplaced, List.not_mem_nil, and_false, exists_false, or_false, FoundAt, List.nil_append,
    mem_values_judge, writes, Option.bind_eq_some_iff]
  constructor
  · rintro ⟨host, inner, at_section, path, found, leads, entry, at_setting, holds⟩
    obtain ⟨entry_mem, rfl⟩ := mem_of_exact at_setting
    exact ⟨entry, entry_mem, host, inner, at_section, found, leads, holds⟩
  · rintro ⟨entry, entry_mem, host, inner, at_section, found, leads, holds⟩
    exact ⟨host, inner, at_section, entry.segments, found, leads, entry, exact_segments free entry_mem, holds⟩

end Walk

/-! ## What a layer leaves -/

/-- Writes of one setting that agree leave it at what they write; the others leave it. -/
theorem getElem?_writes {ι : Type} (name : ι → String) (make : ι → Effective) (made : List ι) (at_name : String)
    {effect : Option Effective} (agree : ∀ item ∈ made, name item = at_name → effect = some (make item))
    (settings : Settings) :
    (made.foldl (fun settings item => settings.modify (name item) fun _ => make item) settings)[at_name]? =
      if ∃ item ∈ made, name item = at_name then settings[at_name]?.map effect.getD else settings[at_name]? := by
  induction made generalizing settings with
  | nil => simp
  | cons item made ih =>
      rw [List.foldl_cons, ih fun other other_mem => agree other (List.mem_cons_of_mem _ other_mem),
        Std.TreeMap.getElem?_modify]
      by_cases here : name item = at_name
      · subst here
        rw [if_pos Std.ReflCmp.compare_self, agree item List.mem_cons_self rfl]
        by_cases again : ∃ other ∈ made, name other = name item
        · rw [if_pos again, if_pos ⟨item, List.mem_cons_self, rfl⟩, Option.map_map]
          rfl
        · rw [if_neg again, if_pos ⟨item, List.mem_cons_self, rfl⟩]
          rfl
      · have elsewhere : compare (name item) at_name ≠ .eq := fun same => here (Std.LawfulEqCmp.eq_of_compare same)
        rw [if_neg elsewhere]
        simp only [List.exists_mem_cons_iff, here, false_or]

/-- What a file's top level or section writes for a setting is in effect after it. -/
theorem getElem?_apply {parsed : ParsedLayer} (layer : Layer) {host : Option Host} {name : String}
    {made : Option Written}
    (only : ∀ written, made = some written ↔ written ∈ parsed.values ∧ written.name = name ∧ written.host = host)
    (settings : Settings) :
    (parsed.apply layer host settings)[name]? =
      settings[name]?.map (made.map (parsed.effective layer)).getD := by
  have at_name : ∀ written, written ∈ parsed.values.filter (fun written => written.host = host) ∧
      written.name = name ↔ made = some written := by
    intro written
    rw [only, List.mem_filter, decide_eq_true_eq, and_assoc, @and_comm _ (written.name = name)]
  rw [ParsedLayer.apply, @getElem?_writes _ Written.name (parsed.effective layer) _ name
    (made.map (parsed.effective layer))]
  · cases made with
    | none =>
        rw [if_neg]
        · exact (Option.map_id_apply ..).symm
        · rintro ⟨written, written_mem, named⟩
          cases (at_name written).mp ⟨written_mem, named⟩
    | some written => exact if_pos ⟨written, (at_name written).mpr rfl⟩
  · intro written written_mem named
    rw [(at_name written).mp ⟨written_mem, named⟩]
    rfl

/-! ## A whole file -/

theorem Schema.Apart.free {schema : Schema} (apart : schema.Apart) (file : SettingsFile) (layer : FileLayer) :
    (file.walk schema layer).Free := apart.prefix_free

theorem Schema.Apart.reserves {schema : Schema} (apart : schema.Apart) (file : SettingsFile) (layer : FileLayer) :
    (file.walk schema layer).Reserves :=
  fun entry entry_mem => ⟨apart.nonempty entry entry_mem, apart.reserved entry entry_mem⟩

variable {reader : Reader} {schema : Schema}

/-- A file that gives a layer is read without a fault. -/
theorem parseLayer_eq_ok {layer : FileLayer} {file : SettingsFile} {parsed : ParsedLayer}
    (accepted : parseLayer reader schema layer file = .ok parsed) :
    ∃ text entries, document reader file = .ok (text, entries) ∧
      ((file.walk schema layer).table [] none entries).faults = [] ∧
      parsed.values = ((file.walk schema layer).table [] none entries).values ∧
      parsed.file = { path := file.path, digest := file.digest } := by
  rw [parseLayer] at accepted
  cases read_ok : document reader file with
  | error refusal => rw [read_ok] at accepted; cases accepted
  | ok read =>
      obtain ⟨text, entries⟩ := read
      rw [read_ok] at accepted
      refine ⟨text, entries, rfl, ?_⟩
      cases first : ((file.walk schema layer).table [] none entries).faults.argmin Fault.place with
      | some fault =>
          simp only [bind, Except.bind, first] at accepted
          cases accepted
      | none =>
          simp only [bind, Except.bind, first, Except.ok.injEq] at accepted
          subst accepted
          exact ⟨List.argmin_eq_none.mp first, rfl, rfl⟩

/-! ## The last layer that writes -/

/-- What a file writes for a setting at its top level or in a host's section. -/
def SettingsFile.writes (file : SettingsFile) (reader : Reader) (schema : Schema) (layer : FileLayer) (entry : Entry)
    (host : Option Host) : Option Written :=
  match document reader file with
  | .ok (_, entries) => (file.walk schema layer).writes entries entry host
  | .error _ => none

/-- What a layer puts in effect for a setting, if its file is there and writes it. -/
def writtenBy (reader : Reader) (schema : Schema) (entry : Entry) (layer : Layer) (fileLayer : FileLayer)
    (host : Option Host) (file : Option SettingsFile) : Option Effective :=
  file.bind fun file =>
    (file.writes reader schema fileLayer entry host).map fun written =>
      { value := some written.value,
        source := { layer, file := some { path := file.path, digest := file.digest },
                    line := written.line, column := written.column } }

/-- What the layers of a file put in effect for a setting, its top level first. -/
def writtenByFile (reader : Reader) (schema : Schema) (host : Option Host) (entry : Entry) (top inside : Layer)
    (fileLayer : FileLayer) (file : Option SettingsFile) : List Effective :=
  (writtenBy reader schema entry top fileLayer none file).toList ++
    if host.isSome then (writtenBy reader schema entry inside fileLayer host file).toList else []

/-- The value in effect of a setting: that of the last layer that writes it, else its default. -/
def inEffect (reader : Reader) (schema : Schema) (host : Option Host) (global project : Option SettingsFile)
    (entry : Entry) : Effective :=
  (writtenByFile reader schema host entry .global .globalHost .global global ++
    writtenByFile reader schema host entry .project .projectHost .project project).getLastD entry.byDefault

variable {host : Option Host}

theorem Schema.entry_eq (schema : Schema) {entry other : Entry} (entry_mem : entry ∈ schema.entries)
    (other_mem : other ∈ schema.entries) (named : entry.name = other.name) : entry = other :=
  List.inj_on_of_nodup_map schema.named_once entry_mem other_mem named

/-- What the places of a setting write is what the file's layer has for it. -/
theorem writes_eq_some (apart : schema.Apart) {layer : FileLayer}
    {file : SettingsFile} {parsed : ParsedLayer} (accepted : parseLayer reader schema layer file = .ok parsed)
    {entry : Entry} (entry_mem : entry ∈ schema.entries) (host : Option Host) (written : Written) :
    file.writes reader schema layer entry host = some written ↔
      written ∈ parsed.values ∧ written.name = entry.name ∧ written.host = host := by
  obtain ⟨text, entries, read_ok, -, values, -⟩ := parseLayer_eq_ok accepted
  rw [SettingsFile.writes, read_ok, values, Walk.mem_values_iff (apart.free file layer) (apart.reserves file layer)
    (document_named_once read_ok)]
  constructor
  · exact fun holds => ⟨⟨entry, entry_mem, host, holds⟩, Walk.name_of_writes holds⟩
  · rintro ⟨⟨other, other_mem, section_host, holds⟩, named, at_host⟩
    obtain ⟨other_named, other_host⟩ := Walk.name_of_writes holds
    obtain rfl : other = entry := schema.entry_eq other_mem entry_mem (other_named.symm.trans named)
    obtain rfl : section_host = host := other_host.symm.trans at_host
    exact holds

theorem getElem?_apply_writes (apart : schema.Apart) {fileLayer : FileLayer} {file : SettingsFile}
    {parsed : ParsedLayer} (accepted : parseLayer reader schema fileLayer file = .ok parsed) {entry : Entry}
    (entry_mem : entry ∈ schema.entries) (layer : Layer) (host : Option Host) (settings : Settings) :
    (parsed.apply layer host settings)[entry.name]? =
      settings[entry.name]?.map
        (writtenBy reader schema entry layer fileLayer host (some file)).toList.getLastD := by
  obtain ⟨-, -, -, -, -, cited⟩ := parseLayer_eq_ok accepted
  rw [getElem?_apply layer (writes_eq_some apart accepted entry_mem host)]
  congr 1
  funext held
  rw [writtenBy, Option.bind_some]
  cases file.writes reader schema fileLayer entry host with
  | none => rfl
  | some written =>
      rw [Option.map_some, Option.map_some, ParsedLayer.effective, cited]
      rfl

theorem getLastD_append {α : Type} (first second : List α) (last : α) :
    (first ++ second).getLastD last = second.getLastD (first.getLastD last) := by
  rw [List.getLastD_eq_getLast?, List.getLast?_append, List.getLastD_eq_getLast?, List.getLastD_eq_getLast?,
    Option.getD_or]

theorem getElem?_applyFile (apart : schema.Apart) {fileLayer : FileLayer}
    {file : Option SettingsFile} {parsed : Option ParsedLayer}
    (accepted : parseFile reader schema fileLayer file = .ok parsed) {entry : Entry}
    (entry_mem : entry ∈ schema.entries) (top inside : Layer) (settings : Settings) :
    (applyFile host top inside parsed settings)[entry.name]? =
      settings[entry.name]?.map (writtenByFile reader schema host entry top inside fileLayer file).getLastD := by
  cases file with
  | none =>
      cases accepted
      rw [applyFile, writtenByFile]
      cases host with
      | _ => exact (Option.map_id_apply ..).symm
  | some file =>
      rw [parseFile] at accepted
      cases parsed_ok : parseLayer reader schema fileLayer file with
      | error refusal => rw [parsed_ok] at accepted; cases accepted
      | ok layer =>
          rw [parsed_ok] at accepted
          cases accepted
          rw [applyFile, writtenByFile]
          have at_top := getElem?_apply_writes apart parsed_ok entry_mem top none settings
          cases host with
          | none =>
              rw [if_neg (by simp), if_neg (by simp), List.append_nil]
              exact at_top
          | some host =>
              rw [if_pos Option.isSome_some, if_pos Option.isSome_some,
                getElem?_apply_writes apart parsed_ok entry_mem inside, at_top, Option.map_map]
              congr 1
              funext held
              exact (getLastD_append _ _ held).symm

theorem Schema.getElem?_defaults {entry : Entry} (entry_mem : entry ∈ schema.entries) :
    schema.defaults[entry.name]? = some entry.byDefault := by
  apply Std.TreeMap.getElem?_ofList_of_mem Std.ReflCmp.compare_self
  · rw [List.pairwise_map]
    apply (List.pairwise_map.mp schema.named_once).imp
    exact fun distinct same => distinct (Std.LawfulEqCmp.eq_of_compare same)
  · exact List.mem_map_of_mem entry_mem

/-! ## Names outside the schema -/

theorem Schema.getElem?_defaults_of_unnamed {name : String} (unnamed : ∀ entry ∈ schema.entries, entry.name ≠ name) :
    schema.defaults[name]? = none := by
  apply Std.TreeMap.getElem?_ofList_of_contains_eq_false
  rw [← Bool.not_eq_true, List.contains_iff_mem, List.map_map, List.mem_map]
  rintro ⟨entry, entry_mem, named⟩
  exact unnamed entry entry_mem named

theorem getElem?_writes_of_none {ι : Type} (name : ι → String) (make : ι → Effective) (made : List ι) {at_name : String}
    {settings : Settings} (absent : settings[at_name]? = none) :
    (made.foldl (fun settings item => settings.modify (name item) fun _ => make item) settings)[at_name]? = none := by
  induction made generalizing settings with
  | nil => exact absent
  | cons item made ih =>
      apply ih
      rw [Std.TreeMap.getElem?_modify]
      split
      · rename_i same
        rw [Std.LawfulEqCmp.eq_of_compare same, absent]
        rfl
      · exact absent

theorem getElem?_applyFile_of_none (top inside : Layer) (parsed : Option ParsedLayer) {name : String}
    {settings : Settings} (absent : settings[name]? = none) :
    (applyFile host top inside parsed settings)[name]? = none := by
  cases parsed with
  | none => exact absent
  | some parsed =>
      rw [applyFile]
      have at_top := getElem?_writes_of_none Written.name (parsed.effective top)
        (parsed.values.filter fun written => written.host = none) absent
      split
      · exact getElem?_writes_of_none _ _ _ at_top
      · exact at_top

theorem effectivePolicy_eq_ok {global project : Option SettingsFile} {policy : EffectivePolicy}
    (accepted : effectivePolicy reader schema host global project = .ok policy) :
    ∃ parsed_global parsed_project, parseFile reader schema .global global = .ok parsed_global ∧
      parseFile reader schema .project project = .ok parsed_project ∧
      policy = merge schema host parsed_global parsed_project := by
  rw [effectivePolicy] at accepted
  cases global_ok : parseFile reader schema .global global with
  | error refusal => rw [global_ok] at accepted; cases accepted
  | ok parsed_global =>
      cases project_ok : parseFile reader schema .project project with
      | error refusal => rw [global_ok, project_ok] at accepted; cases accepted
      | ok parsed_project =>
          rw [global_ok, project_ok] at accepted
          cases accepted
          exact ⟨parsed_global, parsed_project, rfl, rfl, rfl⟩

/-- Every setting is in effect as the last layer that writes it has it, and nothing else is a setting. -/
theorem effectivePolicy_settings (apart : schema.Apart) {global project : Option SettingsFile}
    {policy : EffectivePolicy} (accepted : effectivePolicy reader schema host global project = .ok policy) :
    (∀ entry ∈ schema.entries,
      policy.settings[entry.name]? = some (inEffect reader schema host global project entry)) ∧
    ∀ name, (∀ entry ∈ schema.entries, entry.name ≠ name) → policy.settings[name]? = none := by
  obtain ⟨parsed_global, parsed_project, global_ok, project_ok, rfl⟩ := effectivePolicy_eq_ok accepted
  constructor
  · intro entry entry_mem
    rw [merge, getElem?_applyFile apart project_ok entry_mem, getElem?_applyFile apart global_ok entry_mem,
      Schema.getElem?_defaults entry_mem, Option.map_some, Option.map_some, inEffect, getLastD_append]
  · intro name unnamed
    apply getElem?_applyFile_of_none
    apply getElem?_applyFile_of_none
    exact Schema.getElem?_defaults_of_unnamed unnamed

/-- A project file that sets a capacity, and another for one host. -/
def capacityText : String :=
  "[planning]\nphase_capacity = 3\n[host.claude-code.planning]\nphase_capacity = 2\n"

def capacityEntries : List (Key × Toml) :=
  [({ name := "host", start := 31, valueStart := 30 }, .table
      [({ name := "claude-code", start := 36, valueStart := 30 }, .table
        [({ name := "planning", start := 48, valueStart := 30 }, .table
          [({ name := "phase_capacity", start := 58, valueStart := 75 }, .integer 10 "2")])])]),
    ({ name := "planning", start := 1, valueStart := 0 }, .table
      [({ name := "phase_capacity", start := 11, valueStart := 28 }, .integer 10 "3")])]

theorem capacityEntries_once : NamedOnce (.table capacityEntries) := by
  have number : ∀ digits, NamedOnce (.integer 10 digits) := fun digits => .leaf (by simp)
  refine .table (by decide) fun entry entry_mem => ?_
  simp only [capacityEntries, List.mem_cons, List.not_mem_nil, or_false] at entry_mem
  rcases entry_mem with rfl | rfl
  · exact .one _ (.one _ (.one _ (number _)))
  · exact .one _ (number _)

/-- A reader of that file alone. -/
def capacityReader : Reader where
  read text := if text = capacityText then .ok capacityEntries else .error { start := none, message := "not read" }
  named_once := by
    intro text entries read_ok
    split at read_ok
    · cases read_ok
      exact capacityEntries_once
    · cases read_ok

def capacityFile : SettingsFile where
  path := "baley.toml"
  bytes := utf8 capacityText.toList
  digest := ""

theorem capacityFile_no_faults :
    ((capacityFile.walk Schema.standard .project).table [] none capacityEntries).faults = [] := by
  decide +kernel

theorem capacityFile_parsed : ∃ parsed, parseLayer capacityReader Schema.standard .project capacityFile = .ok parsed := by
  have reads : capacityReader.read capacityText = .ok capacityEntries := by simp [capacityReader]
  have read_ok : document capacityReader capacityFile = .ok (capacityText, capacityEntries) := document_utf8 reads _ _
  rw [parseLayer, read_ok]
  simp only [bind, Except.bind, capacityFile_no_faults, List.argmin_nil]
  exact ⟨_, rfl⟩

theorem effectivePolicy_settings_capacity :
    ∃ policy, effectivePolicy capacityReader Schema.standard (some .claudeCode) none (some capacityFile) = .ok policy ∧
      (∀ entry ∈ Schema.standard.entries, policy.settings[entry.name]? =
        some (inEffect capacityReader Schema.standard (some .claudeCode) none (some capacityFile) entry)) ∧
      ∀ name, (∀ entry ∈ Schema.standard.entries, entry.name ≠ name) → policy.settings[name]? = none := by
  obtain ⟨parsed, accepted⟩ := capacityFile_parsed
  have merged : effectivePolicy capacityReader Schema.standard (some .claudeCode) none (some capacityFile) =
      .ok (merge Schema.standard (some .claudeCode) none (some parsed)) := by
    rw [effectivePolicy, parseFile, parseFile, accepted]
    rfl
  exact ⟨_, merged, effectivePolicy_settings apart_standard merged⟩

/-! ## When a file gives no policy -/

/-- The fault of a place that must be a table. -/
def Walk.notTable (walk : Walk) (path : List String) (host : Option Host) (found : Key × Toml) : Fault :=
  let (line, column) := lineAndColumn walk.text found.1.valueStart
  .wrongType (shownName path host) .table found.2.typeStr line column

/-- The faults of a document, each at its place. -/
inductive Faulty (walk : Walk) (entries : List (Key × Toml)) : Fault → Prop
  /-- A setting's value is not of its kind, whichever file may set it. -/
  | setting {entry : Entry} (entry_mem : entry ∈ walk.entries) {host : Option Host} {inner : List (Key × Toml)}
      (at_section : sectionOf host entries = some inner) {found : Key × Toml}
      (leads : entryAt entry.segments inner = some found) {wrong : Mismatch}
      (refused : typed entry.kind found.2 = .error wrong) :
      Faulty walk entries (walk.mismatch entry entry.segments host found.1 wrong)
  /-- A setting lies inside what is no table. -/
  | blocked {entry : Entry} (entry_mem : entry ∈ walk.entries) {path : List String}
      (shorter : path.length < entry.segments.length) (starts : path <+: entry.segments) {host : Option Host}
      {inner : List (Key × Toml)} (at_section : sectionOf host entries = some inner) {found : Key × Toml}
      (leads : entryAt path inner = some found) (no_table : ∀ deeper, found.2 ≠ .table deeper) :
      Faulty walk entries (walk.notTable path host found)
  | hosts {found : Key × Toml} (leads : entryAt ["host"] entries = some found)
      (no_table : ∀ deeper, found.2 ≠ .table deeper) : Faulty walk entries (walk.notTable ["host"] none found)
  | hostSection {host : Host} {found : Key × Toml} (leads : entryAt ["host", host.name] entries = some found)
      (no_table : ∀ deeper, found.2 ≠ .table deeper) :
      Faulty walk entries (walk.notTable ["host", host.name] none found)

namespace Walk

variable {walk : Walk}

theorem faults_setting (entry : Entry) (path : List String) (host : Option Host) (found : Key × Toml)
    {fault : Fault} :
    fault ∈ (walk.setting entry path host found.1 found.2).faults ↔
      ∃ wrong, typed entry.kind found.2 = .error wrong ∧ fault = walk.mismatch entry path host found.1 wrong := by
  rw [setting]
  cases typed entry.kind found.2 with
  | error wrong => simp
  | ok value =>
      cases admitted : walk.excluded entry with
      | true => simp [diagnose, Findings.none]
      | false => simp [Findings.none]

theorem faults_misplaced {found : Key × Toml} {path : List String} {fault : Fault} :
    fault ∈ (walk.misplaced found path).faults ↔
      (∀ deeper, found.2 ≠ .table deeper) ∧ fault = walk.notTable path none found := by
  obtain ⟨key, value⟩ := found
  cases value with
  | _ => simp [misplaced, wrongType, notTable, Findings.none]

theorem mem_faults_judge {path : List String} {host : Option Host} {found : Key × Toml}
    {fault : Fault} :
    fault ∈ (walk.judge path host found).faults ↔
      (∃ entry wrong, walk.exact path = some entry ∧ typed entry.kind found.2 = .error wrong ∧
        fault = walk.mismatch entry path host found.1 wrong) ∨
      (walk.exact path = none ∧ walk.below path = true ∧ (∀ deeper, found.2 ≠ .table deeper) ∧
        fault = walk.notTable path host found) := by
  rw [judge]
  cases walk.exact path with
  | some entry => simp [faults_setting]
  | none =>
      cases walk.below path with
      | false => simp [Findings.none]
      | true =>
          obtain ⟨key, value⟩ := found
          cases value with
          | _ => simp [Findings.none, wrongType, notTable]

/-- The walk of a document finds the faults of its places. -/
theorem mem_faults_iff (free : walk.Free) (reserves : walk.Reserves) {entries : List (Key × Toml)}
    (once : NamedOnce (.table entries)) {fault : Fault} :
    fault ∈ (walk.table [] none entries).faults ↔ Faulty walk entries fault := by
  rw [mem_document_iff part_faults free reserves once, Finds]
  simp only [faults_misplaced, FoundAt, List.nil_append, mem_faults_judge]
  constructor
  · rintro (⟨host, inner, at_section, path, found, leads, at_place⟩ | ⟨found, leads, no_table, rfl⟩ |
      ⟨host, found, leads, no_table, rfl⟩)
    · rcases at_place with ⟨entry, wrong, at_setting, refused, rfl⟩ | ⟨-, is_below, no_table, rfl⟩
      · obtain ⟨entry_mem, rfl⟩ := mem_of_exact at_setting
        exact .setting entry_mem at_section leads refused
      · obtain ⟨entry, entry_mem, shorter, starts⟩ := below_iff.mp is_below
        exact .blocked entry_mem shorter starts at_section leads no_table
    · exact .hosts leads no_table
    · exact .hostSection leads no_table
  · intro faulty
    cases faulty with
    | setting entry_mem at_section leads refused =>
        exact .inl ⟨_, _, at_section, _, _, leads, .inl ⟨_, _, exact_segments free entry_mem, refused, rfl⟩⟩
    | blocked entry_mem shorter starts at_section leads no_table =>
        refine .inl ⟨_, _, at_section, _, _, leads, .inr ⟨?_, ?_, no_table, rfl⟩⟩
        · refine exact_eq_none.mpr fun other other_mem same => ?_
          have shorter' := same ▸ shorter
          rw [free other other_mem _ entry_mem (same ▸ starts)] at shorter'
          exact lt_irrefl _ shorter'
        · exact below_iff.mpr ⟨_, entry_mem, shorter, starts⟩
    | hosts leads no_table => exact .inr (.inl ⟨_, leads, no_table, rfl⟩)
    | hostSection leads no_table => exact .inr (.inr ⟨_, _, leads, no_table, rfl⟩)

end Walk

/-- A file that is not there, or is read and has no fault. -/
def Sound (reader : Reader) (schema : Schema) (layer : FileLayer) (file : Option SettingsFile) : Prop :=
  ∀ held, file = some held →
    ∃ text entries, document reader held = .ok (text, entries) ∧ ∀ fault, ¬ Faulty (held.walk schema layer) entries fault

/-- A file that is not read, or has a fault: the first of them is named. -/
def Refuses (reader : Reader) (schema : Schema) (layer : FileLayer) (file : Option SettingsFile)
    (refusal : Unavailable) : Prop :=
  ∃ held, file = some held ∧ (document reader held = .error refusal ∨
    ∃ text entries, document reader held = .ok (text, entries) ∧ refusal.path = held.path ∧
      Faulty (held.walk schema layer) entries refusal.fault ∧
      ∀ fault, Faulty (held.walk schema layer) entries fault → refusal.fault.place ≤ fault.place)

theorem sound_of_parseFile (apart : schema.Apart) {layer : FileLayer} {file : Option SettingsFile}
    {parsed : Option ParsedLayer} (accepted : parseFile reader schema layer file = .ok parsed) :
    Sound reader schema layer file := by
  rintro held rfl
  rw [parseFile] at accepted
  cases outcome : parseLayer reader schema layer held with
  | error refusal => rw [outcome] at accepted; cases accepted
  | ok given =>
      obtain ⟨text, entries, read_ok, no_faults, -, -⟩ := parseLayer_eq_ok outcome
      refine ⟨text, entries, read_ok, fun fault faulty => ?_⟩
      rw [← Walk.mem_faults_iff (apart.free held layer) (apart.reserves held layer) (document_named_once read_ok),
        no_faults] at faulty
      cases faulty

theorem refuses_of_parseFile (apart : schema.Apart) {layer : FileLayer} {file : Option SettingsFile}
    {refusal : Unavailable} (refused : parseFile reader schema layer file = .error refusal) :
    Refuses reader schema layer file refusal := by
  cases file with
  | none => cases refused
  | some held =>
      rw [parseFile, parseLayer] at refused
      refine ⟨held, rfl, ?_⟩
      cases read_ok : document reader held with
      | error unread =>
          rw [read_ok] at refused
          cases refused
          exact .inl rfl
      | ok read =>
          obtain ⟨text, entries⟩ := read
          refine .inr ⟨text, entries, rfl, ?_⟩
          have found := @Walk.mem_faults_iff _ (apart.free held layer) (apart.reserves held layer) _
            (document_named_once read_ok)
          cases first : ((held.walk schema layer).table [] none entries).faults.argmin Fault.place with
          | none =>
              simp only [read_ok, bind, Except.bind, first] at refused
              cases refused
          | some fault =>
              simp only [read_ok, bind, Except.bind, first] at refused
              cases refused
              refine ⟨rfl, found.mp (List.argmin_mem first), fun other faulty => ?_⟩
              exact List.le_of_mem_argmin (found.mpr faulty) first

theorem not_refuses_of_sound {layer : FileLayer} {file : Option SettingsFile}
    (sound : Sound reader schema layer file) (refusal : Unavailable) : ¬ Refuses reader schema layer file refusal := by
  rintro ⟨held, rfl, unread | ⟨text, entries, read_ok, -, faulty, -⟩⟩
  · obtain ⟨text, entries, read_ok, -⟩ := sound held rfl
    rw [read_ok] at unread
    cases unread
  · obtain ⟨text', entries', read_ok', no_fault⟩ := sound held rfl
    rw [read_ok] at read_ok'
    cases read_ok'
    exact no_fault _ faulty

/-- Settings are in effect when both files are sound.  Otherwise the first file that is not refuses, by the first
of its faults. -/
theorem effectivePolicy_outcome (apart : schema.Apart) (host : Option Host) (global project : Option SettingsFile) :
    ((∃ policy, effectivePolicy reader schema host global project = .ok policy) ↔
      Sound reader schema .global global ∧ Sound reader schema .project project) ∧
    ∀ refusal, effectivePolicy reader schema host global project = .error refusal →
      Refuses reader schema .global global refusal ∨
        (Sound reader schema .global global ∧ Refuses reader schema .project project refusal) := by
  have refuses : ∀ refusal, effectivePolicy reader schema host global project = .error refusal →
      Refuses reader schema .global global refusal ∨
        (Sound reader schema .global global ∧ Refuses reader schema .project project refusal) := by
    intro refusal refused
    rw [effectivePolicy] at refused
    cases global_outcome : parseFile reader schema .global global with
    | error unavailable =>
        rw [global_outcome] at refused
        cases refused
        exact .inl (refuses_of_parseFile apart global_outcome)
    | ok parsed_global =>
        refine .inr ⟨sound_of_parseFile apart global_outcome, ?_⟩
        cases project_outcome : parseFile reader schema .project project with
        | error unavailable =>
            rw [global_outcome, project_outcome] at refused
            cases refused
            exact refuses_of_parseFile apart project_outcome
        | ok parsed_project =>
            rw [global_outcome, project_outcome] at refused
            cases refused
  refine ⟨⟨?_, fun ⟨global_sound, project_sound⟩ => ?_⟩, refuses⟩
  · rintro ⟨policy, accepted⟩
    obtain ⟨_, _, global_ok, project_ok, -⟩ := effectivePolicy_eq_ok accepted
    exact ⟨sound_of_parseFile apart global_ok, sound_of_parseFile apart project_ok⟩
  · cases outcome : effectivePolicy reader schema host global project with
    | ok policy => exact ⟨policy, rfl⟩
    | error refusal =>
        rcases refuses refusal outcome with refused | ⟨-, refused⟩
        · exact absurd refused (not_refuses_of_sound global_sound refusal)
        · exact absurd refused (not_refuses_of_sound project_sound refusal)

theorem effectivePolicy_outcome_capacity :
    ((∃ policy, effectivePolicy capacityReader Schema.standard none none (some capacityFile) = .ok policy) ↔
      Sound capacityReader Schema.standard .global none ∧
        Sound capacityReader Schema.standard .project (some capacityFile)) ∧
    ∀ refusal, effectivePolicy capacityReader Schema.standard none none (some capacityFile) = .error refusal →
      Refuses capacityReader Schema.standard .global none refusal ∨
        (Sound capacityReader Schema.standard .global none ∧
          Refuses capacityReader Schema.standard .project (some capacityFile) refusal) :=
  effectivePolicy_outcome apart_standard none none (some capacityFile)

end Baley.Config
