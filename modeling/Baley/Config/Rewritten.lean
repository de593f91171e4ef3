import Baley.Config.InEffect
import Baley.Config.Set

/-!
# A settings file written and read back

Writing pairs into a file's table changes what the file says at the places of those pairs and keeps the rest, so
the file that is written is read without a fault and with the values that were asked for.
-/

namespace Baley.Config

variable {reader : Reader} {schema : Schema} {Decimal Date : Type} {scalars : Scalars Decimal Date}

/-! ## Places -/

/-- Where a table belongs: the host sections, and the way to a setting. -/
inductive Inside (entries : List Entry) : List String → Prop
  | hosts : Inside entries ["host"]
  | host (host : Host) : Inside entries ["host", host.name]
  | entry {entry : Entry} (entry_mem : entry ∈ entries) (host : Option Host) {path : List String}
      (nonempty : path ≠ []) (shorter : path.length < entry.segments.length) (starts : path <+: entry.segments) :
      Inside entries (hostPath host ++ path)

/-- A document has a fault where a setting's value does not fit, or what is no table stands where one belongs. -/
theorem exists_faulty_iff {walk : Walk} (nonempty : ∀ entry ∈ walk.entries, entry.segments ≠ [])
    {entries : List (Key × Toml)} :
    (∃ fault, Faulty walk entries fault) ↔
      (∃ entry ∈ walk.entries, ∃ host found wrong,
        entryAt (entry.place host) entries = some found ∧ typed entry.kind found.2 = .error wrong) ∨
      ∃ path found, Inside walk.entries path ∧ entryAt path entries = some found ∧
        ∀ deeper, found.2 ≠ .table deeper := by
  constructor
  · rintro ⟨fault, faulty⟩
    cases faulty with
    | setting entry_mem at_section leads refused =>
        exact .inl ⟨_, entry_mem, _, _, _, (entryAt_host (nonempty _ entry_mem)).mpr ⟨_, at_section, leads⟩, refused⟩
    | blocked entry_mem shorter starts at_section leads no_table =>
        have named := path_ne_nil_of_entryAt leads
        exact .inr ⟨_, _, .entry entry_mem _ named shorter starts,
          (entryAt_host named).mpr ⟨_, at_section, leads⟩, no_table⟩
    | hosts leads no_table => exact .inr ⟨_, _, .hosts, leads, no_table⟩
    | hostSection leads no_table => exact .inr ⟨_, _, .host _, leads, no_table⟩
  · rintro (⟨entry, entry_mem, host, found, wrong, leads, refused⟩ | ⟨path, found, inside, leads, no_table⟩)
    · obtain ⟨inner, at_section, leads⟩ := (entryAt_host (nonempty entry entry_mem)).mp leads
      exact ⟨_, .setting entry_mem at_section leads refused⟩
    · cases inside with
      | hosts => exact ⟨_, .hosts leads no_table⟩
      | host host => exact ⟨_, .hostSection leads no_table⟩
      | entry entry_mem host named shorter starts =>
          obtain ⟨inner, at_section, leads⟩ := (entryAt_host named).mp leads
          exact ⟨_, .blocked entry_mem shorter starts at_section leads no_table⟩

/-- No setting stands where a table belongs, or above it. -/
theorem Inside.not_place (apart : schema.Apart) {path : List String} (inside : Inside schema.entries path)
    {entry : Entry} (entry_mem : entry ∈ schema.entries) (host : Option Host) : ¬ entry.place host <+: path := by
  have long : 0 < entry.segments.length := List.length_pos_of_ne_nil (apart.nonempty entry entry_mem)
  have not_host : ∀ rest : List String, rest.length ≤ 1 → ¬ entry.place host <+: "host" :: rest := by
    intro rest short starts
    cases host with
    | none =>
        have reserved := (apart.reserved entry entry_mem).1
        obtain ⟨tail, same⟩ := starts
        cases segments : entry.segments with
        | nil => exact apart.nonempty entry entry_mem segments
        | cons first others =>
            rw [Entry.place, segments] at same
            rw [segments, (List.cons.inj same).1] at reserved
            exact reserved rfl
    | some host =>
        have fits := starts.length_le
        simp only [Entry.place, hostPath, List.length_append, List.length_cons, List.length_nil] at fits
        omega
  intro starts
  cases inside with
  | hosts => exact not_host [] (by simp) starts
  | host other => exact not_host [other.name] (by simp) starts
  | @entry other other_mem host' path named shorter inside =>
      have at_place : hostPath host' ++ path <+: other.place host' := (List.prefix_append_right_inj _).mpr inside
      obtain ⟨rfl, rfl⟩ := apart.place_prefix entry_mem other_mem (starts.trans at_place)
      have fits := ((List.prefix_append_right_inj _).mp starts).length_le
      omega

theorem Inside.ne_nil {entries : List Entry} {path : List String} (inside : Inside entries path) : path ≠ [] := by
  cases inside with
  | hosts => simp
  | host => simp
  | entry _ _ named _ _ => simp [named]

/-! ## Tables written -/

/-- The value the last pair of a setting asks for. -/
def asked (name : String) (host : Option Host) : List TypedPair → Option Setting
  | [] => none
  | pair :: pairs => (asked name host pairs).or (if pair.name = name ∧ pair.host = host then some pair.value else none)

/-- Pairs that are each of a setting. -/
def Named (schema : Schema) (pairs : List TypedPair) : Prop :=
  ∀ pair ∈ pairs, ∃ entry ∈ schema.entries, pair.path = entry.place pair.host ∧ pair.name = entry.name

/-- Where a table belongs, pairs written make one or leave what is there. -/
theorem valueAt_writePairs_inside (apart : schema.Apart) {pairs : List TypedPair} (named : Named schema pairs)
    {path : List String} (inside : Inside schema.entries path) (table : Table Decimal Date) :
    (∃ inner, (writePairs pairs table).valueAt path = some (.table inner)) ∨
      (writePairs pairs table).valueAt path = table.valueAt path := by
  induction pairs generalizing table with
  | nil => exact .inr rfl
  | cons pair pairs ih =>
      obtain ⟨entry, entry_mem, at_place, -⟩ := named pair List.mem_cons_self
      have not_below : ¬ pair.path <+: path := at_place ▸ inside.not_place apart entry_mem pair.host
      rw [writePairs, List.foldl_cons]
      rcases ih (fun other other_mem => named other (List.mem_cons_of_mem _ other_mem))
        (table.writeAt pair.path (tomlValue pair.value)) with made | same
      · exact .inl made
      · rw [← writePairs, same]
        by_cases above : path <+: pair.path
        · exact .inl (Table.valueAt_writeAt_above above (fun same => not_below (same ▸ List.prefix_rfl)) inside.ne_nil _ _)
        · exact .inr (Table.valueAt_writeAt_of_apart above not_below _ _)

/-- A setting's place holds what the last of its pairs asks for, or what it held. -/
theorem valueAt_writePairs_place (apart : schema.Apart) {pairs : List TypedPair} (named : Named schema pairs)
    {entry : Entry} (entry_mem : entry ∈ schema.entries) (host : Option Host) (table : Table Decimal Date) :
    (writePairs pairs table).valueAt (entry.place host) =
      ((asked entry.name host pairs).map tomlValue).or (table.valueAt (entry.place host)) := by
  induction pairs generalizing table with
  | nil => rfl
  | cons pair pairs ih =>
      obtain ⟨other, other_mem, at_place, other_named⟩ := named pair List.mem_cons_self
      rw [writePairs, List.foldl_cons, ← writePairs,
        ih fun other other_mem => named other (List.mem_cons_of_mem _ other_mem), asked]
      by_cases here : pair.name = entry.name ∧ pair.host = host
      · obtain rfl := schema.entry_eq other_mem entry_mem (other_named.symm.trans here.1)
        obtain rfl := here.2
        have written : (table.writeAt pair.path (tomlValue pair.value)).valueAt (other.place pair.host) =
            some (tomlValue pair.value) := by
          rw [at_place]
          exact Table.valueAt_writeAt_self (fun empty => apart.nonempty other other_mem (List.append_eq_nil_iff.mp empty).2)
            _ _
        rw [if_pos here, written]
        cases asked other.name pair.host pairs with
        | none => rfl
        | some value => rfl
      · have elsewhere : ¬ (other = entry ∧ pair.host = host) :=
          fun same => here ⟨other_named.trans (congrArg Entry.name same.1), same.2⟩
        rw [if_neg here, Option.or_none, at_place, Table.valueAt_writeAt_of_apart]
        · intro starts
          obtain ⟨same, same_host⟩ := apart.place_prefix entry_mem other_mem starts
          exact elsewhere ⟨same.symm, same_host.symm⟩
        · exact fun starts => elsewhere (apart.place_prefix other_mem entry_mem starts)

/-- A pair a set may write into a file: its value is one its setting's kind takes, in a file that may set it. -/
def Writable (schema : Schema) (layer : FileLayer) (pair : TypedPair) : Prop :=
  ∃ entry ∈ schema.entries, pair.name = entry.name ∧ excludes entry.scope layer = false ∧
    ∃ text, convert entry.kind text = some pair.value

theorem Named.of_writable {layer : FileLayer} {pairs : List TypedPair}
    (writable : ∀ pair ∈ pairs, Writable schema layer pair) : Named schema pairs := by
  intro pair pair_mem
  obtain ⟨entry, entry_mem, named, -⟩ := writable pair pair_mem
  exact ⟨entry, entry_mem, by rw [TypedPair.path, named]; rfl, named⟩

theorem mem_of_asked {name : String} {host : Option Host} {pairs : List TypedPair} {value : Setting}
    (asks : asked name host pairs = some value) : ∃ pair ∈ pairs, pair.name = name ∧ pair.host = host ∧ pair.value = value := by
  induction pairs with
  | nil => cases asks
  | cons pair pairs ih =>
      rw [asked, Option.or_eq_some_iff] at asks
      rcases asks with asks | ⟨-, asks⟩
      · obtain ⟨other, other_mem, holds⟩ := ih asks
        exact ⟨other, List.mem_cons_of_mem _ other_mem, holds⟩
      · split at asks
        · rename_i here
          exact ⟨pair, List.mem_cons_self, here.1, here.2, Option.some.inj asks⟩
        · cases asks

/-- Two documents of one table before and after pairs are written into it. -/
structure Rewritten (scalars : Scalars Decimal Date) (pairs : List TypedPair)
    (before after : List (Key × Toml)) (table : Table Decimal Date) : Prop where
  before_denotes : Denotes scalars (.table before) (.table table)
  after_denotes : Denotes scalars (.table after) (.table (writePairs pairs table))

/-- Two places that both hold nothing, or hold values that say the same. -/
structure SaySame (scalars : Scalars Decimal Date) (first second : Option (Key × Toml)) : Prop where
  forth : ∀ found, first = some found → ∃ found' value, second = some found' ∧
    Denotes scalars found.2 value ∧ Denotes scalars found'.2 value
  back : ∀ found, second = some found → ∃ found' value, first = some found' ∧
    Denotes scalars found.2 value ∧ Denotes scalars found'.2 value

variable {layer : FileLayer} {pairs : List TypedPair} {before after : List (Key × Toml)} {table : Table Decimal Date}

namespace Rewritten

/-- The place of a setting asked for holds the value asked for. -/
theorem set (apart : schema.Apart) (writable : ∀ pair ∈ pairs, Writable schema layer pair)
    (rewritten : Rewritten scalars pairs before after table) {entry : Entry} (entry_mem : entry ∈ schema.entries)
    {host : Option Host} {value : Setting} (asks : asked entry.name host pairs = some value) :
    ∃ found, entryAt (entry.place host) after = some found ∧ typed entry.kind found.2 = .ok value := by
  have at_place := valueAt_writePairs_place apart (Named.of_writable writable) entry_mem host table
  rw [asks, Option.map_some, Option.some_or] at at_place
  obtain ⟨found, leads, same⟩ := rewritten.after_denotes.entryAt_of_valueAt at_place
  obtain ⟨pair, pair_mem, named, -, rfl⟩ := mem_of_asked asks
  obtain ⟨other, other_mem, other_named, -, text, given⟩ := writable pair pair_mem
  obtain rfl := schema.entry_eq other_mem entry_mem (other_named.symm.trans named)
  exact ⟨found, leads, typed_tomlValue given same⟩

/-- Where two tables hold the same, their documents say the same. -/
theorem same_at (rewritten : Rewritten scalars pairs before after table) {path : List String}
    (unchanged : (writePairs pairs table).valueAt path = table.valueAt path) :
    SaySame scalars (entryAt path after) (entryAt path before) := by
  constructor
  · intro found leads
    obtain ⟨value, holds, same⟩ := rewritten.after_denotes.valueAt_of_entryAt leads
    obtain ⟨found', leads', same'⟩ := rewritten.before_denotes.entryAt_of_valueAt (unchanged ▸ holds)
    exact ⟨found', value, leads', same, same'⟩
  · intro found leads
    obtain ⟨value, holds, same⟩ := rewritten.before_denotes.valueAt_of_entryAt leads
    obtain ⟨found', leads', same'⟩ := rewritten.after_denotes.entryAt_of_valueAt (unchanged ▸ holds)
    exact ⟨found', value, leads', same, same'⟩

theorem unchanged (apart : schema.Apart) (writable : ∀ pair ∈ pairs, Writable schema layer pair) {entry : Entry}
    (entry_mem : entry ∈ schema.entries) {host : Option Host} (asks : asked entry.name host pairs = none) :
    (writePairs pairs table).valueAt (entry.place host) = table.valueAt (entry.place host) := by
  rw [valueAt_writePairs_place apart (Named.of_writable writable) entry_mem host table, asks, Option.map_none,
    Option.none_or]

/-- The place of a setting not asked for holds the value it held, or none. -/
theorem kept (apart : schema.Apart) (writable : ∀ pair ∈ pairs, Writable schema layer pair)
    (rewritten : Rewritten scalars pairs before after table) {entry : Entry} (entry_mem : entry ∈ schema.entries)
    {host : Option Host} (asks : asked entry.name host pairs = none) (value : Setting) :
    (∃ found, entryAt (entry.place host) after = some found ∧ typed entry.kind found.2 = .ok value) ↔
      ∃ found, entryAt (entry.place host) before = some found ∧ typed entry.kind found.2 = .ok value := by
  obtain ⟨back, forth⟩ := rewritten.same_at (unchanged apart writable entry_mem asks)
  constructor
  · rintro ⟨found, leads, fits⟩
    obtain ⟨found', held, leads', same, same'⟩ := back found leads
    exact ⟨found', leads', (typed_congr same same').mp fits⟩
  · rintro ⟨found, leads, fits⟩
    obtain ⟨found', held, leads', same, same'⟩ := forth found leads
    exact ⟨found', leads', (typed_congr same same').mp fits⟩

/-- A document rewritten has no fault when it had none. -/
theorem no_faults (apart : schema.Apart) (writable : ∀ pair ∈ pairs, Writable schema layer pair)
    (rewritten : Rewritten scalars pairs before after table) {walk walk' : Walk} (entries_eq : walk.entries = schema.entries)
    (entries_eq' : walk'.entries = schema.entries) (sound : ∀ fault, ¬ Faulty walk before fault) (fault : Fault) :
    ¬ Faulty walk' after fault := by
  intro faulty
  have nonempty : ∀ entry ∈ schema.entries, entry.segments ≠ [] := apart.nonempty
  apply not_exists.mpr sound
  rw [exists_faulty_iff (entries_eq ▸ nonempty), entries_eq]
  rcases (exists_faulty_iff (entries_eq' ▸ nonempty)).mp ⟨fault, faulty⟩ with
    ⟨entry, entry_mem, host, found, wrong, leads, refused⟩ | ⟨path, found, inside, leads, no_table⟩
  · rw [entries_eq'] at entry_mem
    refine .inl ⟨entry, entry_mem, host, ?_⟩
    cases asks : asked entry.name host pairs with
    | some value =>
        obtain ⟨found', leads', fits⟩ := rewritten.set apart writable entry_mem asks
        rw [leads] at leads'
        cases leads'
        rw [fits] at refused
        cases refused
    | none =>
        obtain ⟨found', held, leads', same, same'⟩ :=
          (rewritten.same_at (unchanged apart writable entry_mem asks)).forth found leads
        cases outcome : typed entry.kind found'.2 with
        | error wrong' => exact ⟨found', wrong', leads', outcome⟩
        | ok value =>
            rw [typed_congr same' same] at outcome
            rw [outcome] at refused
            cases refused
  · rw [entries_eq'] at inside
    refine .inr ⟨path, ?_⟩
    rcases valueAt_writePairs_inside apart (Named.of_writable writable) inside table with ⟨inner, made⟩ | same
    · obtain ⟨value, holds, same⟩ := rewritten.after_denotes.valueAt_of_entryAt leads
      rw [made] at holds
      cases holds
      obtain ⟨deeper, is_table⟩ := same.table_iff.mpr ⟨inner, rfl⟩
      exact absurd is_table (no_table deeper)
    · obtain ⟨found', held, leads', same, same'⟩ := (rewritten.same_at same).forth found leads
      refine ⟨found', inside, leads', fun deeper is_table => ?_⟩
      obtain ⟨inner, is_table⟩ := same.table_iff.mpr (same'.table_iff.mp ⟨deeper, is_table⟩)
      exact no_table inner is_table

end Rewritten

/-! ## What a layer holds -/

/-- The value a layer holds for a setting, at the top level or in a host's section. -/
def ParsedLayer.setting (parsed : ParsedLayer) (name : String) (host : Option Host) : Option Setting :=
  (parsed.values.find? fun written => written.name = name && written.host = host).map Written.value

theorem Walk.writes_eq_some_iff {walk : Walk} {entries : List (Key × Toml)} {entry : Entry}
    (nonempty : entry.segments ≠ []) {host : Option Host} {made : Written} :
    walk.writes entries entry host = some made ↔
      ∃ found, entryAt (entry.place host) entries = some found ∧ walk.written entry host found = some made := by
  simp only [Walk.writes, Option.bind_eq_some_iff, Entry.place, entryAt_host nonempty]
  constructor
  · rintro ⟨inner, at_section, found, leads, made⟩
    exact ⟨found, ⟨inner, at_section, leads⟩, made⟩
  · rintro ⟨found, ⟨inner, at_section, leads⟩, made⟩
    exact ⟨inner, at_section, found, leads, made⟩

theorem Walk.value_of_written {walk : Walk} {entry : Entry} {host : Option Host} {found : Key × Toml} {value : Setting} :
    (∃ made, walk.written entry host found = some made ∧ made.value = value) ↔
      excludes entry.scope walk.layer = false ∧ typed entry.kind found.2 = .ok value := by
  rw [written]
  cases typed entry.kind found.2 with
  | error wrong => simp
  | ok held =>
      have same : walk.excluded entry = excludes entry.scope walk.layer := rfl
      rw [same]
      cases excludes entry.scope walk.layer with
      | true => simp
      | false => simp

/-- What a layer holds for a setting is what its file writes for it. -/
theorem setting_eq_writes (apart : schema.Apart) {file : SettingsFile} {parsed : ParsedLayer}
    (accepted : parseLayer reader schema layer file = .ok parsed) {entry : Entry} (entry_mem : entry ∈ schema.entries)
    (host : Option Host) :
    parsed.setting entry.name host = (file.writes reader schema layer entry host).map Written.value := by
  have held := writes_eq_some apart accepted entry_mem host
  rw [ParsedLayer.setting]
  congr 1
  cases found : parsed.values.find? fun written => written.name = entry.name && written.host = host with
  | none =>
      symm
      rw [Option.eq_none_iff_forall_not_mem]
      intro made writes
      obtain ⟨made_mem, named, at_host⟩ := (held made).mp writes
      exact List.find?_eq_none.mp found made made_mem (by simp [named, at_host])
  | some made =>
      have named := List.find?_some found
      simp only [Bool.and_eq_true, decide_eq_true_eq] at named
      exact ((held made).mpr ⟨List.mem_of_find?_eq_some found, named⟩).symm

/-- A layer holds what the place of a setting holds, in a file that may set it. -/
theorem setting_eq_some (apart : schema.Apart) {file : SettingsFile} {parsed : ParsedLayer}
    (accepted : parseLayer reader schema layer file = .ok parsed) {text : String} {entries : List (Key × Toml)}
    (read_ok : document reader file = .ok (text, entries)) {entry : Entry} (entry_mem : entry ∈ schema.entries)
    (host : Option Host) (value : Setting) :
    parsed.setting entry.name host = some value ↔ excludes entry.scope layer = false ∧
      ∃ found, entryAt (entry.place host) entries = some found ∧ typed entry.kind found.2 = .ok value := by
  rw [setting_eq_writes apart accepted entry_mem, SettingsFile.writes, read_ok, Option.map_eq_some_iff]
  simp only [Walk.writes_eq_some_iff (apart.nonempty entry entry_mem)]
  constructor
  · rintro ⟨made, ⟨found, leads, written⟩, is_value⟩
    obtain ⟨admitted, fits⟩ := Walk.value_of_written.mp ⟨made, written, is_value⟩
    exact ⟨admitted, found, leads, fits⟩
  · rintro ⟨admitted, found, leads, fits⟩
    obtain ⟨made, written, is_value⟩ :=
      (@Walk.value_of_written (file.walk schema layer) entry host found value).mpr ⟨admitted, fits⟩
    exact ⟨made, ⟨found, leads, written⟩, is_value⟩

/-- A file without a fault gives a layer. -/
theorem parseLayer_of_sound (apart : schema.Apart) {file : SettingsFile} {text : String}
    {entries : List (Key × Toml)} (read_ok : document reader file = .ok (text, entries))
    (sound : ∀ fault, ¬ Faulty (file.walk schema layer) entries fault) :
    ∃ parsed, parseLayer reader schema layer file = .ok parsed := by
  cases outcome : parseFile reader schema layer (some file) with
  | error refusal =>
      refine absurd (refuses_of_parseFile apart outcome) (not_refuses_of_sound ?_ refusal)
      rintro held ⟨⟩
      exact ⟨text, entries, read_ok, sound⟩
  | ok parsed =>
      rw [parseFile, Except.map_eq_ok] at outcome
      obtain ⟨parsed, accepted, -⟩ := outcome
      exact ⟨parsed, accepted⟩

/-- What the file's layer holds for a setting, when there is a file. -/
def settingOf (current : Option ParsedLayer) (name : String) (host : Option Host) : Option Setting :=
  current.bind fun parsed => parsed.setting name host

/-- What a table is written out as is read as a document that says the same. -/
def Library.Prints (library : Library reader Decimal Date) (table : Table Decimal Date) : Prop :=
  ∃ entries, reader.read (library.print table) = .ok entries ∧
    Denotes library.toScalars (.table entries) (.table table)

theorem denotes_empty : Denotes scalars (.table []) (.table []) :=
  .table (fun _ => rfl) fun _ _ _ held => by cases held

/-- A document without a fault, the table that says the same, and the layer it gives. -/
structure Based (schema : Schema) (layer : FileLayer) (scalars : Scalars Decimal Date) (current : Option ParsedLayer)
    (before : List (Key × Toml)) (table : Table Decimal Date) : Prop where
  denotes : Denotes scalars (.table before) (.table table)
  sound : ∃ walk : Walk, walk.entries = schema.entries ∧ ∀ fault, ¬ Faulty walk before fault
  holds : ∀ entry ∈ schema.entries, ∀ host value, settingOf current entry.name host = some value ↔
    excludes entry.scope layer = false ∧
      ∃ found, entryAt (entry.place host) before = some found ∧ typed entry.kind found.2 = .ok value

theorem entryAt_nil (path : List String) : entryAt path [] = none := by
  cases path with
  | nil => rfl
  | cons => rfl

theorem based_of_none : Based schema layer scalars none [] [] where
  denotes := denotes_empty
  sound := by
    refine ⟨{ text := [], path := "", layer, entries := schema.entries }, rfl, fun fault faulty => ?_⟩
    have nowhere : ∀ {host : Option Host} {inner : List (Key × Toml)} {path : List String} {found : Key × Toml},
        sectionOf host [] = some inner → entryAt path inner ≠ some found := by
      intro host inner path found at_section
      cases host with
      | none =>
          cases at_section
          simp [entryAt_nil]
      | some host => simp [sectionOf, entryAt_nil] at at_section
    cases faulty with
    | setting _ at_section leads _ => exact nowhere at_section leads
    | blocked _ _ _ at_section leads _ => exact nowhere at_section leads
    | hosts leads _ => cases leads
    | hostSection leads _ => cases leads
  holds entry entry_mem host value := by simp [settingOf, entryAt_nil]

/-- The document of a file, empty when there is none. -/
def baseDocument (reader : Reader) : Option SettingsFile → Option (List (Key × Toml))
  | none => some []
  | some file => (document reader file).toOption.map Prod.snd

/-- What a file's table is rendered from. -/
theorem based_of_renderTable (apart : schema.Apart) (library : Library reader Decimal Date)
    {base : Option SettingsFile} {current : Option ParsedLayer}
    (accepted : parseFile reader schema layer base = .ok current) {rendered : Table Decimal Date}
    (rendered_ok : renderTable library schema layer base pairs = .ok rendered) :
    ∃ before table, baseDocument reader base = some before ∧
      Based schema layer library.toScalars current before table ∧ rendered = writePairs pairs table := by
  cases base with
  | none =>
      cases accepted
      cases rendered_ok
      exact ⟨[], [], rfl, based_of_none, rfl⟩
  | some file =>
      rw [parseFile, Except.map_eq_ok] at accepted
      obtain ⟨parsed, accepted, rfl⟩ := accepted
      obtain ⟨text, entries, read_ok, no_faults, -, -⟩ := parseLayer_eq_ok accepted
      rw [renderTable, accepted, read_ok] at rendered_ok
      cases as_table : library.table text with
      | error error =>
          simp only [bind, Except.bind, as_table] at rendered_ok
          cases rendered_ok
      | ok table =>
          simp only [bind, Except.bind, as_table, Except.ok.injEq] at rendered_ok
          refine ⟨entries, table, by rw [baseDocument, read_ok]; rfl, ⟨library.table_reads (document_eq_ok read_ok) as_table, ?_, ?_⟩, rendered_ok.symm⟩
          · refine ⟨file.walk schema layer, rfl, fun fault faulty => ?_⟩
            rw [← Walk.mem_faults_iff (apart.free file layer) (apart.reserves file layer) (document_named_once read_ok),
              no_faults] at faulty
            cases faulty
          · exact fun entry entry_mem => setting_eq_some apart accepted read_ok entry_mem

/-- A file rendered is read back with the values its pairs ask for, and holds what it held elsewhere. -/
theorem parseLayer_rendered (apart : schema.Apart) (library : Library reader Decimal Date)
    {current : Option ParsedLayer} {before : List (Key × Toml)} {table : Table Decimal Date}
    (based : Based schema layer library.toScalars current before table)
    (writable : ∀ pair ∈ pairs, Writable schema layer pair) (prints : library.Prints (writePairs pairs table))
    (path digest : String) :
    ∃ parsed, parseLayer reader schema layer { path, bytes := library.bytes (writePairs pairs table), digest } =
        .ok parsed ∧
      ∀ entry ∈ schema.entries, ∀ host, parsed.setting entry.name host =
        (asked entry.name host pairs).or (settingOf current entry.name host) := by
  obtain ⟨after, reads, after_denotes⟩ := prints
  have rewritten : Rewritten library.toScalars pairs before after table := ⟨based.denotes, after_denotes⟩
  have read_ok := document_utf8 reads path digest
  obtain ⟨walk, walk_entries, sound⟩ := based.sound
  obtain ⟨parsed, accepted⟩ := @parseLayer_of_sound reader schema layer apart _ _ _ read_ok
    (rewritten.no_faults apart writable walk_entries rfl sound)
  refine ⟨parsed, accepted, fun entry entry_mem host => ?_⟩
  apply Option.ext
  intro value
  rw [setting_eq_some apart accepted read_ok entry_mem host]
  cases asks : asked entry.name host pairs with
  | none =>
      rw [Option.none_or, based.holds entry entry_mem, rewritten.kept apart writable entry_mem asks]
  | some asked_value =>
      obtain ⟨found, leads, fits⟩ := rewritten.set apart writable entry_mem asks
      obtain ⟨pair, pair_mem, named, -, -⟩ := mem_of_asked asks
      obtain ⟨other, other_mem, other_named, admitted, -⟩ := writable pair pair_mem
      obtain rfl := schema.entry_eq other_mem entry_mem (other_named.symm.trans named)
      simp [admitted, leads, fits]

end Baley.Config
