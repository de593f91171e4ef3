import Mathlib.Data.List.Infix
import Baley.Config.Layer

/-!
# What the walk finds

The walk of a document finds, in its values and its faults, what judging each place of the document alone
finds: the top level's places and those of each known host's section.
-/

namespace Baley.Config

/-! ## Tables -/

theorem entryAt_of_mem {entries : List (Key × Toml)} (named_once : (names entries).Nodup) {entry : Key × Toml}
    (entry_mem : entry ∈ entries) (path : List String) :
    entryAt (entry.1.name :: path) entries = entryUnder path entry := by
  rw [entryAt, entryOf_eq_some named_once entry_mem, Option.bind_some]

/-- What a path leads to, from the entry that holds its first name. -/
theorem entryAt_eq_some {entries : List (Key × Toml)} (named_once : (names entries).Nodup) {path : List String}
    {found : Key × Toml} :
    entryAt path entries = some found ↔
      ∃ entry ∈ entries, ∃ rest, path = entry.1.name :: rest ∧ entryUnder rest entry = some found := by
  constructor
  · intro leads
    cases path with
    | nil => cases leads
    | cons name rest =>
        rw [entryAt, Option.bind_eq_some_iff] at leads
        obtain ⟨entry, named, leads⟩ := leads
        obtain ⟨entry_mem, rfl⟩ := mem_of_entryOf named
        exact ⟨entry, entry_mem, rest, rfl, leads⟩
  · rintro ⟨entry, entry_mem, rest, rfl, leads⟩
    rw [entryAt_of_mem named_once entry_mem, leads]

theorem entryUnder_table (path : List String) (key : Key) (entries : List (Key × Toml)) :
    path ≠ [] → entryUnder path (key, .table entries) = entryAt path entries := by
  intro nonempty
  cases path with
  | nil => contradiction
  | cons name path => rfl

theorem entryUnder_leaf {path : List String} (nonempty : path ≠ []) (key : Key) {value : Toml}
    (no_table : ∀ entries, value ≠ .table entries) : entryUnder path (key, value) = none := by
  cases path with
  | nil => contradiction
  | cons name path =>
      cases value with
      | table entries => exact absurd rfl (no_table entries)
      | _ => rfl

/-- A file's top level, or its section for a host. -/
def sectionOf (host : Option Host) (entries : List (Key × Toml)) : Option (List (Key × Toml)) :=
  match host with
  | none => some entries
  | some host =>
      match entryAt ["host", host.name] entries with
      | some (_, .table inner) => some inner
      | _ => none

theorem sectionOf_some {host : Host} {entries inner : List (Key × Toml)} :
    sectionOf (some host) entries = some inner ↔
      ∃ found, entryAt ["host", host.name] entries = some found ∧ found.2 = .table inner := by
  cases leads : entryAt ["host", host.name] entries with
  | none => simp [sectionOf, leads]
  | some found =>
      obtain ⟨key, value⟩ := found
      cases value with
      | _ => simp [sectionOf, leads]

theorem entryAt_one {name : String} {entries : List (Key × Toml)} : entryAt [name] entries = entryOf name entries := by
  cases held : entryOf name entries with
  | _ => simp [entryAt, held, entryUnder]

theorem entryAt_two {name inside : String} {entries : List (Key × Toml)} {found : Key × Toml} :
    entryAt [name, inside] entries = some found ↔
      ∃ entry inner, entryOf name entries = some entry ∧ entry.2 = .table inner ∧ entryOf inside inner = some found := by
  cases held : entryOf name entries with
  | none => simp [entryAt, held]
  | some entry =>
      obtain ⟨key, value⟩ := entry
      cases value with
      | table inner =>
          have below : entryUnder [inside] (key, .table inner) = entryOf inside inner := entryAt_one
          simp [entryAt, held, below]
      | _ => simp [entryAt, held, entryUnder]

theorem path_ne_nil_of_entryAt {path : List String} {entries : List (Key × Toml)} {found : Key × Toml}
    (leads : entryAt path entries = some found) : path ≠ [] := by
  rintro rfl
  cases leads

theorem entryUnder_append (path rest : List String) (entry : Key × Toml) :
    entryUnder (path ++ rest) entry = (entryUnder path entry).bind (entryUnder rest) := by
  induction path generalizing entry with
  | nil => rfl
  | cons name path ih =>
      obtain ⟨key, value⟩ := entry
      cases value with
      | table entries =>
          rw [List.cons_append, entryUnder, entryUnder, Option.bind_assoc]
          exact congrArg _ (funext ih)
      | _ => rfl

/-- What a path in a section leads to, from the top of the file. -/
theorem entryAt_host {host : Option Host} {path : List String} (nonempty : path ≠ []) {entries : List (Key × Toml)}
    {found : Key × Toml} :
    entryAt (hostPath host ++ path) entries = some found ↔
      ∃ inner, sectionOf host entries = some inner ∧ entryAt path inner = some found := by
  cases host with
  | none => simp [hostPath, sectionOf]
  | some host =>
      have split : entryAt (hostPath (some host) ++ path) entries =
          (entryAt ["host", host.name] entries).bind (entryUnder path) := by
        rw [hostPath, List.cons_append, entryAt, entryAt, Option.bind_assoc]
        exact congrArg _ (funext (entryUnder_append _ path))
      rw [split, Option.bind_eq_some_iff]
      simp only [sectionOf_some]
      constructor
      · rintro ⟨⟨key, value⟩, leads, under⟩
        cases value with
        | table inner => exact ⟨inner, ⟨_, leads, rfl⟩, by rwa [entryUnder_table path key inner nonempty] at under⟩
        | _ =>
            rw [entryUnder_leaf nonempty key (by simp)] at under
            cases under
      · rintro ⟨inner, ⟨⟨key, value⟩, leads, rfl⟩, inside⟩
        exact ⟨_, leads, by rwa [entryUnder_table path key inner nonempty]⟩

namespace Walk

variable (walk : Walk)

/-! ## Parts of what is found -/

/-- A part of what a walk finds that no diagnostic belongs to. -/
structure Part {β : Type} (part : Findings → List β) : Prop where
  andThen : ∀ first second, part (first.andThen second) = part first ++ part second
  diagnostics : ∀ diagnostics, part { Findings.none with diagnostics } = []

theorem part_values : Part Findings.values where
  andThen _ _ := rfl
  diagnostics _ := rfl

theorem part_faults : Part Findings.faults where
  andThen _ _ := rfl
  diagnostics _ := rfl

variable {β : Type} {part : Findings → List β}

theorem Part.none (is_part : Part part) : part .none = [] := is_part.diagnostics []

theorem Part.diagnose (is_part : Part part) (name : String) (offset : Nat) (kind : DiagnosticKind) :
    part (walk.diagnose name offset kind) = [] := is_part.diagnostics _

theorem Part.unknown (is_part : Part part) (path : List String) (host : Option Host) (key : Key) (value : Toml) :
    part (walk.unknown path host key value) = [] := by
  induction value using Toml.induction generalizing path key with
  | leaf value no_table =>
      rw [Walk.unknown]
      · exact is_part.diagnose walk _ _ _
      · exact fun entry entries => no_table (entry :: entries)
  | table entries ih =>
      have each : ∀ rest : List (Key × Toml), (∀ entry ∈ rest, entry ∈ entries) →
          part (walk.unknownEntries path host rest) = [] := by
        intro rest within
        induction rest with
        | nil => exact is_part.none
        | cons entry rest rest_ih =>
            rw [unknownEntries, is_part.andThen, ih entry (within entry List.mem_cons_self),
              rest_ih fun entry entry_mem => within entry (List.mem_cons_of_mem _ entry_mem)]
            rfl
      cases entries with
      | nil =>
          rw [Walk.unknown]
          · exact is_part.diagnose walk _ _ _
          · simp
      | cons entry entries => rw [Walk.unknown]; exact each _ fun _ entry_mem => entry_mem

/-! ## One place -/

/-- What a place finds of its own: a setting, or a value where a table of settings belongs. -/
def judge (path : List String) (host : Option Host) (found : Key × Toml) : Findings :=
  match walk.exact path with
  | some entry => walk.setting entry path host found.1 found.2
  | none =>
      if walk.below path then
        match found.2 with
        | .table _ => .none
        | value => walk.wrongType path host found.1 value
      else .none

/-- No setting lies inside another. -/
def Free : Prop :=
  ∀ entry ∈ walk.entries, ∀ other ∈ walk.entries, entry.segments <+: other.segments → entry = other

variable {walk}

theorem mem_of_exact {path : List String} {entry : Entry} (found : walk.exact path = some entry) :
    entry ∈ walk.entries ∧ entry.segments = path :=
  ⟨List.mem_of_find?_eq_some found, by simpa [exact] using List.find?_some found⟩

theorem exact_eq_none {path : List String} :
    walk.exact path = none ↔ ∀ entry ∈ walk.entries, entry.segments ≠ path := by
  simp [exact]

theorem exact_segments (free : walk.Free) {entry : Entry} (entry_mem : entry ∈ walk.entries) :
    walk.exact entry.segments = some entry := by
  cases found : walk.exact entry.segments with
  | none => exact absurd rfl (exact_eq_none.mp found entry entry_mem)
  | some other =>
      obtain ⟨other_mem, same⟩ := mem_of_exact found
      rw [free other other_mem entry entry_mem (same ▸ List.prefix_rfl)]

theorem below_iff {path : List String} :
    walk.below path = true ↔ ∃ entry ∈ walk.entries, path.length < entry.segments.length ∧ path <+: entry.segments := by
  simp [below]

/-- A place that no setting is at or below is passed over. -/
theorem judge_eq_none {path : List String} (no_exact : walk.exact path = none) (no_below : walk.below path = false)
    (host : Option Host) (found : Key × Toml) : walk.judge path host found = .none := by
  rw [judge, no_exact, no_below]
  rfl

/-- Nothing is judged inside a setting. -/
theorem judge_inside (free : walk.Free) {entry : Entry} (entry_mem : entry ∈ walk.entries) {path : List String}
    (deeper : path ≠ []) (host : Option Host) (found : Key × Toml) :
    walk.judge (entry.segments ++ path) host found = .none := by
  have beyond : ∀ other ∈ walk.entries, ¬ (entry.segments ++ path) <+: other.segments := by
    intro other other_mem starts
    have same := free entry entry_mem other other_mem ((List.prefix_append _ _).trans starts)
    have longer := starts.length_le
    rw [same, List.length_append] at longer
    exact deeper (List.length_eq_zero_iff.mp (by omega))
  apply judge_eq_none
  · exact exact_eq_none.mpr fun other other_mem same => beyond other other_mem (same ▸ List.prefix_rfl)
  · rw [← Bool.not_eq_true, below_iff]
    rintro ⟨other, other_mem, -, starts⟩
    exact beyond other other_mem starts

/-- Nothing is judged inside what no setting is at or below. -/
theorem judge_unknown {path : List String} (no_exact : walk.exact path = none) (no_below : walk.below path = false)
    (rest : List String) (host : Option Host) (found : Key × Toml) : walk.judge (path ++ rest) host found = .none := by
  have beyond : ∀ entry ∈ walk.entries, ¬ path <+: entry.segments := by
    intro entry entry_mem starts
    rcases starts.length_le.lt_or_eq with shorter | same
    · rw [← Bool.not_eq_true, below_iff] at no_below
      exact no_below ⟨entry, entry_mem, shorter, starts⟩
    · exact exact_eq_none.mp no_exact entry entry_mem (starts.eq_of_length same).symm
  apply judge_eq_none
  · exact exact_eq_none.mpr fun entry entry_mem same =>
      beyond entry entry_mem (same ▸ List.prefix_append path rest)
  · rw [← Bool.not_eq_true, below_iff]
    rintro ⟨entry, entry_mem, -, starts⟩
    exact beyond entry entry_mem ((List.prefix_append path rest).trans starts)

/-! ## The walk of a table -/

/-- A key that is not where a file keeps the project's identity or its host sections. -/
def Ordinary (walk : Walk) (above : List String) (host : Option Host) (key : Key) : Prop :=
  (above.isEmpty && host.isNone) = true → key.name ≠ "host" ∧ ¬ (key.name = "project" ∧ walk.layer = .project)

/-- What the walk of an ordinary entry finds: what its place finds, then what the table under it does where
settings are below. -/
theorem item_of_ordinary {above : List String} {host : Option Host} {key : Key}
    (ordinary : walk.Ordinary above host key) (value : Toml) (is_part : Part part) :
    part (walk.item above host key value) =
      part (walk.judge (above ++ [key.name]) host (key, value)) ++
        match value with
        | .table inner =>
            if walk.exact (above ++ [key.name]) = none ∧ walk.below (above ++ [key.name]) = true then
              part (walk.table (above ++ [key.name]) host inner)
            else []
        | _ => [] := by
  have not_host : (above.isEmpty && host.isNone && decide (key.name = "host")) = false := by
    cases top : above.isEmpty && host.isNone with
    | false => rfl
    | true => simp [(ordinary top).1]
  have not_project :
      (above.isEmpty && host.isNone && decide (key.name = "project") && decide (walk.layer = .project)) = false := by
    cases top : above.isEmpty && host.isNone with
    | false => rfl
    | true => simpa using (ordinary top).2
  have leaf : ∀ value : Toml, (∀ entries, value ≠ .table entries) →
      part (walk.item above host key value) = part (walk.judge (above ++ [key.name]) host (key, value)) := by
    intro value no_table
    rw [item]
    · simp only [not_host, not_project, Bool.false_eq_true, if_false, judge]
      cases walk.exact (above ++ [key.name]) with
      | some entry => rfl
      | none =>
          cases walk.below (above ++ [key.name]) with
          | true =>
              cases value with
              | table entries => exact absurd rfl (no_table entries)
              | _ => rfl
          | false => simp [is_part.none, is_part.unknown]
    · exact no_table
  cases value with
  | table inner =>
      simp only [item, not_host, not_project, Bool.false_eq_true, if_false, judge]
      cases walk.exact (above ++ [key.name]) with
      | some entry => simp
      | none =>
          cases walk.below (above ++ [key.name]) with
          | true => simp [is_part.none]
          | false => simp [is_part.none, is_part.unknown]
  | _ => simpa using leaf _ (by simp)

theorem mem_table_iff_item (is_part : Part part) {above : List String} {host : Option Host}
    {entries : List (Key × Toml)} {x : β} :
    x ∈ part (walk.table above host entries) ↔ ∃ entry ∈ entries, x ∈ part (walk.item above host entry.1 entry.2) := by
  induction entries with
  | nil => simp [table, is_part.none]
  | cons entry entries ih => rw [table, is_part.andThen, List.mem_append, ih, List.exists_mem_cons_iff]

/-- What the places under an entry find. -/
def FoundUnder (walk : Walk) (part : Findings → List β) (path : List String) (host : Option Host)
    (entry : Key × Toml) (x : β) : Prop :=
  ∃ rest found, entryUnder rest entry = some found ∧ x ∈ part (walk.judge (path ++ rest) host found)

/-- What the places of a table find. -/
def FoundAt (walk : Walk) (part : Findings → List β) (above : List String) (host : Option Host)
    (entries : List (Key × Toml)) (x : β) : Prop :=
  ∃ path found, entryAt path entries = some found ∧ x ∈ part (walk.judge (above ++ path) host found)

theorem foundAt_iff_under {above : List String} {host : Option Host} {entries : List (Key × Toml)}
    (named_once : (names entries).Nodup) {x : β} :
    FoundAt walk part above host entries x ↔
      ∃ entry ∈ entries, FoundUnder walk part (above ++ [entry.1.name]) host entry x := by
  constructor
  · rintro ⟨path, found, leads, finds⟩
    obtain ⟨entry, entry_mem, rest, rfl, under⟩ := (entryAt_eq_some named_once).mp leads
    exact ⟨entry, entry_mem, rest, found, under, by rwa [List.append_assoc]⟩
  · rintro ⟨entry, entry_mem, rest, found, leads, finds⟩
    refine ⟨entry.1.name :: rest, found, (entryAt_eq_some named_once).mpr ⟨entry, entry_mem, rest, rfl, leads⟩, ?_⟩
    rwa [List.append_assoc] at finds

/-- What places find under an entry: its own place, and those of its table. -/
theorem foundUnder_iff {path : List String} {host : Option Host} {key : Key} {value : Toml} {x : β} :
    FoundUnder walk part path host (key, value) x ↔
      x ∈ part (walk.judge path host (key, value)) ∨
        ∃ inner, value = .table inner ∧ FoundAt walk part path host inner x := by
  constructor
  · rintro ⟨rest, found, leads, finds⟩
    cases rest with
    | nil =>
        cases leads
        rw [List.append_nil] at finds
        exact .inl finds
    | cons name rest =>
        cases value with
        | table inner => exact .inr ⟨inner, rfl, name :: rest, found, leads, finds⟩
        | _ => cases leads
  · rintro (finds | ⟨inner, rfl, rest, found, leads, finds⟩)
    · exact ⟨[], (key, value), rfl, by rwa [List.append_nil]⟩
    · refine ⟨rest, found, ?_, finds⟩
      cases rest with
      | nil => cases leads
      | cons name rest => exact leads

theorem not_foundAt_setting (is_part : Part part) (free : walk.Free) {entry : Entry}
    (entry_mem : entry ∈ walk.entries) {host : Option Host} {inner : List (Key × Toml)} {x : β} :
    ¬ FoundAt walk part entry.segments host inner x := by
  rintro ⟨path, found, leads, finds⟩
  rw [judge_inside free entry_mem (path_ne_nil_of_entryAt leads), is_part.none] at finds
  cases finds

theorem not_foundAt_unknown (is_part : Part part) {path : List String} (no_exact : walk.exact path = none)
    (no_below : walk.below path = false) {host : Option Host} {inner : List (Key × Toml)} {x : β} :
    ¬ FoundAt walk part path host inner x := by
  rintro ⟨rest, found, leads, finds⟩
  rw [judge_unknown no_exact no_below, is_part.none] at finds
  cases finds

/-- The walk of an ordinary entry finds what its places do. -/
theorem mem_item_iff (is_part : Part part) (free : walk.Free) {value : Toml} (once : NamedOnce value)
    {above : List String} {host : Option Host} {key : Key} (ordinary : walk.Ordinary above host key) {x : β} :
    x ∈ part (walk.item above host key value) ↔
      FoundUnder walk part (above ++ [key.name]) host (key, value) x := by
  rw [foundUnder_iff]
  induction value using Toml.induction generalizing above key with
  | leaf value no_table =>
      rw [item_of_ordinary ordinary value is_part, List.mem_append]
      apply or_congr_right
      cases value with
      | table entries => exact absurd rfl (no_table entries)
      | _ => simp
  | table entries ih =>
      obtain ⟨named_once, entries_once⟩ := once.of_table
      rw [item_of_ordinary ordinary _ is_part, List.mem_append]
      apply or_congr_right
      have deeper : FoundAt walk part (above ++ [key.name]) host entries x ↔
          x ∈ part (walk.table (above ++ [key.name]) host entries) := by
        rw [mem_table_iff_item is_part, foundAt_iff_under named_once]
        refine exists_congr fun entry => and_congr_right fun entry_mem => ?_
        rw [foundUnder_iff]
        exact (ih entry entry_mem (entries_once entry entry_mem) fun top => by simp at top).symm
      simp only [Toml.table.injEq, exists_eq_left']
      cases at_setting : walk.exact (above ++ [key.name]) with
      | some entry =>
          obtain ⟨entry_mem, at_path⟩ := mem_of_exact at_setting
          rw [if_neg (by simp), ← at_path]
          exact iff_of_false (by simp) (not_foundAt_setting is_part free entry_mem)
      | none =>
          cases is_below : walk.below (above ++ [key.name]) with
          | true =>
              rw [if_pos ⟨rfl, rfl⟩]
              exact deeper.symm
          | false =>
              rw [if_neg (by simp)]
              exact iff_of_false (by simp) (not_foundAt_unknown is_part at_setting is_below)

/-- The walk of a table away from the top finds what its places do. -/
theorem mem_table_iff (is_part : Part part) (free : walk.Free) {entries : List (Key × Toml)}
    (once : NamedOnce (.table entries)) {above : List String} {host : Option Host}
    (inside : (above.isEmpty && host.isNone) = false) {x : β} :
    x ∈ part (walk.table above host entries) ↔ FoundAt walk part above host entries x := by
  obtain ⟨named_once, entries_once⟩ := once.of_table
  rw [mem_table_iff_item is_part, foundAt_iff_under named_once]
  refine exists_congr fun entry => and_congr_right fun entry_mem => ?_
  exact mem_item_iff is_part free (entries_once entry entry_mem) fun top => by rw [inside] at top; cases top

/-! ## Host sections -/

/-- No setting is named where a file keeps the project's identity or its host sections. -/
def Reserves (walk : Walk) : Prop :=
  ∀ entry ∈ walk.entries, entry.segments ≠ [] ∧ entry.segments.head? ≠ some "host" ∧
    entry.segments.head? ≠ some "project"

/-- What stands where a table of host sections or a known host's section belongs, and is no table. -/
def misplaced (walk : Walk) (found : Key × Toml) (path : List String) : Findings :=
  match found.2 with
  | .table _ => .none
  | value => walk.wrongType path none found.1 value

theorem mem_hosts_iff_section (is_part : Part part) {entries : List (Key × Toml)} {x : β} :
    x ∈ part (walk.hosts entries) ↔ ∃ entry ∈ entries, x ∈ part (walk.hostSection entry.1 entry.2) := by
  induction entries with
  | nil => simp [hosts, is_part.none]
  | cons entry entries ih => rw [hosts, is_part.andThen, List.mem_append, ih, List.exists_mem_cons_iff]

theorem mem_hostSection_iff (is_part : Part part) (free : walk.Free) {key : Key} {value : Toml}
    (once : NamedOnce value) {x : β} :
    x ∈ part (walk.hostSection key value) ↔ ∃ host : Host, host.name = key.name ∧
      (x ∈ part (walk.misplaced (key, value) ["host", host.name]) ∨
        ∃ inner, value = .table inner ∧ FoundAt walk part [] (some host) inner x) := by
  cases known : Host.parse key.name with
  | none =>
      have unknown_host : ¬ ∃ host : Host, host.name = key.name := by
        rintro ⟨host, named⟩
        rw [Host.parse_eq_some.mpr named] at known
        cases known
      refine iff_of_false ?_ fun ⟨host, named, _⟩ => unknown_host ⟨host, named⟩
      cases value with
      | _ => simp [hostSection, known, is_part.diagnose]
  | some host =>
      have named := Host.parse_eq_some.mp known
      have at_host : x ∈ part (walk.hostSection key value) ↔
          x ∈ part (walk.misplaced (key, value) ["host", host.name]) ∨
            ∃ inner, value = .table inner ∧ FoundAt walk part [] (some host) inner x := by
        cases value with
        | table inner =>
            rw [hostSection, known]
            simp only [misplaced, is_part.none, List.not_mem_nil, false_or, Toml.table.injEq, exists_eq_left']
            exact mem_table_iff is_part free once (by simp)
        | _ => simp [hostSection, known, misplaced, named]
      constructor
      · exact fun finds => ⟨host, named, at_host.mp finds⟩
      · rintro ⟨other, other_named, finds⟩
        obtain rfl := Host.name_injective (other_named.trans named.symm)
        exact at_host.mpr finds

theorem mem_hosts_iff (is_part : Part part) (free : walk.Free) {entries : List (Key × Toml)}
    (once : NamedOnce (.table entries)) {x : β} :
    x ∈ part (walk.hosts entries) ↔
      ∃ host : Host, ∃ found, entryOf host.name entries = some found ∧
        (x ∈ part (walk.misplaced found ["host", host.name]) ∨
          ∃ inner, found.2 = .table inner ∧ FoundAt walk part [] (some host) inner x) := by
  obtain ⟨named_once, entries_once⟩ := once.of_table
  rw [mem_hosts_iff_section is_part]
  constructor
  · rintro ⟨entry, entry_mem, finds⟩
    obtain ⟨host, named, finds⟩ := (mem_hostSection_iff is_part free (entries_once entry entry_mem)).mp finds
    exact ⟨host, entry, (entryOf_iff_mem named_once).mpr ⟨entry_mem, named.symm⟩, finds⟩
  · rintro ⟨host, entry, held, finds⟩
    obtain ⟨entry_mem, named⟩ := (entryOf_iff_mem named_once).mp held
    exact ⟨entry, entry_mem,
      (mem_hostSection_iff is_part free (entries_once entry entry_mem)).mpr ⟨host, named.symm, finds⟩⟩

/-! ## The walk of a document -/

/-- Nothing is judged where a file keeps the project's identity or its host sections. -/
theorem judge_reserved (reserves : walk.Reserves) {name : String} (reserved : name = "host" ∨ name = "project")
    (path : List String) (host : Option Host) (found : Key × Toml) :
    walk.judge (name :: path) host found = .none := by
  have elsewhere : ∀ entry ∈ walk.entries, ¬ (name :: path) <+: entry.segments := by
    intro entry entry_mem starts
    obtain ⟨rest, same⟩ := starts
    obtain ⟨-, not_host, not_project⟩ := reserves entry entry_mem
    rw [← same] at not_host not_project
    rcases reserved with rfl | rfl
    · exact not_host rfl
    · exact not_project rfl
  apply judge_eq_none
  · exact exact_eq_none.mpr fun entry entry_mem same => elsewhere entry entry_mem (same ▸ List.prefix_rfl)
  · rw [← Bool.not_eq_true, below_iff]
    rintro ⟨entry, entry_mem, -, starts⟩
    exact elsewhere entry entry_mem starts

theorem not_foundUnder_reserved (is_part : Part part) (reserves : walk.Reserves) {entry : Key × Toml}
    (reserved : entry.1.name = "host" ∨ entry.1.name = "project") {host : Option Host} {x : β} :
    ¬ FoundUnder walk part [entry.1.name] host entry x := by
  rintro ⟨rest, found, leads, finds⟩
  rw [List.singleton_append, judge_reserved reserves reserved, is_part.none] at finds
  cases finds

theorem mem_item_host {key : Key} (named : key.name = "host") (value : Toml) (is_part : Part part) {x : β} :
    x ∈ part (walk.item [] none key value) ↔
      x ∈ part (walk.misplaced (key, value) ["host"]) ∨ ∃ inner, value = .table inner ∧ x ∈ part (walk.hosts inner) := by
  cases value with
  | _ => simp [item, misplaced, named, is_part.none]

/-- What an entry at the top of a file finds. -/
theorem mem_item_top_iff (is_part : Part part) (free : walk.Free) (reserves : walk.Reserves) {entry : Key × Toml}
    (once : NamedOnce entry.2) {x : β} :
    x ∈ part (walk.item [] none entry.1 entry.2) ↔
      FoundUnder walk part [entry.1.name] none entry x ∨ (entry.1.name = "host" ∧
        (x ∈ part (walk.misplaced entry ["host"]) ∨ ∃ inner, entry.2 = .table inner ∧ x ∈ part (walk.hosts inner))) := by
  by_cases at_host : entry.1.name = "host"
  · rw [mem_item_host at_host _ is_part, or_iff_right (not_foundUnder_reserved is_part reserves (.inl at_host)),
      and_iff_right at_host]
  · rw [or_iff_left fun reserved => at_host reserved.1]
    by_cases identity : entry.1.name = "project" ∧ walk.layer = .project
    · refine iff_of_false ?_ (not_foundUnder_reserved is_part reserves (.inr identity.1))
      cases entry.2 with
      | _ => simp [item, identity, is_part.none]
    · exact mem_item_iff is_part free once fun _ => ⟨at_host, identity⟩

/-- What the places of a document find, and where its host sections are not the tables they belong as. -/
def Finds (walk : Walk) (part : Findings → List β) (entries : List (Key × Toml)) (x : β) : Prop :=
  (∃ host inner, sectionOf host entries = some inner ∧ FoundAt walk part [] host inner x) ∨
    (∃ found, entryAt ["host"] entries = some found ∧ x ∈ part (walk.misplaced found ["host"])) ∨
      ∃ host : Host, ∃ found, entryAt ["host", host.name] entries = some found ∧
        x ∈ part (walk.misplaced found ["host", host.name])

/-- The walk of a document finds what its places do. -/
theorem mem_document_iff (is_part : Part part) (free : walk.Free) (reserves : walk.Reserves)
    {entries : List (Key × Toml)} (once : NamedOnce (.table entries)) {x : β} :
    x ∈ part (walk.table [] none entries) ↔ Finds walk part entries x := by
  obtain ⟨named_once, entries_once⟩ := once.of_table
  rw [mem_table_iff_item is_part]
  constructor
  · rintro ⟨entry, entry_mem, finds⟩
    rcases (mem_item_top_iff is_part free reserves (entries_once entry entry_mem)).mp finds with
      under | ⟨at_host, found | ⟨inner, is_table, found⟩⟩
    · exact .inl ⟨none, entries, rfl, (foundAt_iff_under named_once).mpr ⟨entry, entry_mem, under⟩⟩
    · refine .inr (.inl ⟨entry, ?_, found⟩)
      rw [entryAt_one, entryOf_iff_mem named_once]
      exact ⟨entry_mem, at_host⟩
    · have held : entryOf "host" entries = some entry := (entryOf_iff_mem named_once).mpr ⟨entry_mem, at_host⟩
      have inner_once : NamedOnce (.table inner) := is_table ▸ entries_once entry entry_mem
      obtain ⟨host, section_entry, inside, found⟩ := (mem_hosts_iff is_part free inner_once).mp found
      have leads := entryAt_two.mpr ⟨entry, inner, held, is_table, inside⟩
      rcases found with found | ⟨deeper, is_section, found⟩
      · exact .inr (.inr ⟨host, section_entry, leads, found⟩)
      · exact .inl ⟨some host, deeper, sectionOf_some.mpr ⟨section_entry, leads, is_section⟩, found⟩
  · have of_section : ∀ (host : Host) (found : Key × Toml),
        entryAt ["host", host.name] entries = some found →
        (x ∈ part (walk.misplaced found ["host", host.name]) ∨
          ∃ inner, found.2 = .table inner ∧ FoundAt walk part [] (some host) inner x) →
        ∃ entry ∈ entries, x ∈ part (walk.item [] none entry.1 entry.2) := by
      intro host found leads finds
      obtain ⟨entry, inner, held, is_table, inside⟩ := entryAt_two.mp leads
      obtain ⟨entry_mem, at_host⟩ := mem_of_entryOf held
      have inner_once : NamedOnce (.table inner) := is_table ▸ entries_once entry entry_mem
      refine ⟨entry, entry_mem, (mem_item_top_iff is_part free reserves (entries_once entry entry_mem)).mpr ?_⟩
      exact .inr ⟨at_host, .inr ⟨inner, is_table,
        (mem_hosts_iff is_part free inner_once).mpr ⟨host, found, inside, finds⟩⟩⟩
    rintro (⟨_ | host, inner, at_section, finds⟩ | ⟨entry, leads, finds⟩ | ⟨host, found, leads, finds⟩)
    · obtain rfl := Option.some.inj at_section
      obtain ⟨entry, entry_mem, under⟩ := (foundAt_iff_under named_once).mp finds
      exact ⟨entry, entry_mem,
        (mem_item_top_iff is_part free reserves (entries_once entry entry_mem)).mpr (.inl under)⟩
    · obtain ⟨found, leads, is_table⟩ := sectionOf_some.mp at_section
      exact of_section host found leads (.inr ⟨inner, is_table, finds⟩)
    · rw [entryAt_one] at leads
      obtain ⟨entry_mem, at_host⟩ := mem_of_entryOf leads
      exact ⟨entry, entry_mem,
        (mem_item_top_iff is_part free reserves (entries_once entry entry_mem)).mpr (.inr ⟨at_host, .inl finds⟩)⟩
    · exact of_section host found leads (.inl finds)

end Walk

end Baley.Config
