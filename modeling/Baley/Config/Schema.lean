import Mathlib.Algebra.Ring.Int.Defs
import Mathlib.Data.List.Nodup
import Mathlib.Data.String.Basic
import Baley.Blank

/-!
# The settings schema

The places a settings text is written at, and each setting Baley reads with its kind, default and scope.  A
schema names a setting once and gives it a default that fits.
-/

namespace Baley.Config

/-- A key of a table, and where it and its value are written. -/
structure Key where
  name : String
  start : Nat
  valueStart : Nat
  deriving DecidableEq

inductive Toml where
  | string (text : String)
  /-- An integer's digits with their sign, and the radix they are written in. -/
  | integer (radix : Nat) (digits : String)
  | float (text : String)
  | boolean (value : Bool)
  | datetime (text : String)
  /-- Items, each with where it starts. -/
  | array (items : List (Nat × Toml))
  | table (entries : List (Key × Toml))

namespace Toml

/-- The name of a value's type. -/
def typeStr : Toml → String
  | string _ => "string"
  | integer .. => "integer"
  | float _ => "float"
  | boolean _ => "boolean"
  | datetime _ => "datetime"
  | array _ => "array"
  | table _ => "table"

def asStr : Toml → Option String
  | string text => some text
  | _ => none

/-- Induction over a document, with one hypothesis for each entry of a table. -/
theorem induction {motive : Toml → Prop}
    (leaf : ∀ value, (∀ entries, value ≠ .table entries) → motive value)
    (table : ∀ entries : List (Key × Toml), (∀ entry ∈ entries, motive entry.2) → motive (.table entries))
    (value : Toml) : motive value := by
  refine @Toml.rec motive (fun _ => True) (fun entries => ∀ entry ∈ entries, motive entry.2)
    (fun _ => True) (fun entry => motive entry.2)
    (fun _ => leaf _ (by simp)) (fun _ _ => leaf _ (by simp)) (fun _ => leaf _ (by simp))
    (fun _ => leaf _ (by simp)) (fun _ => leaf _ (by simp)) (fun _ _ => leaf _ (by simp)) table
    trivial (fun _ _ _ _ => trivial) (by simp) ?_ (fun _ _ _ => trivial) (fun _ _ holds => holds) value
  intro head tail head_holds tail_holds entry entry_mem
  rcases List.mem_cons.mp entry_mem with rfl | entry_mem
  · exact head_holds
  · exact tail_holds entry entry_mem

end Toml

/-- The names of a table's entries. -/
def names (entries : List (Key × Toml)) : List String := entries.map fun entry => entry.1.name

/-- The entry of a name. -/
def entryOf (name : String) (entries : List (Key × Toml)) : Option (Key × Toml) :=
  entries.find? fun entry => entry.1.name = name

/-- Every table of a document names a key once. -/
inductive NamedOnce : Toml → Prop
  | leaf {value : Toml} (no_table : ∀ entries, value ≠ .table entries) : NamedOnce value
  | table {entries : List (Key × Toml)} (named_once : (names entries).Nodup)
      (entries_once : ∀ entry ∈ entries, NamedOnce entry.2) : NamedOnce (.table entries)

theorem NamedOnce.of_table {entries : List (Key × Toml)} (once : NamedOnce (.table entries)) :
    (names entries).Nodup ∧ ∀ entry ∈ entries, NamedOnce entry.2 := by
  cases once with
  | leaf no_table => exact absurd rfl (no_table entries)
  | table named_once entries_once => exact ⟨named_once, entries_once⟩

theorem NamedOnce.one (key : Key) {value : Toml} (once : NamedOnce value) : NamedOnce (.table [(key, value)]) := by
  refine .table (List.nodup_singleton _) fun entry entry_mem => ?_
  rw [List.mem_singleton.mp entry_mem]
  exact once

theorem entryOf_eq_some {entries : List (Key × Toml)} (named_once : (names entries).Nodup) {entry : Key × Toml}
    (entry_mem : entry ∈ entries) : entryOf entry.1.name entries = some entry := by
  induction entries with
  | nil => cases entry_mem
  | cons head entries ih =>
      rw [names, List.map_cons, List.nodup_cons] at named_once
      rw [entryOf, List.find?_cons]
      rcases List.mem_cons.mp entry_mem with rfl | entry_mem
      · simp
      · have other : head.1.name ≠ entry.1.name := fun same =>
          named_once.1 (List.mem_map.mpr ⟨entry, entry_mem, same.symm⟩)
        rw [decide_eq_false other]
        exact ih named_once.2 entry_mem

theorem mem_of_entryOf {entries : List (Key × Toml)} {name : String} {entry : Key × Toml}
    (found : entryOf name entries = some entry) : entry ∈ entries ∧ entry.1.name = name :=
  ⟨List.mem_of_find?_eq_some found, by simpa using List.find?_some found⟩

theorem entryOf_iff_mem {entries : List (Key × Toml)} (named_once : (names entries).Nodup) {name : String}
    {entry : Key × Toml} : entryOf name entries = some entry ↔ entry ∈ entries ∧ entry.1.name = name := by
  constructor
  · exact mem_of_entryOf
  · rintro ⟨entry_mem, rfl⟩
    exact entryOf_eq_some named_once entry_mem

/-- What some names lead to from an entry, each a key of the table before. -/
def entryUnder : List String → Key × Toml → Option (Key × Toml)
  | [], entry => some entry
  | name :: path, (_, .table entries) => (entryOf name entries).bind (entryUnder path)
  | _ :: _, _ => none

/-- What some names lead to from a table. -/
def entryAt : List String → List (Key × Toml) → Option (Key × Toml)
  | [], _ => none
  | name :: path, entries => (entryOf name entries).bind (entryUnder path)

/-! ## Names -/

/-- A role Baley routes, in the design's order. -/
inductive Role where
  | planner
  | analyzer
  | checker
  | executor
  | verifier
  | reviewer
  deriving DecidableEq

def Role.all : List Role := [planner, analyzer, checker, executor, verifier, reviewer]

def Role.name : Role → String
  | planner => "planner"
  | analyzer => "analyzer"
  | checker => "checker"
  | executor => "executor"
  | verifier => "verifier"
  | reviewer => "reviewer"

/-- An effort level, from least to most. -/
inductive Rung where
  | low
  | medium
  | high
  | xhigh
  | max
  deriving DecidableEq

def Rung.all : List Rung := [low, medium, high, xhigh, max]

def Rung.name : Rung → String
  | low => "low"
  | medium => "medium"
  | high => "high"
  | xhigh => "xhigh"
  | max => "max"

/-- The rung with exactly this name, if any. -/
def Rung.parse (name : String) : Option Rung := Rung.all.find? fun rung => rung.name = name

/-- What the guard does with a commit on a protected branch. -/
inductive OnProtected where
  | ask
  | refuse
  | allow
  deriving DecidableEq

def OnProtected.all : List OnProtected := [ask, refuse, allow]

def OnProtected.name : OnProtected → String
  | ask => "ask"
  | refuse => "refuse"
  | allow => "allow"

def OnProtected.parse (name : String) : Option OnProtected := OnProtected.all.find? fun value => value.name = name

/-- A host whose section a settings file may hold. -/
inductive Host where
  | claudeCode
  deriving DecidableEq

def Host.all : List Host := [claudeCode]

def Host.name : Host → String
  | claudeCode => "claude-code"

def Host.parse (name : String) : Option Host := Host.all.find? fun host => host.name = name

theorem Host.parse_eq_some {name : String} {host : Host} : Host.parse name = some host ↔ host.name = name := by
  cases host
  rw [parse, all, List.find?_cons]
  by_cases same : Host.claudeCode.name = name
  · simp [same]
  · simp [same]

theorem Host.name_injective : Function.Injective Host.name := by
  intro host other same
  exact Option.some.inj ((Host.parse_eq_some.mpr same).symm.trans (Host.parse_eq_some.mpr rfl))

/-- Where a host's section stands in a file, and nothing for the file's top level. -/
def hostPath : Option Host → List String
  | some host => ["host", host.name]
  | none => []

/-! ## Kinds -/

/-- Which files may set a setting. -/
inductive Scope where
  | global
  | project
  | both
  deriving DecidableEq

/-- The type or grammar a setting's value must have. -/
inductive Kind where
  | bool
  | rung
  | modelName
  | remoteName
  | onProtected
  | branchList
  | reviewerList
  | httpsAddress
  | personName
  | capacity
  | command
  deriving DecidableEq

def reviewerNames : List String := ["host", "openai", "deepseek"]

/-- A Unicode control character. -/
def isControl (c : Char) : Bool := c.toNat < 0x20 || (0x7f ≤ c.toNat && c.toNat ≤ 0x9f)

/-- Whether a text is an `https://` address: the scheme, at least one more character, and no white space,
control character, query or fragment. -/
def isHttpsAddress (text : String) : Bool :=
  let scheme := "https://".toList
  scheme.isPrefixOf text.toList && text.toList.length ≠ scheme.length &&
    !(text.toList.any fun c => isWhiteSpace c || isControl c) &&
    !(text.toList.any fun c => c == '?' || c == '#')

/-- Whether a text is a person's name: not blank, and no control character. -/
def isPersonName (text : String) : Bool := !isBlank text && !text.toList.any isControl

/-! ## Entries -/

/-- A setting's built-in value. -/
inductive Default where
  | absent
  | bool (value : Bool)
  | rung (value : Rung)
  | onProtected (value : OnProtected)
  | branchList (names : List String)
  | reviewerList (names : List String)
  deriving DecidableEq

def Default.fits : Default → Kind → Bool
  | .absent, _ => true
  | .bool _, .bool => true
  | .rung _, .rung => true
  | .onProtected _, .onProtected => true
  | .branchList _, .branchList => true
  | .reviewerList _, .reviewerList => true
  | _, _ => false

/-- One setting in the schema. -/
structure Entry where
  /-- The dotted name. -/
  name : String
  kind : Kind
  /-- The value when no file writes it. -/
  otherwise : Default
  scope : Scope
  /-- The design document that owns its meaning. -/
  owner : String
  deriving DecidableEq

/-- The parts of a dotted name. -/
def dotted (name : String) : List String := (name.toList.splitOn '.').map String.ofList

def Entry.segments (entry : Entry) : List String := dotted entry.name

/-- Every setting Baley reads, each named once and with a default that fits. -/
structure Schema where
  entries : List Entry
  named_once : (entries.map Entry.name).Nodup
  defaults_fit : ∀ entry ∈ entries, entry.otherwise.fits entry.kind = true

/-- A role's starting rung. -/
def startingRung : Role → Rung
  | .reviewer => .medium
  | .checker => .low
  | _ => .high

def standardEntries : List Entry :=
  (Role.all.flatMap fun role =>
    [{ name := "roles." ++ role.name ++ ".model", kind := .modelName, otherwise := .absent, scope := .both,
       owner := "0003" },
      { name := "roles." ++ role.name ++ ".effort", kind := .rung, otherwise := .rung (startingRung role),
        scope := .both, owner := "0003" }]) ++
  [{ name := "escalate_on_failure", kind := .bool, otherwise := .bool false, scope := .both, owner := "0003" },
    { name := "git.remote", kind := .remoteName, otherwise := .absent, scope := .project, owner := "0001" },
    { name := "git.protected_branches", kind := .branchList, otherwise := .branchList ["main", "master"],
      scope := .project, owner := "0010" },
    { name := "git.on_protected", kind := .onProtected, otherwise := .onProtected .ask, scope := .project,
      owner := "0010" },
    { name := "git.guard_hard_fail", kind := .bool, otherwise := .bool false, scope := .project, owner := "0010" },
    { name := "updates.auto", kind := .bool, otherwise := .bool false, scope := .global, owner := "0012" },
    { name := "updates.source", kind := .httpsAddress, otherwise := .absent, scope := .global, owner := "0012" },
    { name := "review.reviewers", kind := .reviewerList, otherwise := .reviewerList ["host"], scope := .both,
      owner := "0008" },
    { name := "owner.name", kind := .personName, otherwise := .absent, scope := .global, owner := "0012" },
    { name := "planning.phase_capacity", kind := .capacity, otherwise := .absent, scope := .both, owner := "0005" },
    { name := "workflow.test_command", kind := .command, otherwise := .absent, scope := .project, owner := "0006" }]

theorem standardEntries_named_once : (standardEntries.map Entry.name).Nodup := by decide

theorem standardEntries_defaults_fit :
    (standardEntries.all fun entry => entry.otherwise.fits entry.kind) = true := by decide

/-- The schema Baley is built with. -/
def Schema.standard : Schema where
  entries := standardEntries
  named_once := standardEntries_named_once
  defaults_fit := List.all_eq_true.mp standardEntries_defaults_fit

/-- No setting lies inside another, and none is named where a file keeps a project's identity or its host
sections. -/
structure Schema.Apart (schema : Schema) : Prop where
  nonempty : ∀ entry ∈ schema.entries, entry.segments ≠ []
  prefix_free : ∀ entry ∈ schema.entries, ∀ other ∈ schema.entries,
    entry.segments <+: other.segments → entry = other
  reserved : ∀ entry ∈ schema.entries, entry.segments.head? ≠ some "host" ∧ entry.segments.head? ≠ some "project"

theorem standardEntries_apart :
    (standardEntries.all fun entry =>
      entry.segments ≠ [] && entry.segments.head? ≠ some "host" && entry.segments.head? ≠ some "project" &&
        standardEntries.all fun other => !entry.segments.isPrefixOf other.segments || entry = other) = true := by
  decide +kernel

theorem apart_standard : Schema.standard.Apart := by
  have each := List.all_eq_true.mp standardEntries_apart
  simp only [Bool.and_eq_true, decide_eq_true_eq, List.all_eq_true, Bool.or_eq_true, Bool.not_eq_true'] at each
  constructor
  · exact fun entry entry_mem => (each entry entry_mem).1.1.1
  · intro entry entry_mem other other_mem starts
    refine ((each entry entry_mem).2 other other_mem).resolve_left ?_
    rw [List.isPrefixOf_iff_prefix.mpr starts]
    exact Bool.true_eq_false_eq_False
  · exact fun entry entry_mem => ⟨(each entry entry_mem).1.1.2, (each entry entry_mem).1.2⟩

/-- Where a setting stands in a file, at its top level or in a host's section. -/
def Entry.place (entry : Entry) (host : Option Host) : List String := hostPath host ++ entry.segments

/-- No setting's place lies inside another's. -/
theorem Schema.Apart.place_prefix {schema : Schema} (apart : schema.Apart) {entry other : Entry}
    (entry_mem : entry ∈ schema.entries) (other_mem : other ∈ schema.entries) {host host' : Option Host}
    (starts : entry.place host <+: other.place host') : entry = other ∧ host = host' := by
  have not_host : ∀ entry ∈ schema.entries, ∀ rest, entry.segments ≠ "host" :: rest := by
    intro entry entry_mem rest same
    have reserved := (apart.reserved entry entry_mem).1
    rw [same] at reserved
    exact reserved rfl
  cases host with
  | none =>
      cases host' with
      | none => exact ⟨apart.prefix_free entry entry_mem other other_mem starts, rfl⟩
      | some host' =>
          obtain ⟨rest, same⟩ := starts
          cases segments : entry.segments with
          | nil => exact absurd segments (apart.nonempty entry entry_mem)
          | cons first tail =>
              rw [Entry.place, segments] at same
              exact absurd (segments.trans (congrArg (· :: tail) (List.cons.inj same).1)) (not_host entry entry_mem tail)
  | some host =>
      cases host' with
      | none =>
          obtain ⟨rest, same⟩ := starts
          exact absurd same.symm (not_host other other_mem _)
      | some host' =>
          obtain ⟨named, starts⟩ := List.cons_prefix_cons.mp (List.cons_prefix_cons.mp starts).2
          exact ⟨apart.prefix_free entry entry_mem other other_mem starts,
            congrArg some (Host.name_injective named)⟩

end Baley.Config
