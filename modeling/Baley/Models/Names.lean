import Mathlib.Data.List.Basic

/-!
# The model catalog's names

The catalogs Baley keeps model names in, how an accepted name got there, and the rows of the hint
table.
-/

namespace Baley.Models

/-- A model vendor Baley reaches by key. -/
inductive Provider where
  | openAi
  | deepSeek
  deriving DecidableEq

namespace Provider

/-- Every provider, in the catalog's order. -/
def all : List Provider := [openAi, deepSeek]

def name : Provider → String
  | openAi => "openai"
  | deepSeek => "deepseek"

def parse (name : String) : Option Provider :=
  all.find? fun provider => provider.name = name

@[simp]
theorem parse_name (provider : Provider) : parse provider.name = some provider := by
  cases provider <;> rfl

theorem mem_all (provider : Provider) : provider ∈ all := by
  cases provider <;> simp [all]

end Provider

/-- How capable a model is within its provider. -/
inductive Tier where
  | flagship
  | balanced
  | cheap
  deriving DecidableEq

namespace Tier

def all : List Tier := [flagship, balanced, cheap]

def name : Tier → String
  | flagship => "flagship"
  | balanced => "balanced"
  | cheap => "cheap"

def parse (name : String) : Option Tier :=
  all.find? fun tier => tier.name = name

@[simp]
theorem parse_name (tier : Tier) : parse tier.name = some tier := by
  cases tier <;> rfl

end Tier

inductive Host where
  | claudeCode
  deriving DecidableEq

def Host.name : Host → String
  | claudeCode => "claude-code"

/-- One catalog: a host's or a provider's. -/
inductive Catalog where
  | host (known : Host)
  | provider (vendor : Provider)
  deriving DecidableEq

namespace Catalog

def all : List Catalog := [host .claudeCode, provider .openAi, provider .deepSeek]

def name : Catalog → String
  | .host known => known.name
  | .provider vendor => vendor.name

def parse (name : String) : Option Catalog :=
  all.find? fun catalog => catalog.name = name

@[simp]
theorem parse_name (catalog : Catalog) : parse catalog.name = some catalog := by
  rcases catalog with ⟨_ | _⟩ | ⟨_ | _⟩ <;> rfl

theorem name_injective : Function.Injective name := by
  intro catalog other same
  apply Option.some.inj
  rw [← parse_name, ← parse_name, same]

/-- The state document's key text is no catalog's name. -/
theorem name_ne_state (catalog : Catalog) : catalog.name ≠ "state" := by
  rcases catalog with ⟨_ | _⟩ | ⟨_ | _⟩ <;> decide

end Catalog

/-- Where a stored name came from. -/
inductive Source where
  /-- The hint table. -/
  | seed
  /-- A provider's list endpoint. -/
  | detected
  | owner
  deriving DecidableEq

namespace Source

def name : Source → String
  | seed => "seed"
  | detected => "detected"
  | owner => "owner"

def parseStored (name : String) : Option Source :=
  [seed, detected, owner].find? fun source => source.name = name

@[simp]
theorem parseStored_name (source : Source) : parseStored source.name = some source := by
  cases source <;> rfl

end Source

/-- How an entry got its tier. -/
inductive Placement where
  /-- An exact row of the hint table. -/
  | hint
  /-- A prefix row. -/
  | prefixed
  | bestFit
  | owner
  deriving DecidableEq

namespace Placement

def name : Placement → String
  | hint => "hint"
  | prefixed => "prefix"
  | bestFit => "best-fit"
  | owner => "owner"

def parse (name : String) : Option Placement :=
  [hint, prefixed, bestFit, owner].find? fun placed => placed.name = name

@[simp]
theorem parse_name (placed : Placement) : parse placed.name = some placed := by
  cases placed <;> rfl

end Placement

/-- A hint for one exact model id. -/
structure HintRow where
  provider : Provider
  id : String
  tier : Tier
  highEffort : Bool

/-- A hint for every id that starts with a prefix and no exact row names. -/
structure PrefixRow where
  provider : Provider
  start : String
  tier : Tier
  highEffort : Bool

/-- What the owner did to one name; a removal holds no tier. -/
inductive OwnerChange where
  | added (tier : Option Tier)
  | removed

end Baley.Models
