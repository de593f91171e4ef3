import Mathlib.Data.List.Basic
import Baley.Members
import Baley.Models.Names
import Baley.TreeMap
import Baley.View

/-!
# The documents of the `model_catalog` view

One document per catalog holding its entries in id order, and one state document holding the catalog
version and the latest seeded hint version.
-/

namespace Baley.Models

open Json

/-- The project that holds what is known for the user, the model catalog among it. -/
def userProject : ProjectId := "user"

def modelCatalogView : String := "model_catalog"

def catalogKey (catalog : Catalog) : DocKey := [.text catalog.name]

def stateKey : DocKey := [.text "state"]

/-- One id in a catalog document. -/
structure Entry where
  id : String
  source : Source
  /-- Absent only for an owner entry that never had one. -/
  tier : Option Tier
  highEffort : Bool
  placed : Placement
  firstSeen : String
  /-- Absent until a detection sets it. -/
  lastVerified : Option String
  /-- The sequence of the event that last made the id accepted. -/
  acceptedSeq : Option Nat
  /-- Kept so that no seed or detection brings the id back. -/
  ownerRemoved : Bool
  deriving DecidableEq

abbrev Entries := Std.TreeMap String Entry

/-- A text as a message shows it. -/
def shown (text : String) : String := "\"" ++ text ++ "\""

/-! ## Reading members -/

def text (object : Value) (field : String) : Except String String :=
  .ofOption (field ++ " is missing or not text") ((object.get? field).bind Value.asStr)

def optionalText (object : Value) (field : String) : Except String (Option String) :=
  match object.get? field with
  | none => .ok none
  | some _ => (text object field).map some

def flag (object : Value) (field : String) : Except String Bool :=
  .ofOption (field ++ " is missing or not true or false") ((object.get? field).bind asBool)

def number (object : Value) (field : String) : Except String Nat :=
  .ofOption (field ++ " is missing or not a whole number") ((object.get? field).bind Value.asU64)

def optionalNumber (object : Value) (field : String) : Except String (Option Nat) :=
  match object.get? field with
  | none => .ok none
  | some _ => (number object field).map some

def tier (object : Value) : Except String Tier := do
  let name ← text object "tier"
  .ofOption ("tier " ++ shown name ++ " is no tier") (Tier.parse name)

def optionalTier (object : Value) : Except String (Option Tier) :=
  match object.get? "tier" with
  | none => .ok none
  | some _ => (tier object).map some

def provider (object : Value) : Except String Provider := do
  let name ← text object "provider"
  .ofOption ("provider " ++ shown name ++ " is no provider") (Provider.parse name)

def catalog (object : Value) : Except String Catalog := do
  let name ← text object "catalog"
  .ofOption ("catalog " ++ shown name ++ " is no catalog") (Catalog.parse name)

section Reading

variable {object : Value} {field : String}

theorem text_of_get? {written : String} (held : object.get? field = some (.string written)) :
    text object field = .ok written := by
  simp [text, held, Except.ofOption]

theorem optionalText_of_get? {written : Option String}
    (held : object.get? field = written.map .string) : optionalText object field = .ok written := by
  unfold optionalText
  cases written with
  | none =>
      rw [held]
      rfl
  | some written =>
      rw [held, text_of_get? held]
      rfl

theorem flag_of_get? {written : Bool} (held : object.get? field = some (.bool written)) :
    flag object field = .ok written := by
  simp [flag, held, asBool, Except.ofOption]

theorem number_of_get? {written : Nat} (held : object.get? field = some (.ofNat written))
    (fits : written < 2 ^ 64) : number object field = .ok written := by
  simp [number, held, Value.asU64_ofNat fits, Except.ofOption]

theorem optionalNumber_of_get? {written : Option Nat}
    (held : object.get? field = written.map .ofNat) (fits : ∀ n ∈ written, n < 2 ^ 64) :
    optionalNumber object field = .ok written := by
  unfold optionalNumber
  cases written with
  | none =>
      rw [held]
      rfl
  | some written =>
      rw [held, number_of_get? held (fits written rfl)]
      rfl

theorem tier_of_get? {written : Tier} (held : object.get? "tier" = some (.string written.name)) :
    tier object = .ok written := by
  simp [tier, text_of_get? held, Except.ofOption, bind, Except.bind]

theorem optionalTier_of_get? {written : Option Tier}
    (held : object.get? "tier" = written.map fun tier => .string tier.name) :
    optionalTier object = .ok written := by
  unfold optionalTier
  cases written with
  | none =>
      rw [held]
      rfl
  | some written =>
      rw [held, tier_of_get? held]
      rfl

theorem provider_of_get? {written : Provider}
    (held : object.get? "provider" = some (.string written.name)) :
    provider object = .ok written := by
  simp [provider, text_of_get? held, Except.ofOption, bind, Except.bind]

theorem catalog_of_get? {written : Catalog}
    (held : object.get? "catalog" = some (.string written.name)) :
    catalog object = .ok written := by
  simp [catalog, text_of_get? held, Except.ofOption, bind, Except.bind]

end Reading

/-! ## Entries -/

namespace Entry

def toValue (entry : Entry) : Value :=
  .ofEntries
    ([("id", .string entry.id), ("source", .string entry.source.name)] ++
      Members.optional "tier" (entry.tier.map fun tier => .string tier.name) ++
      [("high_effort", .bool entry.highEffort), ("placed", .string entry.placed.name),
        ("first_seen", .string entry.firstSeen)] ++
      Members.optional "last_verified" (entry.lastVerified.map .string) ++
      Members.optional "accepted_seq" (entry.acceptedSeq.map .ofNat) ++
      [("owner_removed", .bool entry.ownerRemoved)])

def fromValue (value : Value) : Except String Entry := do
  let source ← text value "source"
  let placed ← text value "placed"
  let id ← text value "id"
  let source ← .ofOption ("unknown source " ++ shown source) (Source.parseStored source)
  let tier ← optionalTier value
  let highEffort ← flag value "high_effort"
  let placed ← .ofOption ("unknown placement " ++ shown placed) (Placement.parse placed)
  let firstSeen ← text value "first_seen"
  let lastVerified ← optionalText value "last_verified"
  let acceptedSeq ← optionalNumber value "accepted_seq"
  let ownerRemoved ← flag value "owner_removed"
  .ok
    { id, source, tier, highEffort, placed, firstSeen, lastVerified, acceptedSeq, ownerRemoved }

def accepted (entry : Entry) : Bool := !entry.ownerRemoved

/-- Every number of the entry fits the width it is read in. -/
def Fits (entry : Entry) : Prop := ∀ seq ∈ entry.acceptedSeq, seq < 2 ^ 64

/-- The members a written entry holds. -/
theorem get?_toValue (entry : Entry) :
    entry.toValue.get? "id" = some (.string entry.id) ∧
      entry.toValue.get? "source" = some (.string entry.source.name) ∧
      entry.toValue.get? "tier" = (entry.tier.map fun tier => .string tier.name) ∧
      entry.toValue.get? "high_effort" = some (.bool entry.highEffort) ∧
      entry.toValue.get? "placed" = some (.string entry.placed.name) ∧
      entry.toValue.get? "first_seen" = some (.string entry.firstSeen) ∧
      entry.toValue.get? "last_verified" = entry.lastVerified.map .string ∧
      entry.toValue.get? "accepted_seq" = entry.acceptedSeq.map .ofNat ∧
      entry.toValue.get? "owner_removed" = some (.bool entry.ownerRemoved) := by
  obtain ⟨id, source, tier, highEffort, placed, firstSeen, lastVerified, acceptedSeq, ownerRemoved⟩ :=
    entry
  cases tier <;> cases lastVerified <;> cases acceptedSeq <;> simp [toValue, Members.optional]

theorem fromValue_toValue {entry : Entry} (fits : entry.Fits) :
    fromValue entry.toValue = .ok entry := by
  obtain ⟨id_eq, source_eq, tier_eq, effort_eq, placed_eq, seen_eq, verified_eq, seq_eq, removed_eq⟩ :=
    entry.get?_toValue
  simp only [fromValue, text_of_get? id_eq, text_of_get? source_eq, text_of_get? placed_eq,
    text_of_get? seen_eq, optionalTier_of_get? tier_eq, flag_of_get? effort_eq,
    flag_of_get? removed_eq, optionalText_of_get? verified_eq, optionalNumber_of_get? seq_eq fits,
    Source.parseStored_name, Placement.parse_name, Except.ofOption, bind, Except.bind]

end Entry

/-! ## Catalog documents -/

/-- A catalog document's entries by id, or none for an absent document. -/
def readEntries : Option Value → Except String Entries
  | none => .ok ∅
  | some body => do
      let entries ← .ofOption "a catalog document without entries"
        ((body.get? "entries").bind Value.asArray)
      let entries ← entries.mapM Entry.fromValue
      .ok (.ofList (entries.map fun entry => (entry.id, entry)))

namespace Entries

variable (entries : Entries)

/-- The entries in id order. -/
def values : List Entry := entries.toList.map Prod.snd

def acceptedIds : List String := (entries.values.filter Entry.accepted).map Entry.id

/-- Each entry stands under its own id, and its numbers fit. -/
def Sound : Prop :=
  ∀ (id : String) (entry : Entry), entries[id]? = some entry → entry.id = id ∧ entry.Fits

end Entries

def catalogBody (catalog : Catalog) (entries : Entries) : Value :=
  .ofEntries
    [("catalog", .string catalog.name), ("entries", .array (entries.values.map Entry.toValue))]

theorem mapM_ok_map {α β ε : Type} {read : β → Except ε α} {write : α → β} {items : List α}
    (reads : ∀ item ∈ items, read (write item) = .ok item) :
    (items.map write).mapM read = .ok items := by
  induction items with
  | nil => rfl
  | cons item items ih =>
      have rest_eq := ih fun other other_mem => reads other (List.mem_cons_of_mem _ other_mem)
      rw [List.map_cons, List.mapM_cons, reads item List.mem_cons_self, rest_eq]
      rfl

/-- A catalog document reads back as the entries it was written from. -/
theorem readEntries_catalogBody {entries : Entries} (sound : entries.Sound) (catalog : Catalog) :
    ∃ read, readEntries (some (catalogBody catalog entries)) = .ok read ∧
      ∀ id : String, read[id]? = entries[id]? := by
  have of_mem : ∀ id entry, (id, entry) ∈ entries.toList → entry.id = id ∧ entry.Fits := by
    intro id entry entry_mem
    exact sound id entry (Std.TreeMap.mem_toList_iff_getElem?_eq_some.mp entry_mem)
  have reads : (entries.values.map Entry.toValue).mapM Entry.fromValue = .ok entries.values := by
    apply mapM_ok_map
    intro entry entry_mem
    obtain ⟨⟨id, held⟩, held_mem, rfl⟩ := List.mem_map.mp entry_mem
    exact Entry.fromValue_toValue (of_mem id held held_mem).2
  have keyed : (entries.values.map fun entry => (entry.id, entry)) = entries.toList := by
    rw [Entries.values, List.map_map]
    apply (List.map_congr_left ?_).trans (List.map_id _)
    rintro ⟨id, entry⟩ entry_mem
    rw [Function.comp_apply, (of_mem id entry entry_mem).1]
    rfl
  refine ⟨.ofList entries.toList, ?_, fun id => ?_⟩
  · simp [readEntries, catalogBody, Except.ofOption, reads, keyed, bind, Except.bind]
  · exact entries.getElem?_ofList_toList id

/-! ## The state document -/

structure CatalogState where
  /-- The sequence of the last event that changed some catalog's accepted ids, 0 before any. -/
  catalogVersion : Nat
  /-- The latest seeded hint-table version. -/
  hintVersion : Option Nat
  deriving DecidableEq

def CatalogState.default : CatalogState := ⟨0, none⟩

def parseState : Option Value → Except String CatalogState
  | none => .ok .default
  | some body => do
      let catalogVersion ← number body "catalog_version"
      let hintVersion ← optionalNumber body "hint_version"
      .ok { catalogVersion, hintVersion }

/-- A document that does not read is taken as absent. -/
def readState (body : Option Value) : CatalogState :=
  (parseState body).toOption.getD .default

def stateBody (state : CatalogState) : Value :=
  .ofEntries
    ([("catalog", .string "state"), ("catalog_version", .ofNat state.catalogVersion)] ++
      Members.optional "hint_version" (state.hintVersion.map .ofNat))

/-- Every number of the state fits the width it is read in. -/
structure CatalogState.Fits (state : CatalogState) : Prop where
  catalogVersion : state.catalogVersion < 2 ^ 64
  hintVersion : ∀ hint ∈ state.hintVersion, hint < 2 ^ 64

theorem parseState_stateBody {state : CatalogState} (fits : state.Fits) :
    parseState (some (stateBody state)) = .ok state := by
  obtain ⟨catalogVersion, hintVersion⟩ := state
  have version_eq : (stateBody ⟨catalogVersion, hintVersion⟩).get? "catalog_version" =
      some (.ofNat catalogVersion) := by
    cases hintVersion <;> simp [stateBody, Members.optional]
  have hint_eq : (stateBody ⟨catalogVersion, hintVersion⟩).get? "hint_version" =
      hintVersion.map .ofNat := by
    cases hintVersion <;> simp [stateBody, Members.optional]
  simp only [parseState, number_of_get? version_eq fits.catalogVersion,
    optionalNumber_of_get? hint_eq fits.hintVersion, bind, Except.bind]

end Baley.Models
