import Baley.Event
import Baley.Models.Detection

/-!
# The `model_catalog` view

The payloads of the catalog's events, and the projector that keeps one document per catalog and the
state document from them.  It reads only its events and documents, never a compiled table.
-/

namespace Baley.Models

open Json

def modelsStream : String := "models"

def modelsSeeded : String := "models.seeded"
def modelsOwnerChanged : String := "models.owner_changed"
def modelsDetected : String := "models.detected"
def modelsDetectionFailed : String := "models.detection_failed"

/-! ## Payloads -/

def HintRow.toValue (row : HintRow) : Value :=
  .ofEntries
    [("provider", .string row.provider.name), ("name", .string row.id),
      ("tier", .string row.tier.name), ("high_effort", .bool row.highEffort)]

def seededPayload (hintVersion catalogVersion : Nat) (rows : List HintRow) : Value :=
  .ofEntries
    [("hint_version", .ofNat hintVersion), ("catalog_version", .ofNat catalogVersion),
      ("rows", .array (rows.map HintRow.toValue))]

def ownerChangedPayload (catalog : Catalog) (name : String) (change : OwnerChange)
    (catalogVersion : Nat) : Value :=
  let (given, change) : Option Tier × String :=
    match change with
    | .added tier => (tier, "added")
    | .removed => (none, "removed")
  .ofEntries
    ([("catalog", .string catalog.name), ("name", .string name)] ++
      Members.optional "tier" (given.map fun tier => .string tier.name) ++
      [("change", .string change), ("catalog_version", .ofNat catalogVersion)])

def Added.toValue (added : Added) : Value :=
  .ofEntries
    [("id", .string added.id), ("tier", .string added.tag.tier.name),
      ("high_effort", .bool added.tag.highEffort), ("placed", .string added.tag.placed.name)]

def detectedPayload (provider : Provider) (added : List Added) (removed : List String)
    (catalogVersion hintVersion : Nat) : Value :=
  .ofEntries
    [("provider", .string provider.name), ("added", .array (added.map Added.toValue)),
      ("removed", texts removed), ("catalog_version", .ofNat catalogVersion),
      ("hint_version", .ofNat hintVersion)]

/-- Why a detection failed. -/
inductive Category where
  | offline
  | incomplete
  | malformed
  | unauthorized
  | rateLimited
  | http (status : Nat)

def Category.name : Category → String
  | offline => "offline"
  | incomplete => "incomplete"
  | malformed => "malformed"
  | unauthorized => "unauthorized"
  | rateLimited => "rate-limited"
  | http status => "http-" ++ status.repr

def detectionFailedPayload (provider : Provider) (category : Category) (catalogVersion : Nat) : Value :=
  .ofEntries
    [("provider", .string provider.name), ("category", .string category.name),
      ("catalog_version", .ofNat catalogVersion)]

/-! ## The projector -/

namespace ModelCatalogProjector

/-- One catalog document an event touches. -/
structure Book where
  catalog : Catalog
  stored : Option Value
  entries : Entries

/-- The catalogs whose documents an event touches, or why it names none. -/
def touched (event : Event) : Except String (List Catalog) :=
  if event.typeName = modelsSeeded then .ok (Provider.all.map Catalog.provider)
  else if event.typeName = modelsOwnerChanged then do
    let catalog ← catalog event.payload
    .ok [catalog]
  else if event.typeName = modelsDetected then do
    let provider ← provider event.payload
    .ok [.provider provider]
  else if event.typeName = modelsDetectionFailed then .ok []
  else .error (modelCatalogView ++ " does not apply " ++ event.typeName)

/-- A failed detection needs nothing; a payload too broken to name its catalog still names the state
document. -/
def keys (event : Event) : List DocKey :=
  if event.typeName = modelsDetectionFailed then []
  else stateKey :: ((touched event).toOption.getD []).map catalogKey

/-! ### Seeds -/

def hintRow (row : Value) (index : Nat) : Except String HintRow :=
  let at_row := fun message => "rows[" ++ index.repr ++ "]: " ++ message
  ((do
    let provider ← provider row
    let id ← text row "name"
    let tier ← tier row
    let highEffort ← flag row "high_effort"
    .ok { provider, id, tier, highEffort }) : Except String HintRow).mapError at_row

/-- The tier and flag each id has in a provider's rows; a later row of an id replaces an earlier
one. -/
def namedRows (rows : List HintRow) (provider : Provider) : Std.TreeMap String (Tier × Bool) :=
  .ofList ((rows.filter fun row => row.provider = provider).map fun row =>
    (row.id, row.tier, row.highEffort))

/-- What a seeded row makes of the entry of its id. -/
def seedEntry (event : Event) (row : String × Tier × Bool) : Option Entry → Option Entry
  | none => some
      { id := row.1, source := .seed, tier := some row.2.1, highEffort := row.2.2, placed := .hint
        firstSeen := event.recordedAt, lastVerified := none, acceptedSeq := some event.seq
        ownerRemoved := false }
  | some entry =>
      if entry.source = .seed ∧ entry.ownerRemoved = false then
        some { entry with tier := some row.2.1, highEffort := row.2.2 }
      else some entry

/-- A seed makes a provider's seed-sourced entries exactly its rows. -/
def seedBook (event : Event) (rows : List HintRow) (book : Book) : Book :=
  match book.catalog with
  | .host _ => book
  | .provider provider =>
      let rows := namedRows rows provider
      let kept := book.entries.filter fun id entry =>
        entry.ownerRemoved || entry.source ≠ .seed || rows.contains id
      { book with entries := kept.alterAll Prod.fst (seedEntry event) rows.toList }

/-- Seed every book; the seeded hint version is returned. -/
def seed (event : Event) (books : List Book) : Except String (Nat × List Book) := do
  let hintVersion ← number event.payload "hint_version"
  let rows ← .ofOption "rows is missing or not a list"
    ((event.payload.get? "rows").bind Value.asArray)
  let rows ← rows.zipIdx.mapM fun (row, index) => hintRow row index
  .ok (hintVersion, books.map (seedBook event rows))

/-! ### Owner changes -/

def removeEntry (event : Event) (name : String) : Option Entry → Option Entry
  | none => some
      { id := name, source := .owner, tier := none, highEffort := false, placed := .owner
        firstSeen := event.recordedAt, lastVerified := none, acceptedSeq := none
        ownerRemoved := true }
  | some entry => some { entry with ownerRemoved := true }

/-- An addition makes an owner entry, keeping its high-effort flag. -/
def addEntry (event : Event) (name : String) (given : Option Tier) : Option Entry → Option Entry
  | none => some
      { id := name, source := .owner, tier := given, highEffort := false, placed := .owner
        firstSeen := event.recordedAt, lastVerified := none, acceptedSeq := some event.seq
        ownerRemoved := false }
  | some entry =>
      let entry :=
        if entry.ownerRemoved then
          { entry with ownerRemoved := false, acceptedSeq := some event.seq }
        else entry
      let entry := { entry with source := .owner }
      match given with
      | some tier => some { entry with tier := some tier, placed := .owner }
      | none => some entry

def ownerChange (event : Event) (entries : Entries) : Except String Entries := do
  let name ← text event.payload "name"
  let change ← text event.payload "change"
  let given ← optionalTier event.payload
  if change = "removed" then .ok (entries.alter name (removeEntry event name))
  else if change = "added" then .ok (entries.alter name (addEntry event name given))
  else .error ("change " ++ shown change ++ " is neither added nor removed")

/-! ### Detections -/

def addedItem (item : Value) (index : Nat) : Except String Added :=
  let at_item := fun message => "added[" ++ index.repr ++ "]: " ++ message
  ((do
    let id ← text item "id"
    let tier ← tier item
    let highEffort ← flag item "high_effort"
    let name ← text item "placed"
    let placed ← .ofOption ("placed " ++ shown name ++ " is not hint, prefix or best-fit")
      ((Placement.parse name).filter fun placed => placed ≠ .owner)
    .ok ⟨id, tier, highEffort, placed⟩) : Except String Added).mapError at_item

/-- What a detection makes of the entry of a listed id: an owner entry takes only the flag, and an id
the owner removed is not touched. -/
def detectEntry (event : Event) (added : Added) : Option Entry → Option Entry
  | none => some
      { id := added.id, source := .detected, tier := some added.tag.tier
        highEffort := added.tag.highEffort, placed := added.tag.placed
        firstSeen := event.recordedAt, lastVerified := some event.recordedAt
        acceptedSeq := some event.seq, ownerRemoved := false }
  | some entry =>
      if entry.ownerRemoved then some entry
      else if entry.source = .owner then some { entry with highEffort := added.tag.highEffort }
      else some
        { entry with
          source := .detected, tier := some added.tag.tier, highEffort := added.tag.highEffort
          placed := added.tag.placed }

/-- Every accepted entry not named as removed was seen now. -/
def verify (event : Event) (gone : List String) (entry : Entry) : Entry :=
  if entry.accepted ∧ entry.id ∉ gone then
    { entry with lastVerified := some event.recordedAt }
  else entry

def goneId (id : Value) (index : Nat) : Except String String :=
  .ofOption ("removed[" ++ index.repr ++ "] is not text") id.asStr

def detect (event : Event) (entries : Entries) : Except String Entries := do
  let added ← .ofOption "added is missing or not a list"
    ((event.payload.get? "added").bind Value.asArray)
  let removed ← .ofOption "removed is missing or not a list"
    ((event.payload.get? "removed").bind Value.asArray)
  let added ← added.zipIdx.mapM fun (item, index) => addedItem item index
  let gone ← removed.zipIdx.mapM fun (id, index) => goneId id index
  let entries := entries.alterAll Added.id (detectEntry event) added
  let entries := entries.filter fun id entry =>
    entry.ownerRemoved || entry.source = .owner || !gone.contains id
  .ok (entries.map fun _ entry => verify event gone entry)

/-! ### Applying an event -/

/-- Change the entries of the one book an event touches. -/
def changeFirst (change : Entries → Except String Entries) : List Book → Except String (List Book)
  | [] => .ok []
  | book :: books => do
      let entries ← change book.entries
      .ok ({ book with entries } :: books)

/-- The document of a changed book. -/
def bookChange (book : Book) : Option Change :=
  let body := catalogBody book.catalog book.entries
  let unchanged : Bool :=
    match book.stored with
    | some stored => stored == body
    | none => book.entries.isEmpty
  if unchanged then none else some (.put (catalogKey book.catalog) body)

/-- Whether a book accepts other ids than it did. -/
def moved (book : Book) (before : List String) : Bool :=
  let after := book.entries.acceptedIds
  after.length ≠ before.length || after.any fun id => !before.contains id

def stateChange (stored : Option Value) (state : CatalogState) : Option Change :=
  let body := stateBody state
  let unchanged : Bool :=
    match stored with
    | some stored => stored == body
    | none => state = .default
  if unchanged then none else some (.put stateKey body)

def stored (documents : List (DocKey × Value)) (key : DocKey) : Option Value :=
  (documents.find? fun found => found.1 = key).map Prod.snd

/-- What an event makes of the books it touches, with the hint version a seed records. -/
def update (event : Event) (books : List Book) (state : CatalogState) :
    Except String (CatalogState × List Book) :=
  if event.typeName = modelsSeeded then do
    let (hintVersion, books) ← seed event books
    .ok ({ state with hintVersion := some hintVersion }, books)
  else if event.typeName = modelsDetected then do
    let books ← changeFirst (detect event) books
    .ok (state, books)
  else do
    let books ← changeFirst (ownerChange event) books
    .ok (state, books)

def refuse (event : Event) (message : String) : String :=
  event.typeName ++ " at seq " ++ event.seq.repr ++ ": " ++ message

def applied (event : Event) (documents : List (DocKey × Value)) : Except String (List Change) :=
  if event.typeName = modelsDetectionFailed then do
    let _ ← provider event.payload
    .ok []
  else do
    let touched ← touched event
    let books ← touched.mapM fun catalog => do
      let body := stored documents (catalogKey catalog)
      let entries ← readEntries body
      .ok ({ catalog, stored := body, entries } : Book)
    let before := books.map fun book => book.entries.acceptedIds
    let state ← parseState (stored documents stateKey)
    let (state, books) ← update event books state
    let moved := (books.zip before).any fun (book, before) => moved book before
    let state := if moved then { state with catalogVersion := event.seq } else state
    .ok (books.filterMap bookChange ++
      (stateChange (stored documents stateKey) state).toList)

def apply (event : Event) (documents : List (DocKey × Value)) : Except String (List Change) :=
  (applied event documents).mapError (refuse event)

end ModelCatalogProjector

def modelCatalogSpec : ViewSpec where
  name := modelCatalogView
  version := 1
  key := [⟨"catalog", .text⟩]
  indexes := []
  pageBound := 1

/-- Keeps the `model_catalog` view current from the `models.*` events. -/
def modelCatalogProjector : Projector where
  spec := modelCatalogSpec
  handles := [modelsSeeded, modelsOwnerChanged, modelsDetected, modelsDetectionFailed]
  keys := ModelCatalogProjector.keys
  apply := ModelCatalogProjector.apply

end Baley.Models
