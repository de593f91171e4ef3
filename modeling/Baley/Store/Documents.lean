import Baley.Attempt
import Baley.Store.Database

/-!
# Documents

A document is written as canonical text beside the columns its view declares, and read back by
parsing that text.  Changes made inside a command or a batch are staged in memory and written once.
-/

namespace Baley

open Json

/-- The largest integer a column holds. -/
def maxSqlInt : Nat := 9223372036854775807

/-- A number as a column holds it. -/
def sqlInt (n : Nat) : Except StoreError Nat :=
  if n ≤ maxSqlInt then .ok n
  else .error (.unavailable (n.repr ++ " does not fit a SQLite integer"))

/-- Canonical text, which the store keeps in place of a value. -/
def canonicalText (value : Value) : Except CanonicalError String :=
  (writeValue "$" value).map String.ofList

def malformed (view reason : String) : StoreError :=
  .refused (.malformedKey view reason)

/-- Each distinct index field once, in first-declared order. -/
def ViewSpec.indexColumns (spec : ViewSpec) : List FieldSpec :=
  (spec.indexes.flatMap IndexSpec.columns).eraseDups

/-- The value of a field of a body, when it has the declared kind. -/
def FieldSpec.read (field : FieldSpec) (body : Value) : Option KeyValue :=
  match field.kind with
  | .text => ((body.get? field.name).bind Value.asStr).map .text
  | .integer => ((body.get? field.name).bind Value.asI64).map .integer

/-- Refuse a key that does not have the declared fields' number and kinds. -/
def ViewSpec.checkKey (spec : ViewSpec) (key : DocKey) : Except StoreError Unit :=
  .require (key.map KeyValue.kind = spec.key.map FieldSpec.kind)
    (malformed spec.name
      ("the key has " ++ key.length.repr ++ " values that do not fit its " ++
        spec.key.length.repr ++ " declared fields"))

/-- Refuse a body that does not hold a key field equal to the key. -/
def ViewSpec.checkKeyField (spec : ViewSpec) (body : Value) (field : FieldSpec × KeyValue) :
    Except StoreError Unit :=
  .require (({ field.1 with kind := field.2.kind } : FieldSpec).read body = some field.2)
    (malformed spec.name ("the document's " ++ field.1.name ++ " is missing or not its key"))

def ViewSpec.indexColumn (spec : ViewSpec) (body : Value) (field : FieldSpec) :
    Except StoreError (String × KeyValue) :=
  match field.read body with
  | some value => .ok (field.name, value)
  | none =>
      .error (malformed spec.name
        ("the document's " ++ field.name ++ " is missing or not " ++ field.kind.name))

/-- The row of a document whose body holds its key and every index field. -/
def ViewSpec.row (spec : ViewSpec) (key : DocKey) (body : Value) (producedSeq : Nat) :
    Except StoreError DocumentRow := do
  (spec.key.zip key).forM (spec.checkKeyField body)
  let columns ← spec.indexColumns.mapM (spec.indexColumn body)
  .require (producedSeq ≤ maxSqlInt)
    (.unavailable ("sequence " ++ producedSeq.repr ++ " is past i64"))
  let text ← (canonicalText body).mapError fun error =>
    malformed spec.name ("the document: " ++ error.message)
  .ok { producedSeq, projectorVersion := spec.version, columns, text }

/-- Put or delete one document of a generation. -/
def writeChange (spec : ViewSpec) (generation : Nat) (key : DocKey) (body : Option Value)
    (producedSeq : Nat) (documents : Documents) : Except StoreError Documents := do
  spec.checkKey key
  match body with
  | none => .ok (documents.erase (generation, spec.name, key))
  | some body =>
      let row ← spec.row key body producedSeq
      .ok (documents.insert (generation, spec.name, key) row)

/-- The document of a row, whose text must parse. -/
def DocumentRow.document (row : DocumentRow) (key : DocKey) : Except StoreError Document :=
  match readDocument recursionLimit row.text with
  | some body =>
      .ok
        { key, producedSeq := row.producedSeq, projectorVersion := row.projectorVersion, body }
  | none => .error (.unavailable "a stored document that is not JSON")

/-- The document at a key of a generation. -/
def getDocument (spec : ViewSpec) (documents : Documents) (generation : Nat) (key : DocKey) :
    Except StoreError (Option Document) := do
  spec.checkKey key
  match documents.lookup (generation, spec.name, key) with
  | none => .ok none
  | some row => (row.document key).map some

/-- A document that was changed and is not yet written, with the event that last changed it. -/
structure Staged where
  /-- Nothing once deleted. -/
  body : Option Value
  producedSeq : Nat

/-- The documents a run of events changed, by view and key. -/
abbrev Staging := Table (String × DocKey) Staged

/-- The document a read sees, or nothing for a deletion. -/
def Staged.document (staged : Staged) (spec : ViewSpec) (key : DocKey) : Option Document :=
  staged.body.map fun body =>
    { key, producedSeq := staged.producedSeq, projectorVersion := spec.version, body }

/-- The document at a key under the staged changes. -/
def getStaged (spec : ViewSpec) (documents : Documents) (generation : Nat) (staged : Staging)
    (key : DocKey) : Except StoreError (Option Document) :=
  match staged.lookup (spec.name, key) with
  | some staged => .ok (staged.document spec key)
  | none => getDocument spec documents generation key

/-! ## The store -/

/-- An open store: the hash its chains are built with, the core's event schema and projectors, and
how one page of a view is read by a declared index. -/
structure Store where
  sha256 : List UInt8 → Hash
  /-- Whether the core reads events of this type and version. -/
  schemaReads : String → Nat → Bool
  /-- The version and payload a projector sees for one of the core's events. -/
  projectionPayload : Event → Except String (Nat × Value)
  /-- The core's projectors. -/
  projectors : List Projector
  /-- No view is declared twice. -/
  views_nodup :
    ((claimScopeProjector :: requestProjector :: projectors).map fun projector =>
      projector.spec.name).Nodup
  page : Db → ProjectId → Nat → Staging → ViewSpec → IndexQuery → Except StoreError (Page Document)

namespace Store

variable (store : Store)

/-- The projectors, the store's own first. -/
def allProjectors : List Projector :=
  claimScopeProjector :: requestProjector :: store.projectors

/-- The declared view of a name. -/
def table (view : String) : Except StoreError ViewSpec :=
  match store.allProjectors.find? fun projector => projector.spec.name = view with
  | some projector => .ok projector.spec
  | none => .error (.refused (.unknownView view))

/-- Whether this binary reads events of this type and version. -/
def reads (typeName : String) (version : Nat) : Bool :=
  (typeName = commandCompleted && version = commandCompletedVersion) ||
  (typeName = commandClaimed && version = commandClaimedVersion) ||
  (typeName = commandReconciled && version = commandReconciledVersion) ||
  (typeName = payloadReduced && version = payloadReducedVersion) ||
  (typeName = payloadPurged && version = payloadPurgedVersion) ||
  (!storeOwned typeName && store.schemaReads typeName version)

/-- Why an event cannot be read. -/
def notReadable (typeName : String) (version : Nat) : String :=
  typeName ++ " version " ++ version.repr ++ " is not readable by this binary"

/-- The copy of an event projectors see: a core type with its payload upcast, a store type exactly
as recorded. -/
def projectionCopy (event : Event) : Except String Event :=
  if storeOwned event.typeName then
    if store.reads event.typeName event.typeVersion then .ok event
    else .error (notReadable event.typeName event.typeVersion)
  else
    (store.projectionPayload event).map fun upcast =>
      { event with typeVersion := upcast.1, payload := upcast.2 }

/-- The body a projector is given for a key: staged, or else stored. -/
def currentBody (documents : Documents) (generation : Nat) (staged : Staging) (spec : ViewSpec)
    (key : DocKey) : Except StoreError (Option Value) :=
  match staged.lookup (spec.name, key) with
  | some staged => .ok staged.body
  | none => (getDocument spec documents generation key).map fun found => found.map Document.body

/-- Stage one change of an event. -/
def stage (view : String) (seq : Nat) (staged : Staging) (change : Change) : Staging :=
  staged.insert (view, change.key) { body := change.body, producedSeq := seq }

/-- Fold one event into the staged documents through one projector. -/
def foldOne (documents : Documents) (generation : Nat) (event : Event) (staged : Staging)
    (projector : Projector) : Except StoreError Staging := do
  if projector.handles.contains event.typeName then
    let bodies ← (projector.keys event).mapM fun key => do
      let body ← currentBody documents generation staged projector.spec key
      Except.ok (body.map fun body => (key, body))
    let changes ← (projector.apply event (bodies.filterMap id)).mapError fun message =>
      StoreError.projector projector.spec.name event.seq message
    .ok (changes.foldl (stage projector.spec.name event.seq) staged)
  else .ok staged

/-- Fold one event into the staged documents through every projector that handles its type.
Ordinary projection and replay both go through here. -/
def fold (documents : Documents) (generation : Nat) (event : Event) (staged : Staging) :
    Except StoreError Staging :=
  store.allProjectors.foldlM (foldOne documents generation event) staged

/-- Write one staged document. -/
def writeOne (generation : Nat) (documents : Documents) (change : (String × DocKey) × Staged) :
    Except StoreError Documents := do
  let spec ← store.table change.1.1
  writeChange spec generation change.1.2 change.2.body change.2.producedSeq documents

/-- Write each staged document once, stamped with the last event that changed it. -/
def writeStaged (generation : Nat) (staged : Staging) (documents : Documents) :
    Except StoreError Documents :=
  staged.rows.foldlM (store.writeOne generation) documents

end Store

end Baley
