import Baley.Chain
import Baley.Request
import Baley.Retention
import Baley.StoreError
import Baley.Table

/-!
# The rows of the store

Every table whose key starts with a project is kept with that project; bodies are shared by all of
them.  What a column check allows is what a row type can hold.
-/

namespace Baley

open Json

/-- One event row: the payload and the caller as canonical text, the hashes as blobs. -/
structure EventRow where
  seq : Nat
  stream : StreamName
  streamVersion : Nat
  typeName : String
  typeVersion : Nat
  actor : String
  caller : Option String
  recordedAt : String
  requestId : RequestId
  gitCommit : Option String
  gitTree : Option String
  gitCheckout : Option String
  policyVersion : Nat
  payloadJson : String
  prevHash : Option Hash
  hash : Hash
  deriving DecidableEq

/-- A body, or the tombstone that stands in its place. -/
inductive Body where
  | present (body : List UInt8)
  | reduced (excerpt : Hash) (retention : RetentionClass) (kept : (Nat × Nat) × (Nat × Nat))
  | purged (reason : String)
  deriving DecidableEq

/-- A payload keeps its hash and length whatever becomes of its body. -/
structure PayloadRow where
  bytes : Nat
  body : Body
  deriving DecidableEq

def PayloadRow.isPresent (row : PayloadRow) : Bool :=
  match row.body with
  | .present _ => true
  | _ => false

@[simp]
theorem PayloadRow.isPresent_purged (row : PayloadRow) (reason : String) :
    ({ row with body := .purged reason } : PayloadRow).isPresent = false := rfl

def PayloadRow.isReduced (row : PayloadRow) : Bool :=
  match row.body with
  | .reduced .. => true
  | _ => false

/-- One event's use of a body, until the event that released it. -/
structure RefRow where
  retention : RetentionClass
  releasedSeq : Option Nat
  deriving DecidableEq

structure AnchorRow where
  headHash : Hash
  tag : String
  pushedAt : String
  deriving DecidableEq

/-- Liveness only; the sequence matches the row to one claimed event. -/
structure LeaseRow where
  claimSeq : Nat
  renewedAt : String
  deriving DecidableEq

/-- An export of the project; no head means it is pending. -/
structure ExportRow where
  target : String
  headSeq : Option Nat
  deriving DecidableEq

/-- A view document, stamped with the event that last changed it. -/
structure DocumentRow where
  producedSeq : Nat
  projectorVersion : Nat
  /-- The values of the declared index fields. -/
  columns : List (String × KeyValue)
  text : String
  deriving DecidableEq

/-- The documents of every generation, by generation, view and key. -/
abbrev Documents := Table (Nat × String × DocKey) DocumentRow

/-- A generation being built and the last event it has applied. -/
structure Building where
  generation : Nat
  appliedSeq : Nat
  deriving DecidableEq

/-- The rows of one project. -/
structure ProjectRows where
  headSeq : Nat
  headHash : Option Hash
  events : List EventRow
  refs : Table (Nat × Hash) RefRow
  anchors : Table Nat AnchorRow
  leases : Table ClaimId LeaseRow
  exports : Table Nat ExportRow
  liveGen : Nat
  building : Option Building
  documents : Documents

/-- A project that was just created: an empty chain and an empty generation. -/
def ProjectRows.empty : ProjectRows where
  headSeq := 0
  headHash := none
  events := []
  refs := ∅
  anchors := ∅
  leases := ∅
  exports := ∅
  liveGen := 0
  building := none
  documents := ∅

/-- The store's file. -/
structure Db where
  projects : Table ProjectId ProjectRows
  payloads : Table Hash PayloadRow
  scrubPending : Option String

namespace Db

/-- A store in which nothing was recorded yet, with these projects. -/
def create (projects : List ProjectId) : Db where
  projects := projects.foldr (fun project rows => rows.insert project ProjectRows.empty) ∅
  payloads := ∅
  scrubPending := none

/-- The rows of a project; a project that is not there has none. -/
def rows (db : Db) (project : ProjectId) : ProjectRows :=
  (db.projects.lookup project).getD ProjectRows.empty

def setRows (db : Db) (project : ProjectId) (rows : ProjectRows) : Db :=
  { db with projects := db.projects.insert project rows }

@[simp]
theorem rows_setRows (db : Db) (project project' : ProjectId) (rows : ProjectRows) :
    (db.setRows project rows).rows project' = if project' = project then rows else db.rows project' := by
  unfold Db.rows Db.setRows
  rw [Table.lookup_put]
  split_ifs <;> rfl

@[simp]
theorem payloads_setRows (db : Db) (project : ProjectId) (rows : ProjectRows) :
    (db.setRows project rows).payloads = db.payloads := rfl

/-- The rows of a project that `create` opened, or of one that is not there. -/
@[simp]
theorem rows_create (projects : List ProjectId) (project : ProjectId) :
    (create projects).rows project = ProjectRows.empty := by
  unfold Db.rows Db.create
  induction projects with
  | nil => rfl
  | cons head tail ih =>
      simp only [List.foldr_cons, Table.lookup_put]
      split_ifs
      · rfl
      · exact ih

/-- Whether some unreleased reference of any project names the body. -/
def required (db : Db) (hash : Hash) : Bool :=
  db.projects.rows.any fun project =>
    project.2.refs.rows.any fun reference =>
      reference.1.2 = hash && reference.2.releasedSeq.isNone

/-- A body is required while a reference to it stands in some project. -/
theorem required_iff {db : Db} {hash : Hash} :
    db.required hash = true ↔
      ∃ project seq reference, (db.rows project).refs.lookup (seq, hash) = some reference ∧
        reference.releasedSeq = none := by
  unfold required
  rw [List.any_eq_true]
  constructor
  · rintro ⟨⟨project, rows⟩, rows_mem, names⟩
    obtain ⟨⟨⟨seq, other⟩, reference⟩, reference_mem, live⟩ := List.any_eq_true.mp names
    obtain ⟨rfl, unreleased⟩ : other = hash ∧ reference.releasedSeq = none := by simpa using live
    refine ⟨project, seq, reference, ?_, unreleased⟩
    rw [Db.rows, Table.mem_rows.mp rows_mem]
    exact Table.mem_rows.mp reference_mem
  · rintro ⟨project, seq, reference, found, unreleased⟩
    cases rows_eq : db.projects.lookup project with
    | none => simp [Db.rows, rows_eq, ProjectRows.empty] at found
    | some rows =>
        rw [Db.rows, rows_eq] at found
        refine ⟨(project, rows), Table.mem_rows.mpr rows_eq, ?_⟩
        refine List.any_eq_true.mpr ⟨((seq, hash), reference), Table.mem_rows.mpr found, ?_⟩
        simp [unreleased]

end Db

end Baley
