import Baley.Store.Command

/-!
# Events as the store records them

An event row keeps the payload and the caller as canonical text.  Reading a row back gives the event
with its payload in canonical form, which hashes as the event did.
-/

namespace Baley

open Json

theorem canonicalText_eq_ok_iff {value : Value} {text : String} :
    canonicalText value = .ok text ↔ InDomain value ∧ text = String.ofList (compact value) := by
  unfold canonicalText
  rw [Except.map_eq_ok]
  constructor
  · rintro ⟨written, writes, rfl⟩
    have inDomain := inDomain_of_writeValue writes
    rw [writeValue_eq inDomain] at writes
    exact ⟨inDomain, congrArg String.ofList (Except.ok.inj writes).symm⟩
  · rintro ⟨inDomain, rfl⟩
    exact ⟨compact value, writeValue_eq inDomain _, rfl⟩

theorem canonicalJson_canonicalForm {value : Value} (inDomain : InDomain value) :
    canonicalJson (canonicalForm value) = canonicalJson value := by
  rw [canonicalJson_eq_ok_iff.mpr ⟨inDomain, rfl⟩,
    canonicalJson_eq_ok_iff.mpr ⟨inDomain_canonicalForm inDomain, rfl⟩,
    compact_canonicalForm inDomain]

@[simp]
theorem sqlInt_eq_ok {n m : Nat} : sqlInt n = .ok m ↔ n ≤ maxSqlInt ∧ n = m := by
  unfold sqlInt
  split_ifs with fits <;> simp [fits]

/-- The event with the payload that reading its canonical text gives. -/
def Event.canonical (event : Event) : Event :=
  { event with payload := canonicalForm event.payload }

namespace EventRow

/-- The caller of a row, whose text must hold a caller. -/
def readCaller (row : EventRow) : Option (Option Caller) :=
  match row.caller with
  | none => some none
  | some text => do
      let value ← readDocument recursionLimit text
      let caller ← (Caller.fromValue value).toOption
      some (some caller)

/-- The git facts of a row, stored whole or not at all. -/
def readGit (row : EventRow) : Option (Option GitFacts) :=
  match row.gitCommit, row.gitTree, row.gitCheckout with
  | some commit, some tree, some checkout => some (some { commit, tree, checkout })
  | none, none, none => some none
  | _, _, _ => none

/-- The event of a row, its payload read when it nests less than the limit. -/
def read (limit : Nat) (project : ProjectId) (row : EventRow) : Option Event := do
  let git ← row.readGit
  let actor ← (Actor.parse row.actor).toOption
  let caller ← row.readCaller
  let payload ← readDocument limit row.payloadJson
  some
    { projectId := project, seq := row.seq, stream := row.stream
      streamVersion := row.streamVersion, typeName := row.typeName, typeVersion := row.typeVersion
      actor, caller, recordedAt := row.recordedAt, requestId := row.requestId, git
      policyVersion := row.policyVersion, payload, prevHash := row.prevHash, hash := row.hash }

/-- The event a row records, however deep its payload nests. -/
def recorded (project : ProjectId) (row : EventRow) : Option Event :=
  row.read (row.payloadJson.length + 1) project

end EventRow

/-- One row as the stored event. -/
def storedEvent (project : ProjectId) (row : EventRow) : Option Event :=
  row.read recursionLimit project

/-- The events the rows of a project record. -/
def ProjectRows.history (rows : ProjectRows) (project : ProjectId) : List Event :=
  rows.events.filterMap (EventRow.recorded project)

/-! ## Reading back what was written -/

/-- A row that was written for an event holds its fields. -/
structure EventRow.Holds (row : EventRow) (event : Event) : Prop where
  seq_eq : row.seq = event.seq
  stream_eq : row.stream = event.stream
  streamVersion_eq : row.streamVersion = event.streamVersion
  typeName_eq : row.typeName = event.typeName
  typeVersion_eq : row.typeVersion = event.typeVersion
  inDomain : InDomain event.payload
  text_eq : row.payloadJson = String.ofList (compact event.payload)
  read_eq : ∀ limit, row.read limit event.projectId =
    (readDocument limit row.payloadJson).map fun payload => { event with payload }

theorem callerText_ok {caller : Option Caller} {text : Option String}
    (written : callerText caller = .ok text) (row : EventRow) (row_caller : row.caller = text) :
    row.readCaller = some caller := by
  unfold EventRow.readCaller
  rw [row_caller]
  cases caller with
  | none =>
      obtain rfl := Except.ok.inj written
      rfl
  | some caller =>
      simp only [callerText, Except.map_eq_ok] at written
      obtain ⟨text, written, rfl⟩ := written
      obtain ⟨inDomain, rfl⟩ := canonicalText_eq_ok_iff.mp written
      obtain ⟨free, wellFormed, nests⟩ := caller.plainEntry ""
      have shallow : caller.toValue.nesting < recursionLimit :=
        lt_of_le_of_lt nests (by decide)
      simp [readDocument_compact wellFormed inDomain shallow, free.canonicalForm_eq,
        Caller.fromValue_toValue, Except.toOption]

theorem EventRow.holds_ofEvent {event : Event} {row : EventRow}
    (written : EventRow.ofEvent event = .ok row) : row.Holds event := by
  simp only [EventRow.ofEvent, Except.bind_eq_ok, Except.mapError_eq_ok, sqlInt_eq_ok,
    Except.ok.injEq] at written
  obtain ⟨text, text_written, caller, caller_written, _, ⟨-, rfl⟩, _, ⟨-, rfl⟩, _, ⟨-, rfl⟩, rfl⟩ :=
    written
  obtain ⟨inDomain, text_eq⟩ := canonicalText_eq_ok_iff.mp text_written
  refine ⟨rfl, rfl, rfl, rfl, rfl, inDomain, text_eq, fun limit => ?_⟩
  have caller_eq := callerText_ok caller_written
    { seq := event.seq, stream := event.stream, streamVersion := event.streamVersion
      typeName := event.typeName, typeVersion := event.typeVersion, actor := event.actor.asStr, caller
      recordedAt := event.recordedAt, requestId := event.requestId
      gitCommit := event.git.map GitFacts.commit, gitTree := event.git.map GitFacts.tree
      gitCheckout := event.git.map GitFacts.checkout, policyVersion := event.policyVersion
      payloadJson := text, prevHash := event.prevHash, hash := event.hash } rfl
  unfold EventRow.read
  rw [caller_eq]
  cases git_eq : event.git <;> cases readDocument limit text <;>
    simp [EventRow.readGit, Except.toOption]

namespace EventRow.Holds

variable {row : EventRow} {event : Event}

theorem read_of_lt (holds : row.Holds event) (wellFormed : event.payload.WellFormed) {limit : Nat}
    (nests : event.payload.nesting < limit) :
    row.read limit event.projectId = some event.canonical := by
  rw [holds.read_eq, holds.text_eq, readDocument_compact wellFormed holds.inDomain nests]
  rfl

theorem read_of_le (holds : row.Holds event) (wellFormed : event.payload.WellFormed) {limit : Nat}
    (nests : limit ≤ event.payload.nesting) : row.read limit event.projectId = none := by
  rw [holds.read_eq, holds.text_eq, readDocument_compact_eq_none wellFormed holds.inDomain nests]
  rfl

theorem recorded_eq (holds : row.Holds event) (wellFormed : event.payload.WellFormed) :
    row.recorded event.projectId = some event.canonical := by
  refine holds.read_of_lt wellFormed ?_
  rw [holds.text_eq, String.length_ofList]
  exact Nat.lt_succ_of_le (nesting_le_length_compact event.payload)

theorem payload?_eq (holds : row.Holds event) (wellFormed : event.payload.WellFormed)
    (nests : event.payload.nesting < recursionLimit) :
    row.payload? = some (canonicalForm event.payload) := by
  rw [EventRow.payload?, holds.text_eq, readDocument_compact wellFormed holds.inDomain nests]

end EventRow.Holds

/-- A row that was written for some event of the project. -/
def EventRow.Sound (fits : Nat → Prop) (project : ProjectId) (row : EventRow) : Prop :=
  ∃ event, row.Holds event ∧ event.payload.WellFormed ∧ event.projectId = project ∧
    fits event.payload.nesting

namespace EventRow.Sound

variable {fits : Nat → Prop} {project : ProjectId} {row : EventRow}

theorem recorded (sound : row.Sound fits project) :
    ∃ event, row.recorded project = some event ∧ fits event.payload.nesting := by
  obtain ⟨event, holds, wellFormed, rfl, event_fits⟩ := sound
  refine ⟨event.canonical, holds.recorded_eq wellFormed, ?_⟩
  rw [Event.canonical, nesting_canonicalForm]
  exact event_fits

/-- The row reads back exactly when the payload it records nests less than the limit. -/
theorem storedEvent_eq (sound : row.Sound fits project) {event : Event}
    (recorded : row.recorded project = some event) :
    storedEvent project row =
      if event.payload.nesting < recursionLimit then some event else none := by
  obtain ⟨source, holds, wellFormed, rfl, -⟩ := sound
  rw [holds.recorded_eq wellFormed] at recorded
  obtain rfl := Option.some.inj recorded
  rw [Event.canonical, nesting_canonicalForm]
  split_ifs with nests
  · exact holds.read_of_lt wellFormed nests
  · exact holds.read_of_le wellFormed (not_lt.mp nests)

end EventRow.Sound

/-- An event that went through the store hashes as it did. -/
theorem Event.computeHash_canonical {event : Event} (inDomain : InDomain event.payload)
    (sha256 : List UInt8 → Hash) : event.canonical.computeHash sha256 = event.computeHash sha256 := by
  have payload_eq : canonicalJson event.canonical.payload = canonicalJson event.payload :=
    canonicalJson_canonicalForm inDomain
  unfold Event.computeHash
  rw [payload_eq]
  rfl

end Baley
