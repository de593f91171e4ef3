import Baley.Models.Diffed

/-!
# Runs of the catalog

Seeds, owner changes and imports, each deciding from the documents as they stand in its own recording
transaction and folded into them, one after the other.
-/

namespace Baley.Models

open Json ModelCatalogProjector

/-- A binary's compiled hint table. -/
structure HintTable where
  version : UInt64
  exactRows : List HintRow
  prefixRows : List PrefixRow

/-- Due on any difference from the recorded version, a downgrade included. -/
def seedDue (compiled : Nat) (recorded : Option Nat) : Bool := recorded ≠ some compiled

/-- The entries a catalog document accepts; one that does not read is taken as absent. -/
def heldEntries (document : Option Value) : List Entry :=
  ((readEntries document).toOption.getD ∅).values.filter Entry.accepted

/-- Whether a removal of the name is taken: the document accepts it. -/
def judgeHeldRemoval (name : String) (document : Option Value) : Bool :=
  (heldEntries document).any fun entry => entry.id = name

/-- What an import came to: the report of a listing, or the category of a failure. -/
inductive Outcome where
  | detected (report : List ReportRow)
  | failed (category : Category)

structure ChosenEvent where
  typeName : String
  payload : Value
  outcome : Outcome

/-- The event of an import, and its outcome. -/
def chooseEvent (table : HintTable) (provider : Provider)
    (classified : Except Category ProviderListing) (document : Option Value) (catalogVersion : Nat) :
    ChosenEvent :=
  match classified with
  | .ok listing =>
      let difference := diff listing provider table.exactRows table.prefixRows document
      { typeName := modelsDetected
        payload := detectedPayload provider difference.added difference.removed catalogVersion
          table.version.toNat
        outcome := .detected difference.report }
  | .error category =>
      { typeName := modelsDetectionFailed
        payload := detectionFailedPayload provider category catalogVersion
        outcome := .failed category }

/-- One command on the catalog. -/
inductive Act where
  | seed (table : HintTable)
  | change (catalog : Catalog) (name : String) (change : OwnerChange)
  | record (table : HintTable) (provider : Provider) (classified : Except Category ProviderListing)

/-- The event an act appends, by the documents its transaction reads; nothing when no seed is due or a
removal is refused. -/
def Act.appended (documents : Table DocKey Value) : Act → Option (String × Value)
  | .seed table =>
      let state := readState (documents.lookup stateKey)
      if seedDue table.version.toNat state.hintVersion then
        some (modelsSeeded,
          seededPayload table.version.toNat state.catalogVersion table.exactRows)
      else none
  | .change catalog name made =>
      let version := (readState (documents.lookup stateKey)).catalogVersion
      let payload := ownerChangedPayload catalog name made version
      match made with
      | .removed =>
          if judgeHeldRemoval name (documents.lookup (catalogKey catalog)) then
            some (modelsOwnerChanged, payload)
          else none
      | .added _ => some (modelsOwnerChanged, payload)
  | .record table provider classified =>
      let version := (readState (documents.lookup stateKey)).catalogVersion
      let chosen := chooseEvent table provider classified
        (documents.lookup (catalogKey (.provider provider))) version
      some (chosen.typeName, chosen.payload)

/-- An act with the envelope its event is recorded in. -/
structure Step where
  act : Act
  envelope : Event
  seq_fits : envelope.seq < 2 ^ 64

namespace Step

variable (step : Step)

def event (typeName : String) (payload : Value) : Event :=
  { step.envelope with typeName, payload }

/-- The documents after the step. -/
def take (documents : Table DocKey Value) : Except String (Table DocKey Value) :=
  match step.act.appended documents with
  | some (typeName, payload) =>
      modelCatalogProjector.project documents (step.event typeName payload)
  | none => .ok documents

end Step

/-- The documents after some steps. -/
def run (documents : Table DocKey Value) (steps : List Step) : Except String (Table DocKey Value) :=
  steps.foldlM (fun documents step => step.take documents) documents

/-- What a catalog's document holds at an id. -/
def entryAt (documents : Table DocKey Value) (catalog : Catalog) (id : String) : Option Entry :=
  ((readEntries (documents.lookup (catalogKey catalog))).toOption.getD ∅)[id]?

/-! ## One step -/

section Take

variable {documents : Table DocKey Value} {books : Books} (holds : Holds documents books)

include holds in
theorem entryAt_eq (catalog : Catalog) (id : String) :
    entryAt documents catalog id = books catalog id := by
  obtain ⟨entries, read, -, agrees⟩ := holds.shows_book catalog
  simp only [entryAt, read, Except.toOption, Option.getD_some, agrees]

include holds in
/-- A due seed. -/
theorem take_seed {step : Step} {table : HintTable} (act_eq : step.act = .seed table)
    (due : seedDue table.version.toNat (readState (documents.lookup stateKey)).hintVersion = true) :
    ∃ after event, step.take documents = .ok after ∧
      Holds after (seeded event table.exactRows books) := by
  let version := (readState (documents.lookup stateKey)).catalogVersion
  let payload := seededPayload table.version.toNat version table.exactRows
  have seq_fits : (step.event modelsSeeded payload).seq < 2 ^ 64 := step.seq_fits
  obtain ⟨after, projected, holds'⟩ :=
    project_seeded holds seq_fits rfl rfl table.version.toNat_lt
  refine ⟨after, _, ?_, holds'⟩
  simp only [Step.take, act_eq, Act.appended, due, if_true]
  exact projected

include holds in
/-- An owner change that is taken. -/
theorem take_change {step : Step} {catalog : Catalog} {name : String} {made : OwnerChange}
    (act_eq : step.act = .change catalog name made)
    (taken : made = .removed → judgeHeldRemoval name (documents.lookup (catalogKey catalog)) = true) :
    ∃ after event, step.take documents = .ok after ∧
      Holds after (changed event catalog name made books) := by
  let version := (readState (documents.lookup stateKey)).catalogVersion
  let payload := ownerChangedPayload catalog name made version
  have seq_fits : (step.event modelsOwnerChanged payload).seq < 2 ^ 64 := step.seq_fits
  obtain ⟨after, projected, holds'⟩ := project_ownerChanged holds seq_fits rfl rfl
  refine ⟨after, _, ?_, holds'⟩
  cases made with
  | added tier =>
      simp only [Step.take, act_eq, Act.appended]
      exact projected
  | removed =>
      simp only [Step.take, act_eq, Act.appended, taken rfl, if_true]
      exact projected

include holds in
/-- A recorded listing: its diff is computed from the document as it stands. -/
theorem take_listing {step : Step} {table : HintTable} {provider : Provider}
    {listing : ProviderListing} (act_eq : step.act = .record table provider (.ok listing)) :
    ∃ after event entries, step.take documents = .ok after ∧ entries.Sound ∧
      (∀ id : String, entries[id]? = books (.provider provider) id) ∧
      DiffOf entries listing (diff listing provider table.exactRows table.prefixRows
        (documents.lookup (catalogKey (.provider provider)))) ∧
      Holds after (refreshed event provider
        (diff listing provider table.exactRows table.prefixRows
          (documents.lookup (catalogKey (.provider provider)))) entries books) := by
  obtain ⟨entries, read, sound, agrees⟩ := holds.shows_book (.provider provider)
  have of_diff := diffOf_diff listing provider table.exactRows table.prefixRows read sound
  let difference := diff listing provider table.exactRows table.prefixRows
    (documents.lookup (catalogKey (.provider provider)))
  let version := (readState (documents.lookup stateKey)).catalogVersion
  let payload := detectedPayload provider difference.added difference.removed version
    table.version.toNat
  have seq_fits : (step.event modelsDetected payload).seq < 2 ^ 64 := step.seq_fits
  obtain ⟨after, projected, holds', -⟩ :=
    project_detected holds seq_fits rfl rfl of_diff.distinct of_diff.placed
  refine ⟨after, step.event modelsDetected payload, entries, ?_, sound, agrees, of_diff, ?_⟩
  · simp only [Step.take, act_eq, Act.appended, chooseEvent]
    exact projected
  · refine ⟨fun other => (holds'.shows_book other).congr fun id => ?_, holds'.state_reads⟩
    by_cases same : other = .provider provider
    · subst same
      rw [detected, if_pos rfl, refreshed_self, leftBy, agrees]
    · rw [detected, if_neg same, refreshed_of_ne _ _ same]

include holds in
/-- A recorded failure. -/
theorem take_failure {step : Step} {table : HintTable} {provider : Provider} {category : Category}
    (act_eq : step.act = .record table provider (.error category)) :
    ∃ after, step.take documents = .ok after ∧ Holds after books := by
  let version := (readState (documents.lookup stateKey)).catalogVersion
  let payload := detectionFailedPayload provider category version
  obtain ⟨after, projected, holds'⟩ := project_detectionFailed holds
    (show (step.event modelsDetectionFailed payload).typeName = modelsDetectionFailed from rfl) rfl
  refine ⟨after, ?_, holds'⟩
  simp only [Step.take, act_eq, Act.appended, chooseEvent]
  exact projected

/-- A step that appends nothing leaves the documents. -/
theorem take_nothing {step : Step} (nothing : step.act.appended documents = none) :
    step.take documents = .ok documents := by
  simp only [Step.take, nothing]

/-- What a step does to the books. -/
inductive Took (step : Step) (documents : Table DocKey Value) (books : Books) : Books → Prop
  | nothing (appends : step.act.appended documents = none) : Took step documents books books
  | seed {table : HintTable} {event : Event} (act_eq : step.act = .seed table) :
      Took step documents books (seeded event table.exactRows books)
  | change {catalog : Catalog} {name : String} {made : OwnerChange} {event : Event}
      (act_eq : step.act = .change catalog name made) :
      Took step documents books (changed event catalog name made books)
  | listing {table : HintTable} {provider : Provider} {listing : ProviderListing} {event : Event}
      {entries : Entries} (act_eq : step.act = .record table provider (.ok listing))
      (sound : entries.Sound) (agrees : ∀ id : String, entries[id]? = books (.provider provider) id)
      (of_diff : DiffOf entries listing (diff listing provider table.exactRows table.prefixRows
        (documents.lookup (catalogKey (.provider provider))))) :
      Took step documents books (refreshed event provider
        (diff listing provider table.exactRows table.prefixRows
          (documents.lookup (catalogKey (.provider provider)))) entries books)
  | failure {table : HintTable} {provider : Provider} {category : Category}
      (act_eq : step.act = .record table provider (.error category)) :
      Took step documents books books

include holds in
/-- Every step is taken, and leaves documents that read. -/
theorem take_holds (step : Step) :
    ∃ after books', step.take documents = .ok after ∧ Holds after books' ∧
      Took step documents books books' := by
  cases act_eq : step.act with
  | seed table =>
      by_cases due : seedDue table.version.toNat
          (readState (documents.lookup stateKey)).hintVersion = true
      · obtain ⟨after, event, taken, holds'⟩ := take_seed holds act_eq due
        exact ⟨after, _, taken, holds', .seed act_eq⟩
      · have nothing : step.act.appended documents = none := by
          simp only [act_eq, Act.appended, due, if_false, Bool.false_eq_true]
        exact ⟨documents, books, take_nothing nothing, holds, .nothing nothing⟩
  | change catalog name made =>
      by_cases taken : made = .removed →
          judgeHeldRemoval name (documents.lookup (catalogKey catalog)) = true
      · obtain ⟨after, event, taken, holds'⟩ := take_change holds act_eq taken
        exact ⟨after, _, taken, holds', .change act_eq⟩
      · rw [Classical.not_imp] at taken
        obtain ⟨rfl, refused⟩ := taken
        have nothing : step.act.appended documents = none := by
          simp only [act_eq, Act.appended, refused, if_false, Bool.false_eq_true]
        exact ⟨documents, books, take_nothing nothing, holds, .nothing nothing⟩
  | record table provider classified =>
      cases classified with
      | ok listing =>
          obtain ⟨after, event, entries, taken, sound, agrees, of_diff, holds'⟩ :=
            take_listing holds act_eq
          exact ⟨after, _, taken, holds', .listing act_eq sound agrees of_diff⟩
      | error category =>
          obtain ⟨after, taken, holds'⟩ := take_failure holds act_eq
          exact ⟨after, books, taken, holds', .failure act_eq⟩

include holds in
/-- What a step that was taken did. -/
theorem took_of_take {step : Step} {after : Table DocKey Value}
    (taken : step.take documents = .ok after) :
    ∃ books', Holds after books' ∧ Took step documents books books' := by
  obtain ⟨after', books', taken', holds', took⟩ := take_holds holds step
  obtain rfl := Except.ok.inj (taken.symm.trans taken')
  exact ⟨books', holds', took⟩

include holds in
/-- Every run is taken, and leaves documents that read. -/
theorem run_holds (steps : List Step) :
    ∃ after books', run documents steps = .ok after ∧ Holds after books' := by
  induction steps generalizing documents books with
  | nil => exact ⟨documents, books, rfl, holds⟩
  | cons step steps ih =>
      obtain ⟨middle, middle_books, taken, middle_holds, -⟩ := take_holds holds step
      obtain ⟨after, books', later, holds'⟩ := ih middle_holds
      refine ⟨after, books', ?_, holds'⟩
      rw [run, List.foldlM_cons, taken]
      exact later

end Take

end Baley.Models
