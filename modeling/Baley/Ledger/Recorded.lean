import Baley.Ledger.Contract
import Baley.Store.Turns

/-!
# What is recorded, and what a view shows of it

Every event is recorded after the last one, and the documents of a view change only as the view's own
projector says.
-/

namespace Baley

open Json

namespace Ledger

/-- The project after it recorded more events, each of them allowed. -/
def Grown (allowed : Event → Prop) (before after : Ledger) : Prop :=
  ∃ added, after.events = before.events ++ added ∧ ∀ event ∈ added, allowed event

variable {allowed : Event → Prop}

theorem Grown.refl (ledger : Ledger) : Grown allowed ledger ledger :=
  ⟨[], (List.append_nil _).symm, by simp⟩

theorem Grown.trans {first second third : Ledger} (earlier : Grown allowed first second)
    (later : Grown allowed second third) : Grown allowed first third := by
  obtain ⟨added, second_eq, added_allowed⟩ := earlier
  obtain ⟨more, third_eq, more_allowed⟩ := later
  refine ⟨added ++ more, by rw [third_eq, second_eq, List.append_assoc], ?_⟩
  intro event event_mem
  rcases List.mem_append.mp event_mem with added_mem | more_mem
  · exact added_allowed event added_mem
  · exact more_allowed event more_mem

theorem Grown.imp {allowed' : Event → Prop} {before after : Ledger} (grown : Grown allowed before after)
    (implied : ∀ event, allowed event → allowed' event) : Grown allowed' before after := by
  obtain ⟨added, after_eq, added_allowed⟩ := grown
  exact ⟨added, after_eq, fun event event_mem => implied event (added_allowed event event_mem)⟩

theorem Grown.mem {before after : Ledger} (grown : Grown allowed before after) {event : Event}
    (event_mem : event ∈ before.events) : event ∈ after.events := by
  obtain ⟨added, after_eq, -⟩ := grown
  rw [after_eq]
  exact List.mem_append_left _ event_mem

/-- An event of the project was there before, or is one that was allowed. -/
theorem Grown.mem_cases {before after : Ledger} (grown : Grown allowed before after) {event : Event}
    (event_mem : event ∈ after.events) : event ∈ before.events ∨ allowed event := by
  obtain ⟨added, after_eq, added_allowed⟩ := grown
  rw [after_eq, List.mem_append] at event_mem
  exact event_mem.imp_right (added_allowed event)

theorem append_eq_ok {projectors : List Projector} {ledger after : Ledger} {event : Event} :
    ledger.append projectors event = .ok after ↔
      projectors.foldlM (project event) ledger.documents = .ok after.documents ∧
        after.events = ledger.events ++ [event] := by
  unfold append
  rw [Except.bind_eq_ok]
  constructor
  · rintro ⟨documents, folded, after_eq⟩
    obtain rfl := Except.ok.inj after_eq
    exact ⟨folded, rfl⟩
  · rintro ⟨folded, events_eq⟩
    refine ⟨after.documents, folded, ?_⟩
    rw [← events_eq]

/-- Recording one allowed event. -/
theorem grown_append {projectors : List Projector} {ledger after : Ledger} {event : Event}
    (appended : ledger.append projectors event = .ok after) (event_allowed : allowed event) :
    Grown allowed ledger after :=
  ⟨[event], (append_eq_ok.mp appended).2, by simpa using event_allowed⟩

/-! ### Every event and those before it -/

/-- Every event is as judged of the events before it. -/
def Every (judged : List Event → Event → Prop) (events : List Event) : Prop :=
  ∀ before event after, events = before ++ event :: after → judged before event

variable {judged : List Event → Event → Prop}

theorem Every.append {events : List Event} (every : Every judged events) {event : Event}
    (last : judged events event) : Every judged (events ++ [event]) := by
  intro before other after split
  rcases List.eq_nil_or_concat after with rfl | ⟨front, final, rfl⟩
  · obtain ⟨rfl, same⟩ := List.append_inj' split rfl
    obtain rfl := List.singleton_inj.mp same
    exact last
  · rw [List.concat_eq_append, ← List.cons_append, ← List.append_assoc] at split
    exact every before other front (List.append_inj' split rfl).1

/-- An event that is judged after some of the events it stands behind. -/
theorem Every.of_mem {events : List Event} (every : Every judged events) {event : Event}
    (event_mem : event ∈ events) : ∃ before, judged before event := by
  obtain ⟨before, after, split⟩ := List.append_of_mem event_mem
  exact ⟨before, every before event after split⟩

/-- Events are numbered from 1 on, and every number fits a column. -/
def Numbered (before : List Event) (event : Event) : Prop :=
  event.seq = before.length + 1 ∧ event.seq ≤ maxSqlInt

theorem Stamps.numbered {command : Command} {new : NewEvent} {ledger : Ledger} {event : Event}
    (stamps : Stamps command new ledger event) : Numbered ledger.events event :=
  ⟨stamps.seq_eq, stamps.seq_le⟩

/-! ### One view among the others -/

/-- What one change leaves at a key of a view. -/
theorem lookup_change (spec : ViewSpec) (seq : Nat) (documents : ViewDocuments) (made : Change)
    (view : String) (key : DocKey) :
    (change spec seq documents made).lookup (view, key) =
      if view = spec.name ∧ key = made.key then
        made.body.map fun body =>
          { key, producedSeq := seq, projectorVersion := spec.version, body }
      else documents.lookup (view, key) := by
  by_cases same : view = spec.name ∧ key = made.key
  · obtain ⟨rfl, rfl⟩ := same
    rw [if_pos ⟨rfl, rfl⟩]
    cases made with
    | put changed body => exact (Table.lookup_put documents _ _ _).trans (if_pos rfl)
    | delete changed => exact (Table.lookup_erase documents _ _).trans (if_pos rfl)
  · rw [if_neg same]
    have other : (view, key) ≠ (spec.name, made.key) := fun pair => same (Prod.mk.inj pair)
    cases made with
    | put changed body => exact (Table.lookup_put documents _ _ _).trans (if_neg other)
    | delete changed => exact (Table.lookup_erase documents _ _).trans (if_neg other)

theorem lookup_foldl_change_of_ne {spec : ViewSpec} {view : String} (other : view ≠ spec.name)
    (seq : Nat) (changes : List Change) (documents : ViewDocuments) (key : DocKey) :
    (changes.foldl (change spec seq) documents).lookup (view, key) =
      documents.lookup (view, key) := by
  induction changes generalizing documents with
  | nil => rfl
  | cons made changes ih =>
      rw [List.foldl_cons, ih, lookup_change, if_neg fun same => other same.1]

/-- A projector changes the documents of its own view only. -/
theorem project_of_ne {event : Event} {documents after : ViewDocuments} {projector : Projector}
    {view : String} (other : view ≠ projector.spec.name)
    (projected : project event documents projector = .ok after) (key : DocKey) :
    after.lookup (view, key) = documents.lookup (view, key) := by
  unfold project at projected
  split_ifs at projected
  · obtain ⟨changes, -, after_eq⟩ := Except.bind_eq_ok.mp projected
    obtain rfl := Except.ok.inj after_eq
    exact lookup_foldl_change_of_ne other _ _ _ _
  · obtain rfl := Except.ok.inj projected
    rfl

theorem foldlM_project_of_notMem {event : Event} {view : String} {projectors : List Projector}
    (absent : ∀ projector ∈ projectors, view ≠ projector.spec.name)
    {documents after : ViewDocuments}
    (folded : projectors.foldlM (project event) documents = .ok after) (key : DocKey) :
    after.lookup (view, key) = documents.lookup (view, key) := by
  induction projectors generalizing documents with
  | nil =>
      obtain rfl := Except.ok.inj folded
      rfl
  | cons projector projectors ih =>
      rw [List.foldlM_cons] at folded
      obtain ⟨middle, projected, folded⟩ := Except.bind_eq_ok.mp folded
      rw [ih (fun other other_mem => absent other (List.mem_cons_of_mem _ other_mem)) folded,
        project_of_ne (absent projector List.mem_cons_self) projected]

/-- What recording an event does to one view is what the view's projector does. -/
theorem lookup_append {port : Port} {projector : Projector}
    (projector_mem : projector ∈ port.allProjectors) {ledger after : Ledger} {event : Event}
    (appended : ledger.append port.allProjectors event = .ok after) :
    ∃ before projected, project event before projector = .ok projected ∧
      (∀ key, before.lookup (projector.spec.name, key) =
        ledger.document projector.spec.name key) ∧
      ∀ key, after.document projector.spec.name key =
        projected.lookup (projector.spec.name, key) := by
  obtain ⟨folded, -⟩ := append_eq_ok.mp appended
  obtain ⟨front, back, split⟩ := List.append_of_mem projector_mem
  have nodup : (port.allProjectors.map fun projector => projector.spec.name).Nodup :=
    port.views_nodup
  rw [split, List.map_append, List.map_cons] at nodup
  have apart := List.nodup_append.mp nodup
  rw [split, List.foldlM_append] at folded
  obtain ⟨before, front_folded, folded⟩ := Except.bind_eq_ok.mp folded
  rw [List.foldlM_cons] at folded
  obtain ⟨projected, projected_eq, back_folded⟩ := Except.bind_eq_ok.mp folded
  refine ⟨before, projected, projected_eq, fun key => ?_, fun key => ?_⟩
  · refine foldlM_project_of_notMem (fun other other_mem same => ?_) front_folded key
    exact apart.2.2 _ (List.mem_map_of_mem other_mem) _ List.mem_cons_self same.symm
  · refine foldlM_project_of_notMem (fun other other_mem same => ?_) back_folded key
    exact (List.nodup_cons.mp apart.2.1).1 (same ▸ List.mem_map_of_mem other_mem)

/-- An event its projector does not handle leaves a view alone. -/
theorem document_append_of_unhandled {port : Port} {projector : Projector}
    (projector_mem : projector ∈ port.allProjectors) {ledger after : Ledger} {event : Event}
    (unhandled : projector.handles.contains event.typeName = false)
    (appended : ledger.append port.allProjectors event = .ok after) (key : DocKey) :
    after.document projector.spec.name key = ledger.document projector.spec.name key := by
  obtain ⟨before, projected, projected_eq, before_eq, after_eq⟩ :=
    lookup_append projector_mem appended
  unfold project at projected_eq
  rw [unhandled, if_neg Bool.false_ne_true] at projected_eq
  obtain rfl := Except.ok.inj projected_eq
  rw [after_eq, before_eq]

/-! ### Views of the last event of a key -/

/-- The last of the events that is selected. -/
def lastOf (selects : Event → Bool) (events : List Event) : Option Event :=
  (events.filter selects).getLast?

theorem lastOf_append (selects : Event → Bool) (events : List Event) (event : Event) :
    lastOf selects (events ++ [event]) =
      if selects event then some event else lastOf selects events := by
  unfold lastOf
  rw [List.filter_append]
  by_cases selected : selects event = true
  · rw [List.filter_cons_of_pos selected, List.filter_nil, if_pos selected, List.getLast?_concat]
  · rw [List.filter_cons_of_neg selected, List.filter_nil, if_neg selected, List.append_nil]

theorem mem_of_lastOf {selects : Event → Bool} {events : List Event} {event : Event}
    (last : lastOf selects events = some event) : event ∈ events ∧ selects event = true :=
  List.mem_filter.mp (List.mem_of_getLast? last)

/-- A projector that keeps the last event it handles of each key, whatever was there. -/
structure KeepsLast (projector : Projector) (keyOf : Event → Option DocKey)
    (bodyOf : Event → Value) : Prop where
  applied : ∀ event documents changes, projector.handles.contains event.typeName = true →
    projector.apply event documents = .ok changes →
      ∃ key, keyOf event = some key ∧ changes = [.put key (bodyOf event)]

/-- Whether an event is one a projector handles for a key. -/
def ofKey (projector : Projector) (keyOf : Event → Option DocKey) (key : DocKey) (event : Event) :
    Bool :=
  projector.handles.contains event.typeName && keyOf event = some key

/-- The document that the last event of a key left. -/
def lastDocument (projector : Projector) (keyOf : Event → Option DocKey) (bodyOf : Event → Value)
    (events : List Event) (key : DocKey) : Option Document :=
  (lastOf (ofKey projector keyOf key) events).map fun event =>
    { key, producedSeq := event.seq, projectorVersion := projector.spec.version
      body := bodyOf event }

/-- A view shows the last event of each key. -/
def ShowsLast (projector : Projector) (keyOf : Event → Option DocKey) (bodyOf : Event → Value)
    (ledger : Ledger) : Prop :=
  ∀ key, ledger.document projector.spec.name key =
    lastDocument projector keyOf bodyOf ledger.events key

/-- Recording an event keeps a view of last events what it is. -/
theorem ShowsLast.append {port : Port} {projector : Projector} {keyOf : Event → Option DocKey}
    {bodyOf : Event → Value} (keeps : KeepsLast projector keyOf bodyOf)
    (projector_mem : projector ∈ port.allProjectors) {ledger after : Ledger} {event : Event}
    (shows : ShowsLast projector keyOf bodyOf ledger)
    (appended : ledger.append port.allProjectors event = .ok after) :
    ShowsLast projector keyOf bodyOf after := by
  intro key
  have events_eq := (append_eq_ok.mp appended).2
  unfold lastDocument
  rw [events_eq, lastOf_append]
  cases handled : projector.handles.contains event.typeName with
  | false =>
      rw [document_append_of_unhandled projector_mem handled appended, shows key]
      simp only [ofKey, handled, Bool.false_and, Bool.false_eq_true, if_false]
      rfl
  | true =>
      obtain ⟨before, projected, projected_eq, before_eq, after_eq⟩ :=
        lookup_append projector_mem appended
      unfold project at projected_eq
      rw [handled, if_pos rfl] at projected_eq
      obtain ⟨changes, applied, made⟩ := Except.bind_eq_ok.mp projected_eq
      obtain ⟨changed, changed_eq, rfl⟩ := keeps.applied _ _ _ handled applied
      obtain rfl := Except.ok.inj made
      rw [after_eq, List.foldl_cons, List.foldl_nil, lookup_change]
      simp only [Change.key, Change.body, Option.map_some, true_and, ofKey, handled, changed_eq,
        Bool.true_and, Option.some.injEq]
      by_cases same : key = changed
      · simp [same]
      · rw [if_neg same, before_eq, shows key]
        simp only [Ne.symm same, decide_false, Bool.false_eq_true, if_false]
        rfl

/-! ### The request view -/

theorem requestProjector_mem (port : Port) : requestProjector ∈ port.allProjectors :=
  List.mem_cons_of_mem _ List.mem_cons_self

/-- An event the decision of a command appended leaves the requests as they were. -/
theorem request_append_of_domain {port : Port} {ledger after : Ledger} {event : Event}
    (domain : storeOwned event.typeName = false)
    (appended : ledger.append port.allProjectors event = .ok after) (key : DocKey) :
    after.document requestView key = ledger.document requestView key := by
  refine document_append_of_unhandled (requestProjector_mem port) ?_ appended key
  refine Bool.eq_false_iff.mpr fun handled => ?_
  have owned : event.typeName = commandClaimed ∨ event.typeName = commandCompleted ∨
      event.typeName = commandReconciled := by simpa [requestProjector] using handled
  rcases owned with type_eq | type_eq | type_eq <;> rw [type_eq] at domain <;>
    exact absurd domain (by decide)

/-- The completion of a request puts its document, and no other. -/
theorem request_append_completed {port : Port} {ledger after : Ledger} {event : Event}
    {kind : CommandKind} {requestId : RequestId} {digest : Hash} {scope : List String}
    {outcome : Outcome} (type_eq : event.typeName = commandCompleted)
    (payload_eq : event.payload = completedPayloadFor kind requestId digest scope outcome)
    (appended : ledger.append port.allProjectors event = .ok after) (key : DocKey) :
    after.document requestView key =
      if key = [.text kind, .text requestId] then
        some { key, producedSeq := event.seq, projectorVersion := requestSpec.version
               body := event.payload.set "state" (.string "completed") }
      else ledger.document requestView key := by
  obtain ⟨before, projected, projected_eq, before_eq, after_eq⟩ :=
    lookup_append (requestProjector_mem port) appended
  have handled : requestProjector.handles.contains event.typeName = true := by
    rw [type_eq]
    rfl
  have key_eq : RequestProjector.keyOf event = some [.text kind, .text requestId] := by
    simp [RequestProjector.keyOf, payload_eq, completedPayloadFor]
  have applied (documents : List (DocKey × Value)) :
      requestProjector.apply event documents =
        .ok [.put [.text kind, .text requestId]
          (event.payload.set "state" (.string "completed"))] := by
    simp only [requestProjector, RequestProjector.apply, key_eq, type_eq]
    rw [if_neg (by decide), if_neg (by decide), if_pos trivial]
  unfold project at projected_eq
  rw [handled, if_pos rfl] at projected_eq
  dsimp only at projected_eq
  rw [applied] at projected_eq
  obtain rfl := Except.ok.inj projected_eq
  rw [show requestView = requestProjector.spec.name from rfl, after_eq, List.foldl_cons,
    List.foldl_nil, lookup_change, before_eq]
  simp only [true_and]
  rfl

end Ledger

/-! ### Decisions -/

namespace Draft

/-- What recording each allowed event keeps, a decision keeps. -/
theorem keeps {port : Port} {command : Command} {γ α : Type} {decide : Noting γ α}
    {may : NewEvent → Prop} {ends : Except StoreError α × γ → Prop}
    (issues : decide.All (Operation.Issued may) ends) (holds : Ledger → Prop)
    (step : ∀ new ledger event after, storeOwned new.typeName = false → may new →
      Ledger.Stamps command new ledger event →
      ledger.append port.allProjectors event = .ok after → holds ledger → holds after)
    {draft after : Draft} {result : Except StoreError α × γ}
    (runs : Script.Runs (Draft.Performs port command) decide draft result after)
    (draft_holds : holds draft.ledger) : holds after.ledger := by
  refine (issues.runs ?_ runs (motive := fun draft : Draft => holds draft.ledger) draft_holds).1
  intro operation before reply after issued performs before_holds
  have read {β : Type} {reply : Except StoreError β} {stated : β → Prop}
      (reads : before.Reads after reply stated) : holds after.ledger := by
    unfold Reads at reads
    split at reads
    · rw [reads.1]
      exact before_holds
    · rw [reads]
      exact before_holds
  cases operation with
  | append new wellFormed =>
      simp only [Performs] at performs
      split at performs
      · obtain ⟨domain, event, ledger, stamps, -, appended, rfl⟩ := performs
        exact step new _ event ledger domain (issued domain) stamps appended before_holds
      · rw [performs]
        exact before_holds
  | head =>
      rw [show after = before from performs]
      exact before_holds
  | get view key => exact read performs
  | find view query => exact read performs
  | eventExists matching => exact read performs
  | expect stream version => exact read performs
  | putPayload bytes retention => exact read performs
  | openClaims => exact read performs
  | recordAnchor anchor tag remote observedAt => exact read performs

end Draft

end Baley
