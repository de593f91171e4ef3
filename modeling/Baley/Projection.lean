import Baley.Attempt
import Baley.Table
import Baley.View

/-!
# Projection

A view's documents change only as its projector says, one event after the other.
-/

namespace Baley

open Json

namespace Projector

variable (projector : Projector)

/-- Apply one change to the documents of a view. -/
def change (documents : Table DocKey Value) : Change → Table DocKey Value
  | .put key body => documents.insert key body
  | .delete key => documents.erase key

/-- Fold one event into the documents of the projector's view. -/
def project (documents : Table DocKey Value) (event : Event) :
    Except String (Table DocKey Value) :=
  if projector.handles.contains event.typeName then do
    let given := (projector.keys event).filterMap fun key =>
      (documents.lookup key).map fun body => (key, body)
    let changes ← projector.apply event given
    .ok (changes.foldl change documents)
  else .ok documents

/-- Fold events into the documents, in order. -/
def projectAll (documents : Table DocKey Value) (events : List Event) :
    Except String (Table DocKey Value) :=
  events.foldlM projector.project documents

variable {projector} {documents after : Table DocKey Value} {event : Event}

theorem projectAll_nil : projector.projectAll documents [] = .ok documents := rfl

theorem projectAll_cons (events : List Event) :
    projector.projectAll documents (event :: events) =
      (projector.project documents event >>= fun after => projector.projectAll after events) := rfl

/-- An event that puts the one document it names. -/
theorem project_put {key : DocKey} {body : Value}
    (handled : projector.handles.contains event.typeName = true) (keys_eq : projector.keys event = [key])
    (applied : projector.apply event
      ((documents.lookup key).toList.map fun body => (key, body)) = .ok [.put key body]) :
    projector.project documents event = .ok (documents.insert key body) := by
  have given_eq : ([key].filterMap fun key => (documents.lookup key).map fun body => (key, body)) =
      (documents.lookup key).toList.map fun body => (key, body) := by
    cases found : documents.lookup key with
    | none => simp [found]
    | some body => simp [found]
  unfold project
  rw [if_pos handled, keys_eq, given_eq]
  simp only
  rw [applied]
  rfl

/-! ### Changes under distinct keys -/

theorem lookup_foldl_change_of_notMem {changes : List Change} {key : DocKey}
    (absent : key ∉ changes.map Change.key) (documents : Table DocKey Value) :
    (changes.foldl change documents).lookup key = documents.lookup key := by
  induction changes generalizing documents with
  | nil => rfl
  | cons head changes ih =>
      rw [List.map_cons, List.mem_cons, not_or] at absent
      rw [List.foldl_cons, ih absent.2]
      cases head with
      | put changed body =>
          rw [change, Table.lookup_put, if_neg (show key ≠ changed from absent.1)]
      | delete changed =>
          rw [change, Table.lookup_erase, if_neg (show key ≠ changed from absent.1)]

/-- Changes under distinct keys each leave their own body. -/
theorem lookup_foldl_change_of_mem {changes : List Change}
    (distinct : (changes.map Change.key).Nodup) {made : Change} (made_mem : made ∈ changes)
    (documents : Table DocKey Value) :
    (changes.foldl change documents).lookup made.key = made.body := by
  induction changes generalizing documents with
  | nil => exact absurd made_mem List.not_mem_nil
  | cons head changes ih =>
      rw [List.map_cons, List.nodup_cons] at distinct
      rw [List.foldl_cons]
      rcases List.mem_cons.mp made_mem with rfl | made_mem
      · rw [lookup_foldl_change_of_notMem distinct.1]
        cases made with
        | put changed body =>
            exact (Table.lookup_put documents changed changed body).trans (if_pos rfl)
        | delete changed => exact (Table.lookup_erase documents changed changed).trans (if_pos rfl)
      · exact ih distinct.2 made_mem _

/-- Of the documents an event is given, the one at a key it names is the one held there. -/
theorem find_given {keys : List DocKey} {key : DocKey} (key_mem : key ∈ keys)
    (documents : Table DocKey Value) :
    ((keys.filterMap fun key => (documents.lookup key).map fun body => (key, body)).find?
      fun found => found.1 = key).map Prod.snd = documents.lookup key := by
  induction keys with
  | nil => exact absurd key_mem List.not_mem_nil
  | cons head keys ih =>
      by_cases at_head : head = key
      · subst at_head
        cases held : documents.lookup head with
        | some body => simp [held]
        | none =>
            rw [List.filterMap_cons_none (by simp [held])]
            by_cases head_mem : head ∈ keys
            · exact (ih head_mem).trans held
            · rw [Option.map_eq_none_iff, List.find?_eq_none]
              intro found found_mem same
              obtain ⟨key', key'_mem, found_eq⟩ := List.mem_filterMap.mp found_mem
              obtain ⟨body, -, rfl⟩ := Option.map_eq_some_iff.mp found_eq
              exact head_mem (of_decide_eq_true same ▸ key'_mem)
      · have rest_mem := (List.mem_cons.mp key_mem).resolve_left (Ne.symm at_head)
        cases held : documents.lookup head with
        | some body => simpa [held, at_head] using ih rest_mem
        | none => simpa [held] using ih rest_mem

end Projector

end Baley
