import Baley.Store.Shown

/-!
# A page over staged changes

A page read with staged changes laid on top is the page that is read once they are written, and
following cursors visits every matching document once, in the index's order.
-/

namespace Baley

open Json

namespace ViewTable

variable {table : ViewTable} {index : IndexSpec}

/-! ## What is written of the staged changes -/

/-- A document as it is read back once written. -/
def canonical (document : Document) : Document :=
  { document with body := canonicalForm document.body }

/-- The document at a key under the staged changes. -/
def sees (table : ViewTable) (documents : Documents) (generation : Nat) (staging : Staging)
    (key : DocKey) : Option Document :=
  match staging.lookup (table.val.name, key) with
  | some change => change.document table.val key
  | none =>
      (documents.lookup (generation, table.val.name, key)).map fun row => documentOf (key, row)

section

variable {documents written : Documents} {generation : Nat} {staging : Staging}
  {equals : List KeyValue}

theorem key_of_sees {key : DocKey} {document : Document}
    (seen : table.sees documents generation staging key = some document) : document.key = key := by
  unfold sees at seen
  split at seen
  · obtain ⟨_, -, rfl⟩ := Option.map_eq_some_iff.mp seen
    rfl
  · obtain ⟨_, -, rfl⟩ := Option.map_eq_some_iff.mp seen
    rfl

/-- Every change a view takes can be written. -/
theorem Takes.writes (takes : table.Takes staging) :
    ∃ written, table.writeChanges generation (table.changes staging) documents = .ok written := by
  have write_all : ∀ (changes : List (DocKey × Staged)) (documents : Documents),
      (∀ change ∈ changes, staging.lookup (table.val.name, change.1) = some change.2) →
      ∃ written, table.writeChanges generation changes documents = .ok written := by
    intro changes
    induction changes with
    | nil => exact fun documents _ => ⟨documents, rfl⟩
    | cons change changes ih =>
        intro documents found
        rw [List.forall_mem_cons] at found
        obtain ⟨key_fits, bodies⟩ := takes change.1 change.2 found.1
        obtain ⟨middle, first⟩ : ∃ middle, writeChange table.val generation change.1 change.2.body
            change.2.producedSeq documents = .ok middle := by
          unfold writeChange
          rw [key_fits]
          cases body_eq : change.2.body with
          | none => exact ⟨_, rfl⟩
          | some body =>
              obtain ⟨row, holds⟩ := bodies body body_eq
              simp only [bind, Except.bind, holds.written]
              exact ⟨_, rfl⟩
        obtain ⟨written, rest⟩ := ih middle found.2
        exact ⟨written, Except.bind_eq_ok.mpr ⟨middle, first, rest⟩⟩
  exact write_all (table.changes staging) documents fun change change_mem =>
    mem_changes.mp change_mem

section

variable (kept : table.Kept documents generation) (takes : table.Takes staging)
  (writes : table.writeChanges generation (table.changes staging) documents = .ok written)

include takes writes

end

end

/-! ## The page and the walk -/

section

variable {documents written : Documents} {generation : Nat} {staging : Staging}

end

end ViewTable

section

variable {read : IndexRead} {documents : Documents} {staging : Staging}

end

end Baley
