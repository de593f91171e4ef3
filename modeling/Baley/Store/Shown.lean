import Baley.Store.Standing

/-!
# The documents a query shows

What a page reads by seeks and lays its staged changes on is cut from one ordered list: the
documents the query matches, after the page's cursor.
-/

namespace Baley

open Json

namespace ViewTable

variable {table : ViewTable} {index : IndexSpec}

/-! ## Reading the stored rows -/

/-- Every row of the view in the generation was written by it. -/
def Kept (table : ViewTable) (documents : Documents) (generation : Nat) : Prop :=
  ∀ key row, documents.lookup (generation, table.val.name, key) = some row →
    ∃ body producedSeq, table.RowOf key body producedSeq row

/-- Whether a document has the equality values of a query. -/
def Matching (index : IndexSpec) (equals : List KeyValue) (document : Document) : Prop :=
  ∀ held ∈ index.fields.zip equals, held.1.toFieldSpec.read document.body = some held.2

instance (index : IndexSpec) (equals : List KeyValue) (document : Document) :
    Decidable (Matching index equals document) :=
  inferInstanceAs (Decidable (∀ held ∈ index.fields.zip equals, _))

theorem mem_storedRows {documents : Documents} {generation : Nat} {key : DocKey}
    {row : DocumentRow} :
    (key, row) ∈ table.storedRows documents generation ↔
      documents.lookup (generation, table.val.name, key) = some row := by
  rw [← Table.mem_rows, storedRows, List.mem_map]
  constructor
  · rintro ⟨⟨⟨generation', view, key'⟩, row'⟩, held_mem, same⟩
    obtain ⟨row_mem, named⟩ := List.mem_filter.mp held_mem
    obtain ⟨rfl, rfl⟩ := of_decide_eq_true named
    cases same
    exact row_mem
  · intro row_mem
    exact ⟨((generation, table.val.name, key), row),
      List.mem_filter.mpr ⟨row_mem, decide_eq_true ⟨rfl, rfl⟩⟩, rfl⟩

theorem nodup_storedRows (table : ViewTable) (documents : Documents) (generation : Nat) :
    ((table.storedRows documents generation).map Prod.fst).Nodup := by
  have keys_nodup : (documents.rows.map Prod.fst).Nodup := by
    rw [Table.rows, List.map_map]
    exact documents.nodupKeys
  rw [List.Nodup, List.pairwise_map] at keys_nodup
  rw [storedRows, List.map_map, List.Nodup, List.pairwise_map]
  refine (keys_nodup.filter _).imp_of_mem fun first_mem second_mem apart same => apart ?_
  obtain ⟨first_generation, first_view⟩ := of_decide_eq_true (List.mem_filter.mp first_mem).2
  obtain ⟨second_generation, second_view⟩ := of_decide_eq_true (List.mem_filter.mp second_mem).2
  exact Prod.ext (first_generation.trans second_generation.symm)
    (Prod.ext (first_view.trans second_view.symm) same)

theorem RowOf.matches_eq {key : DocKey} {body : Value} {producedSeq : Nat} {row : DocumentRow}
    (holds : table.RowOf key body producedSeq row) (index_mem : index ∈ table.val.indexes)
    (equals : List KeyValue) :
    table.matches' index equals (key, row) =
      decide (Matching index equals (documentOf (key, row))) := by
  rw [matches', Bool.eq_iff_iff, List.all_eq_true, decide_eq_true_iff]
  refine forall₂_congr fun held held_mem => ?_
  rw [decide_eq_true_iff]
  obtain ⟨value, reads, column_eq⟩ := holds.column_eq index_mem
    (List.mem_map_of_mem (f := IndexField.toFieldSpec) (List.of_mem_zip held_mem).1)
  rw [column_eq, holds.documentOf_eq, FieldSpec.read_canonicalForm _ holds.inversion.2.2.1, reads]

theorem append_lt_append_iff {ν : Type} [LinearOrder ν] (front first second : List ν) :
    front ++ first < front ++ second ↔ first < second := by
  induction front with
  | nil => rfl
  | cons value front ih => rw [List.cons_append, List.cons_append, List.cons_lt_cons_self, ih]

/-- Where a document stands in the order of a page. -/
def place (table : ViewTable) (index : IndexSpec) (fixed : Nat) (document : Document) :
    List (KeyValue ⊕ₗ KeyValueᵒᵈ) :=
  placed (table.orderAfter index fixed) (standing index fixed document)

/-- The stored rows that have the equality values of a query. -/
def matched (table : ViewTable) (documents : Documents) (generation : Nat) (index : IndexSpec)
    (equals : List KeyValue) : List (DocKey × DocumentRow) :=
  (table.storedRows documents generation).filter (table.matches' index equals)

/-- A document on a page, at its standing. -/
def foundOf (index : IndexSpec) (fixed : Nat) (document : Document) : Found where
  document := document
  position := standing index fixed document

/-- No two documents of different keys stand at one place. -/
theorem key_eq_of_place {first second : Document} (index_mem : index ∈ table.val.indexes)
    (stands : table.Stands first) (stands' : table.Stands second) {fixed : Nat}
    (same : table.place index fixed first = table.place index fixed second) :
    first.key = second.key :=
  key_eq_of_standing stands stands' (placed_inj (stands.standing_length index_mem fixed)
    (stands'.standing_length index_mem fixed) same)

section

variable {documents : Documents} {generation : Nat} {equals : List KeyValue}

theorem Kept.rowOf (kept : table.Kept documents generation) {row : DocKey × DocumentRow}
    (row_mem : row ∈ table.storedRows documents generation) :
    ∃ body producedSeq, table.RowOf row.1 body producedSeq row.2 :=
  kept row.1 row.2 (mem_storedRows.mp row_mem)

theorem Kept.stands (kept : table.Kept documents generation) {row : DocKey × DocumentRow}
    (row_mem : row ∈ table.storedRows documents generation) : table.Stands (documentOf row) := by
  obtain ⟨body, producedSeq, holds⟩ := kept.rowOf row_mem
  rw [holds.documentOf_eq]
  exact (holds.stands table.val.version).canonical holds.inversion.2.2.1

theorem nodup_matched (table : ViewTable) (documents : Documents) (generation : Nat)
    (index : IndexSpec) (equals : List KeyValue) :
    ((table.matched documents generation index equals).map Prod.fst).Nodup :=
  (table.nodup_storedRows documents generation).sublist (List.filter_sublist.map _)

/-- The stored rows a query matches, at different places. -/
theorem Kept.apart (kept : table.Kept documents generation) (index_mem : index ∈ table.val.indexes)
    (equals : List KeyValue) (fixed : Nat) :
    ((table.matched documents generation index equals).map fun row =>
      table.place index fixed (documentOf row)).Nodup := by
  have keys_nodup := table.nodup_matched documents generation index equals
  rw [List.Nodup, List.pairwise_map] at keys_nodup ⊢
  exact keys_nodup.imp_of_mem fun first_mem second_mem apart same => apart
    (key_eq_of_place index_mem (kept.stands (List.mem_of_mem_filter first_mem))
      (kept.stands (List.mem_of_mem_filter second_mem)) same)

theorem Kept.matching (kept : table.Kept documents generation)
    (index_mem : index ∈ table.val.indexes) {row : DocKey × DocumentRow} :
    row ∈ table.matched documents generation index equals ↔
      row ∈ table.storedRows documents generation ∧ Matching index equals (documentOf row) := by
  rw [matched, List.mem_filter]
  refine and_congr_right fun row_mem => ?_
  obtain ⟨body, producedSeq, holds⟩ := kept.rowOf row_mem
  rw [holds.matches_eq index_mem, decide_eq_true_iff]

theorem Kept.found_eq (kept : table.Kept documents generation)
    (index_mem : index ∈ table.val.indexes) (fixed : Nat) {row : DocKey × DocumentRow}
    (row_mem : row ∈ table.storedRows documents generation) :
    table.found (table.orderAfter index fixed) row = .ok (foundOf index fixed (documentOf row)) := by
  obtain ⟨body, producedSeq, holds⟩ := kept.rowOf row_mem
  have key_length : table.val.key.length = (documentOf row).key.length := by
    simpa using (congrArg List.length (kept.stands row_mem).kinds_eq).symm
  have key_eq : (standing index fixed (documentOf row)).drop
      ((standing index fixed (documentOf row)).length - table.val.key.length) = row.1 := by
    rw [key_length, standing, List.length_append, Nat.add_sub_cancel, List.drop_left]
    rfl
  rw [found, holds.position_eq index_mem]
  simp only [key_eq]
  rw [holds.document_eq]
  rfl

end

/-! ## Laying the staged changes on top -/

/-- Every staged change of the view can be written: its key fits, and its body is one the view
takes. -/
def Takes (table : ViewTable) (staging : Staging) : Prop :=
  ∀ key change, staging.lookup (table.val.name, key) = some change →
    table.val.checkKey key = .ok () ∧
      ∀ body ∈ change.body, ∃ row, table.RowOf key body change.producedSeq row

/-- The documents the staged changes leave. -/
def stagedDocuments (table : ViewTable) (staging : Staging) : List Document :=
  (table.changes staging).filterMap fun change => change.2.document table.val change.1

theorem mem_changes {staging : Staging} {key : DocKey} {change : Staged} :
    (key, change) ∈ table.changes staging ↔
      staging.lookup (table.val.name, key) = some change := by
  rw [← Table.mem_rows, changes, List.mem_mergeSort, List.mem_map]
  constructor
  · rintro ⟨⟨⟨view, key'⟩, change'⟩, held_mem, same⟩
    obtain ⟨row_mem, named⟩ := List.mem_filter.mp held_mem
    obtain rfl := of_decide_eq_true named
    cases same
    exact row_mem
  · intro row_mem
    exact ⟨((table.val.name, key), change),
      List.mem_filter.mpr ⟨row_mem, decide_eq_true rfl⟩, rfl⟩

theorem mem_stagedDocuments {staging : Staging} {document : Document} :
    document ∈ table.stagedDocuments staging ↔
      ∃ change, staging.lookup (table.val.name, document.key) = some change ∧
        change.document table.val document.key = some document := by
  rw [stagedDocuments, List.mem_filterMap]
  constructor
  · rintro ⟨⟨key, change⟩, change_mem, document_eq⟩
    have key_eq : document.key = key := by
      obtain ⟨body, -, rfl⟩ := Option.map_eq_some_iff.mp document_eq
      rfl
    rw [key_eq]
    exact ⟨change, mem_changes.mp change_mem, document_eq⟩
  · rintro ⟨change, found, document_eq⟩
    exact ⟨(document.key, change), mem_changes.mpr found, document_eq⟩

section

variable {staging : Staging} {equals : List KeyValue} {after : Option (List KeyValue)}

/-- A staged body is one the view takes. -/
theorem Takes.rowOf (takes : table.Takes staging) {document : Document}
    (document_mem : document ∈ table.stagedDocuments staging) :
    ∃ row, table.RowOf document.key document.body document.producedSeq row ∧
      document.projectorVersion = table.val.version := by
  obtain ⟨change, found, document_eq⟩ := mem_stagedDocuments.mp document_mem
  obtain ⟨body, body_eq, same⟩ := Option.map_eq_some_iff.mp document_eq
  obtain ⟨row, holds⟩ := (takes document.key change found).2 body body_eq
  rw [← same] at holds ⊢
  exact ⟨row, holds, rfl⟩

theorem Takes.stands (takes : table.Takes staging) {document : Document}
    (document_mem : document ∈ table.stagedDocuments staging) : table.Stands document := by
  obtain ⟨row, holds, -⟩ := takes.rowOf document_mem
  exact holds.stands document.projectorVersion

end

/-! ## The whole page -/

/-- Every document a query shows under the staged changes, in the page's order. -/
def shown (table : ViewTable) (documents : Documents) (generation : Nat) (staging : Staging)
    (index : IndexSpec) (equals : List KeyValue) : List Document :=
  Paged.arranged (table.place index equals.length)
    ((((table.matched documents generation index equals).map documentOf).filter fun document =>
        !((table.changes staging).map Prod.fst).contains document.key) ++
      (table.stagedDocuments staging).filter fun document =>
        decide (Matching index equals document))

section

variable {documents : Documents} {generation : Nat} {staging : Staging} {equals : List KeyValue}

theorem order_eq {read : IndexRead} (declared : read.view.index read.query.index = .ok index)
    (fits : read.view.equalsValues index read.query.equals = .ok read.query.equals) :
    read.order = .ok (read.view.orderAfter index read.query.equals.length) := by
  simp only [IndexRead.order, declared, fits, bind, Except.bind]

end

end ViewTable

end Baley
