import Baley.Store.Paging
import Baley.Store.Recorded

/-!
# Where a document stands

A document has a standing in every index of its view: its values in the index's fields, then its
key.  A row's columns hold its document's standing, and standings in their directions are one linear
order.
-/

namespace Baley

open Json

/-! ## Positions as one linear order -/

/-- A value in a column's direction. -/
def directed : Order → KeyValue → KeyValue ⊕ₗ KeyValueᵒᵈ
  | .ascending, value => Sum.inlₗ value
  | .descending, value => Sum.inrₗ (OrderDual.toDual value)

/-- A position in a page's order. -/
def placed (order : List ViewTable.OrderColumn) (position : List KeyValue) :
    List (KeyValue ⊕ₗ KeyValueᵒᵈ) :=
  List.zipWith (fun column value => directed column.order value) order position

theorem directed_injective (order : Order) : Function.Injective (directed order) := by
  intro value value' same
  cases order with
  | ascending => exact Sum.inl_injective (toLex.injective same)
  | descending => exact OrderDual.toDual.injective (Sum.inr_injective (toLex.injective same))

theorem placed_inj {order : List ViewTable.OrderColumn} {left right : List KeyValue}
    (left_length : left.length = order.length) (right_length : right.length = order.length)
    (same : placed order left = placed order right) : left = right := by
  induction order generalizing left right with
  | nil =>
      rw [List.length_eq_zero_iff.mp left_length, List.length_eq_zero_iff.mp right_length]
  | cons column order ih =>
      obtain ⟨value, left, rfl⟩ := List.exists_cons_of_length_eq_add_one left_length
      obtain ⟨value', right, rfl⟩ := List.exists_cons_of_length_eq_add_one right_length
      obtain ⟨value_eq, rest_eq⟩ := List.cons.inj same
      rw [directed_injective column.order value_eq,
        ih (Nat.succ.inj left_length) (Nat.succ.inj right_length) rest_eq]

/-! ## What a document holds in a view's columns -/

theorem FieldSpec.kind_of_read {field : FieldSpec} {body : Value} {value : KeyValue}
    (reads : field.read body = some value) : value.kind = field.kind ∧ value.Fits := by
  unfold FieldSpec.read at reads
  cases kind_eq : field.kind with
  | text =>
      rw [kind_eq] at reads
      obtain ⟨text, -, rfl⟩ := Option.map_eq_some_iff.mp reads
      exact ⟨rfl, trivial⟩
  | integer =>
      rw [kind_eq] at reads
      obtain ⟨integer, integer_eq, rfl⟩ := Option.map_eq_some_iff.mp reads
      obtain ⟨held, -, integer_eq⟩ := Option.bind_eq_some_iff.mp integer_eq
      cases held with
      | number text =>
          rw [Value.asI64, Value.readI64, Option.filter_eq_some_iff, decide_eq_true_iff]
            at integer_eq
          exact ⟨rfl, integer_eq.2⟩
      | _ => cases integer_eq

theorem asI64_canonicalForm {value : Value} (inDomain : InDomain value) :
    (canonicalForm value).asI64 = value.asI64 := by
  cases inDomain with
  | @number text integer safe =>
      have bounds := safeInteger_bounds safe
      have integer_eq : Value.readI64 text = some integer := by
        rw [safeInteger, Option.filter_eq_some_iff] at safe
        exact safe.1
      rw [canonicalForm, safe, Option.getD_some, Value.asI64, Value.asI64, integer_eq,
        Value.readI64_repr]
      simp only [maxSafeInteger] at bounds
      omega
  | _ => rfl

/-- The canonical form of a body holds the same in every column. -/
theorem FieldSpec.read_canonicalForm (field : FieldSpec) {body : Value} (inDomain : InDomain body) :
    field.read (canonicalForm body) = field.read body := by
  unfold FieldSpec.read
  rw [get?_canonicalForm]
  cases found : body.get? field.name with
  | none => rfl
  | some held =>
      rw [Option.map_some, Option.bind_some, Option.bind_some, Option.bind_some, Option.bind_some,
        asStr_canonicalForm, asI64_canonicalForm (inDomain.get? found)]

namespace ViewTable

variable {table : ViewTable} {index : IndexSpec}

/-- A body the view takes at a key, and the row it is written as. -/
structure RowOf (table : ViewTable) (key : DocKey) (body : Value) (producedSeq : Nat)
    (row : DocumentRow) : Prop where
  key_fits : table.val.checkKey key = .ok ()
  written : table.val.row key body producedSeq = .ok row
  wellFormed : body.WellFormed
  nests : body.nesting < recursionLimit

/-- A document that stands in every index of its view. -/
structure Stands (table : ViewTable) (document : Document) : Prop where
  kinds_eq : document.key.map KeyValue.kind = table.val.key.map FieldSpec.kind
  key_fits : ∀ value ∈ document.key, value.Fits
  reads : ∀ index ∈ table.val.indexes, ∀ field ∈ index.columns,
    ∃ value, field.read document.body = some value

/-- A document's values in a page's order. -/
def standing (index : IndexSpec) (fixed : Nat) (document : Document) : List KeyValue :=
  (index.columns.drop fixed).filterMap (fun field => field.read document.body) ++ document.key

theorem mem_indexColumns {field : FieldSpec} (index_mem : index ∈ table.val.indexes)
    (field_mem : field ∈ index.columns) : field ∈ table.val.indexColumns :=
  List.mem_eraseDups.mpr (List.mem_flatMap.mpr ⟨index, index_mem, field_mem⟩)

theorem mem_of_mem_indexColumns {field : FieldSpec} (field_mem : field ∈ table.val.indexColumns) :
    ∃ index ∈ table.val.indexes, field ∈ index.columns :=
  List.mem_flatMap.mp (List.mem_eraseDups.mp field_mem)

/-- The columns written for fields whose names tell them apart. -/
theorem lookup_columns {fields : List FieldSpec} {body : Value} {columns : List (String × KeyValue)}
    (written : fields.mapM (table.val.indexColumn body) = .ok columns)
    (one : ∀ field ∈ fields, ∀ other ∈ fields, field.name = other.name → field = other) :
    ∀ field ∈ fields, ∃ value, field.read body = some value ∧
      columns.lookup field.name = some value := by
  induction fields generalizing columns with
  | nil => exact fun field field_mem => absurd field_mem List.not_mem_nil
  | cons head fields ih =>
      rw [List.mapM_cons] at written
      obtain ⟨column, column_eq, written⟩ := Except.bind_eq_ok.mp written
      obtain ⟨rest, rest_eq, written⟩ := Except.bind_eq_ok.mp written
      cases written
      have head_reads : ∃ value, head.read body = some value ∧ column = (head.name, value) := by
        unfold ViewSpec.indexColumn at column_eq
        cases reads : head.read body with
        | none =>
            rw [reads] at column_eq
            cases column_eq
        | some value =>
            rw [reads] at column_eq
            exact ⟨value, rfl, (Except.ok.inj column_eq).symm⟩
      obtain ⟨value, head_reads, rfl⟩ := head_reads
      intro field field_mem
      by_cases same : field.name = head.name
      · obtain rfl := one field field_mem head List.mem_cons_self same
        exact ⟨value, head_reads, by simp⟩
      · have tail_mem := (List.mem_cons.mp field_mem).resolve_left fun eq => same (congrArg _ eq)
        obtain ⟨held, held_eq, looked⟩ := ih rest_eq (fun first first_mem second second_mem =>
          one first (List.mem_cons_of_mem _ first_mem) second (List.mem_cons_of_mem _ second_mem))
          field tail_mem
        refine ⟨held, held_eq, ?_⟩
        rw [List.lookup_cons, beq_eq_false_iff_ne.mpr same]
        exact looked

theorem lookup_zip {names : List String} (nodup : names.Nodup) {key : DocKey}
    (length_eq : key.length = names.length) :
    names.map ((names.zip key).lookup ·) = key.map some := by
  induction names generalizing key with
  | nil => rw [List.length_eq_zero_iff.mp length_eq]; rfl
  | cons name names ih =>
      obtain ⟨value, key, rfl⟩ := List.exists_cons_of_length_eq_add_one length_eq
      rw [List.nodup_cons] at nodup
      have rest_eq : names.map ((((name :: names).zip (value :: key))).lookup ·) =
          names.map ((names.zip key).lookup ·) := by
        refine List.map_congr_left fun other other_mem => ?_
        have other_ne : other ≠ name := fun same => nodup.1 (same ▸ other_mem)
        rw [List.zip_cons_cons, List.lookup_cons, beq_eq_false_iff_ne.mpr other_ne]
      rw [List.map_cons, rest_eq, ih nodup.2 (Nat.succ.inj length_eq)]
      simp

/-! ## Rows and their documents -/

/-- The document of a row as a page returns it. -/
def documentOf (row : DocKey × DocumentRow) : Document where
  key := row.1
  producedSeq := row.2.producedSeq
  projectorVersion := row.2.projectorVersion
  body := (readDocument recursionLimit row.2.text).getD .null

theorem forM_checkKeyField {body : Value} {fields : List (FieldSpec × KeyValue)}
    (checked : fields.forM (table.val.checkKeyField body) = .ok ()) :
    ∀ held ∈ fields, ({ held.1 with kind := held.2.kind } : FieldSpec).read body = some held.2 := by
  induction fields with
  | nil => exact fun held held_mem => absurd held_mem List.not_mem_nil
  | cons head fields ih =>
      obtain ⟨_, head_eq, rest⟩ := Except.bind_eq_ok.mp checked
      rw [ViewSpec.checkKeyField, Except.require_eq_ok] at head_eq
      exact List.forall_mem_cons.mpr ⟨head_eq, ih rest⟩

/-- What a row was written from. -/
theorem RowOf.inversion {key : DocKey} {body : Value} {producedSeq : Nat} {row : DocumentRow}
    (holds : table.RowOf key body producedSeq row) :
    (∀ held ∈ table.val.key.zip key,
      ({ held.1 with kind := held.2.kind } : FieldSpec).read body = some held.2) ∧
    table.val.indexColumns.mapM (table.val.indexColumn body) = .ok row.columns ∧
    InDomain body ∧ row.text = String.ofList (compact body) ∧ row.producedSeq = producedSeq ∧
    row.projectorVersion = table.val.version := by
  have written := holds.written
  simp only [ViewSpec.row, Except.bind_eq_ok, Except.mapError_eq_ok, Except.require_eq_ok,
    Except.ok.injEq] at written
  obtain ⟨_, checked, columns, columns_eq, _, -, text, text_eq, rfl⟩ := written
  obtain ⟨inDomain, text_eq⟩ := canonicalText_eq_ok_iff.mp text_eq
  exact ⟨forM_checkKeyField checked, columns_eq, inDomain, text_eq, rfl, rfl⟩

theorem RowOf.kinds {key : DocKey} {body : Value} {producedSeq : Nat} {row : DocumentRow}
    (holds : table.RowOf key body producedSeq row) :
    key.map KeyValue.kind = table.val.key.map FieldSpec.kind := by
  have key_fits := holds.key_fits
  rwa [ViewSpec.checkKey, Except.require_eq_ok] at key_fits

theorem one_field (field : FieldSpec) (field_mem : field ∈ table.val.indexColumns)
    (other : FieldSpec) (other_mem : other ∈ table.val.indexColumns)
    (same : field.name = other.name) : field = other := by
  obtain ⟨index, index_mem, field_mem⟩ := mem_of_mem_indexColumns field_mem
  obtain ⟨index', index'_mem, other_mem⟩ := mem_of_mem_indexColumns other_mem
  have kind_eq :=
    table.property.one_kind index index_mem field field_mem index' index'_mem other other_mem same
  cases field
  cases other
  exact FieldSpec.mk.injEq .. ▸ ⟨same, kind_eq⟩

theorem RowOf.documentOf_eq {key : DocKey} {body : Value} {producedSeq : Nat} {row : DocumentRow}
    (holds : table.RowOf key body producedSeq row) :
    documentOf (key, row) =
      { key, producedSeq, projectorVersion := table.val.version, body := canonicalForm body } := by
  obtain ⟨-, -, inDomain, text_eq, seq_eq, version_eq⟩ := holds.inversion
  simp only [documentOf, text_eq, seq_eq, version_eq,
    readDocument_compact holds.wellFormed inDomain holds.nests, Option.getD_some]

theorem RowOf.document_eq {key : DocKey} {body : Value} {producedSeq : Nat} {row : DocumentRow}
    (holds : table.RowOf key body producedSeq row) :
    row.document key = .ok (documentOf (key, row)) := by
  obtain ⟨-, -, inDomain, text_eq, -⟩ := holds.inversion
  simp only [DocumentRow.document, documentOf, text_eq,
    readDocument_compact holds.wellFormed inDomain holds.nests, Option.getD_some]

theorem RowOf.column_eq {key : DocKey} {body : Value} {producedSeq : Nat} {row : DocumentRow}
    (holds : table.RowOf key body producedSeq row) (index_mem : index ∈ table.val.indexes)
    {field : FieldSpec} (field_mem : field ∈ index.columns) :
    ∃ value, field.read body = some value ∧
      table.columnValue (key, row) (.index field.name) = some value :=
  lookup_columns holds.inversion.2.1 one_field field (mem_indexColumns index_mem field_mem)

/-- What is put at a key stands in the view, as does what its row is read as. -/
theorem RowOf.stands {key : DocKey} {body : Value} {producedSeq : Nat} {row : DocumentRow}
    (holds : table.RowOf key body producedSeq row) (version : Nat) :
    table.Stands { key, producedSeq, projectorVersion := version, body } := by
  obtain ⟨keyed, -⟩ := holds.inversion
  have kinds := holds.kinds
  refine ⟨kinds, fun value value_mem => ?_, fun index index_mem field field_mem => ?_⟩
  · have length_le : key.length ≤ table.val.key.length := by
      simpa using (congrArg List.length kinds).le
    change value ∈ key at value_mem
    rw [← List.map_snd_zip length_le] at value_mem
    obtain ⟨held, held_mem, rfl⟩ := List.mem_map.mp value_mem
    exact (FieldSpec.kind_of_read (keyed held held_mem)).2
  · obtain ⟨value, reads, -⟩ := holds.column_eq index_mem field_mem
    exact ⟨value, reads⟩

theorem Stands.canonical {document : Document} (stands : table.Stands document)
    (inDomain : InDomain document.body) :
    table.Stands { document with body := canonicalForm document.body } where
  kinds_eq := stands.kinds_eq
  key_fits := stands.key_fits
  reads := fun index index_mem field field_mem => by
    rw [field.read_canonicalForm inDomain]
    exact stands.reads index index_mem field field_mem

theorem filterMap_read {fields : List FieldSpec} {body : Value}
    (reads : ∀ field ∈ fields, ∃ value, field.read body = some value) :
    (fields.filterMap fun field => field.read body).map KeyValue.kind =
        fields.map FieldSpec.kind ∧
      ∀ value ∈ fields.filterMap (fun field => field.read body), value.Fits := by
  induction fields with
  | nil => exact ⟨rfl, fun value value_mem => absurd value_mem List.not_mem_nil⟩
  | cons field fields ih =>
      rw [List.forall_mem_cons] at reads
      obtain ⟨value, value_eq⟩ := reads.1
      obtain ⟨kinds_eq, fits⟩ := ih reads.2
      obtain ⟨kind_eq, value_fits⟩ := FieldSpec.kind_of_read value_eq
      simp only [List.filterMap_cons, value_eq]
      exact ⟨by rw [List.map_cons, List.map_cons, kind_eq, kinds_eq],
        List.forall_mem_cons.mpr ⟨value_fits, fits⟩⟩

theorem orderAfter_kinds (table : ViewTable) (index : IndexSpec) (fixed : Nat) :
    (table.orderAfter index fixed).map OrderColumn.kind =
      (index.columns.drop fixed).map FieldSpec.kind ++ table.val.key.map FieldSpec.kind := by
  simp [orderAfter, IndexSpec.columns, List.map_drop, Function.comp_def]

theorem Stands.standing_spec {document : Document} (stands : table.Stands document)
    (index_mem : index ∈ table.val.indexes) (fixed : Nat) :
    (standing index fixed document).map KeyValue.kind =
        (table.orderAfter index fixed).map OrderColumn.kind ∧
      ∀ value ∈ standing index fixed document, value.Fits := by
  have reads : ∀ field ∈ index.columns.drop fixed, ∃ value, field.read document.body = some value :=
    fun field field_mem => stands.reads index index_mem field (List.mem_of_mem_drop field_mem)
  obtain ⟨kinds_eq, fits⟩ := filterMap_read reads
  refine ⟨?_, fun value value_mem => ?_⟩
  · rw [standing, List.map_append, kinds_eq, stands.kinds_eq, orderAfter_kinds]
  · rcases List.mem_append.mp value_mem with in_index | in_key
    · exact fits value in_index
    · exact stands.key_fits value in_key

theorem Stands.standing_length {document : Document} (stands : table.Stands document)
    (index_mem : index ∈ table.val.indexes) (fixed : Nat) :
    (standing index fixed document).length = (table.orderAfter index fixed).length := by
  simpa using congrArg List.length (stands.standing_spec index_mem fixed).1

/-- Two documents at one standing have one key. -/
theorem key_eq_of_standing {first second : Document} (stands : table.Stands first)
    (stands' : table.Stands second) {fixed : Nat}
    (same : standing index fixed first = standing index fixed second) :
    first.key = second.key := by
  have lengths : first.key.length = second.key.length := by
    have kinds_eq := congrArg List.length (stands.kinds_eq.trans stands'.kinds_eq.symm)
    rwa [List.length_map, List.length_map] at kinds_eq
  exact (List.append_inj' same lengths).2

/-! ## A row's columns are its document's standing -/

theorem RowOf.columns_eq {key : DocKey} {body : Value} {producedSeq : Nat} {row : DocumentRow}
    (holds : table.RowOf key body producedSeq row) (index_mem : index ∈ table.val.indexes)
    (fixed : Nat) :
    (table.orderAfter index fixed).map (fun column => table.columnValue (key, row) column.column) =
      (standing index fixed (documentOf (key, row))).map some := by
  have inDomain := holds.inversion.2.2.1
  rw [holds.documentOf_eq, standing, orderAfter, List.map_append, List.map_append]
  congr 1
  · have read_all : ∀ fields : List IndexField,
        (∀ field ∈ fields, field.toFieldSpec ∈ index.columns) →
        fields.map (fun field => table.columnValue (key, row) (.index field.name)) =
          ((fields.map IndexField.toFieldSpec).filterMap fun field =>
            field.read (canonicalForm body)).map some := by
      intro fields fields_mem
      induction fields with
      | nil => rfl
      | cons field fields ih =>
          rw [List.forall_mem_cons] at fields_mem
          obtain ⟨value, reads, column_eq⟩ := holds.column_eq index_mem fields_mem.1
          have reads' := (FieldSpec.read_canonicalForm field.toFieldSpec inDomain).trans reads
          simp only [List.map_cons, List.filterMap_cons, reads', column_eq, ih fields_mem.2]
    have columns := read_all (index.fields.drop fixed) fun field field_mem =>
      List.mem_map_of_mem (List.mem_of_mem_drop field_mem)
    rw [List.map_map, IndexSpec.columns, ← List.map_drop]
    exact columns
  · have lengths : key.length = (table.val.key.map FieldSpec.name).length := by
      simpa using congrArg List.length holds.kinds
    have keyed := lookup_zip table.property.key_nodup lengths
    rw [List.map_map] at keyed ⊢
    exact keyed

theorem RowOf.position_eq {key : DocKey} {body : Value} {producedSeq : Nat} {row : DocumentRow}
    (holds : table.RowOf key body producedSeq row) (index_mem : index ∈ table.val.indexes)
    (fixed : Nat) :
    table.position (table.orderAfter index fixed) (key, row) =
      standing index fixed (documentOf (key, row)) := by
  have columns := congrArg (List.filterMap id) (holds.columns_eq index_mem fixed)
  rw [List.filterMap_map, List.filterMap_map, Function.id_comp, Function.id_comp,
    List.filterMap_some] at columns
  exact columns

end ViewTable

end Baley
