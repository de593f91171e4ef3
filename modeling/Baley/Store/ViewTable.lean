import Baley.Json.Alike
import Baley.PrefixFree
import Baley.Store.Documents

/-!
# View tables and their catalogue

Each view version is one table.  The catalogue keeps the text of every version's spec, so a spec
changed without a new version is refused when the store opens and a version never means two specs.
-/

namespace Baley

open Json

/-- The longest view, index or field name accepted. -/
def maxName : Nat := 48

def lowercase (c : Char) : Bool :=
  'a' ≤ c && c ≤ 'z'

/-- The rule for every declared name: a lowercase letter, then lowercase letters and digits in runs
joined by single underscores. -/
def safeIdentifier (name : String) : Bool :=
  decide (name.utf8ByteSize ≤ maxName) && name.toList.head?.any lowercase &&
    (name.toList.splitOn '_').all fun run =>
      !run.isEmpty && run.all fun c => lowercase c || c.isDigit

/-- What a declared spec is checked for. -/
structure ViewSpec.Valid (spec : ViewSpec) : Prop where
  name_safe : safeIdentifier spec.name
  pageBound_ne : spec.pageBound ≠ 0
  key_safe : ∀ field ∈ spec.key, safeIdentifier field.name
  key_nodup : (spec.key.map FieldSpec.name).Nodup
  index_safe : ∀ index ∈ spec.indexes, safeIdentifier index.name
  indexes_nodup : (spec.indexes.map IndexSpec.name).Nodup
  fields_ne : ∀ index ∈ spec.indexes, index.fields ≠ []
  fields_safe : ∀ index ∈ spec.indexes, ∀ field ∈ index.fields, safeIdentifier field.name
  fields_nodup : ∀ index ∈ spec.indexes, (index.fields.map fun field => field.name).Nodup
  /-- A field several indexes name has one kind. -/
  one_kind : ∀ index ∈ spec.indexes, ∀ field ∈ index.columns, ∀ other ∈ spec.indexes,
    ∀ field' ∈ other.columns, field.name = field'.name → field.kind = field'.kind

/-- One checked view. -/
abbrev ViewTable := { spec : ViewSpec // spec.Valid }

namespace ViewTable

/-- The declared index of a name. -/
def index (table : ViewTable) (name : String) : Except StoreError IndexSpec :=
  .ofOption (.refused (.undeclaredIndex table.val.name name))
    (table.val.indexes.find? fun index => index.name = name)

/-- The equality values, refused unless they fit a leading prefix of the index's fields. -/
def equalsValues (table : ViewTable) (index : IndexSpec) (equals : List KeyValue) :
    Except StoreError (List KeyValue) := do
  .require (equals.map KeyValue.kind = (index.columns.map FieldSpec.kind).take equals.length)
    (malformed table.val.name (equals.length.repr ++
      " equality values do not fit a prefix of the index " ++ index.name))
  .ok equals

/-- A column of the view's table. -/
inductive Column where
  | index (name : String)
  | key (name : String)
  deriving DecidableEq

/-- One column of a page's order after the equality prefix. -/
structure OrderColumn where
  column : Column
  kind : FieldKind
  order : Order
  deriving DecidableEq

/-- The columns a page is ordered by once the first `fixed` index fields are held equal: the rest of
the index in its orders, then the key ascending. -/
def orderAfter (table : ViewTable) (index : IndexSpec) (fixed : Nat) : List OrderColumn :=
  ((index.fields.drop fixed).map fun field =>
      { column := .index field.name, kind := field.kind, order := field.order }) ++
    table.val.key.map fun field =>
      { column := .key field.name, kind := field.kind, order := .ascending }

end ViewTable

/-! ## The catalogue -/

def kindName : FieldKind → Text
  | .text => "text".toList
  | .integer => "integer".toList

def direction : Order → Text
  | .ascending => "ASC".toList
  | .descending => "DESC".toList

def renderField (field : FieldSpec) : Text :=
  ' ' :: field.name.toList ++ ' ' :: kindName field.kind

def renderIndexField (field : IndexField) : Text :=
  renderField field.toFieldSpec ++ ' ' :: direction field.order

def renderIndex (index : IndexSpec) : Text :=
  '\n' :: "index".toList ++ ' ' :: index.name.toList ++ index.fields.flatMap renderIndexField

/-- The spec as the catalogue keeps it: one line per part, every field with its kind and, in an
index, its order. -/
def render (spec : ViewSpec) : Text :=
  "view".toList ++ ' ' :: (spec.name.toList ++
    ' ' :: ("version".toList ++ ' ' :: (Nat.toDigits 10 spec.version ++
      '\n' :: ("key".toList ++ (spec.key.flatMap renderField ++
        (spec.indexes.flatMap renderIndex ++
          '\n' :: ("page_bound".toList ++ ' ' :: (Nat.toDigits 10 spec.pageBound ++ ['\n']))))))))

/-- What the database records of its view versions. -/
structure Catalog where
  /-- The text of each version's spec. -/
  specs : Table (String × Nat) Text
  /-- The tables and indexes that exist. -/
  names : List Text

namespace ViewTable

/-- The physical table of a view version. -/
def physicalName (table : ViewTable) : Text :=
  "v_".toList ++ table.val.name.toList ++ '_' :: Nat.toDigits 10 table.val.version

def indexName (table : ViewTable) (index : IndexSpec) : Text :=
  table.physicalName ++ "__".toList ++ index.name.toList

def names (table : ViewTable) : List Text :=
  table.physicalName :: table.val.indexes.map table.indexName

/-- Whether this version's catalogue row, table or an index is missing.  A version recorded with
another spec is refused. -/
def pending (table : ViewTable) (catalog : Catalog) : Except StoreError Bool :=
  match catalog.specs.lookup (table.val.name, table.val.version) with
  | none => .ok true
  | some stored => do
      .require (stored = render table.val)
        (malformed table.val.name ("version " ++ table.val.version.repr ++
          " is stored with another spec; a changed spec needs a new version"))
      .ok (!table.names.all catalog.names.contains)

/-- Create whatever is missing of the view version. -/
def create (table : ViewTable) (catalog : Catalog) : Except StoreError Catalog := do
  if ← table.pending catalog then
    .ok
      { specs := (catalog.specs.create (table.val.name, table.val.version)
          (render table.val)).getD catalog.specs
        names := catalog.names ++ table.names.filter fun name => !catalog.names.contains name }
  else .ok catalog

end ViewTable

/-- Open the store with these views. -/
def Catalog.register (catalog : Catalog) (tables : List ViewTable) : Except StoreError Catalog :=
  tables.foldlM (fun catalog table => table.create catalog) catalog

/-- The catalogue's text for the view's version is this spec's. -/
def Catalog.Holds (catalog : Catalog) (table : ViewTable) : Prop :=
  catalog.specs.lookup (table.val.name, table.val.version) = some (render table.val)

/-! ## One text, one spec -/

theorem mem_intercalate {c mark : Char} {runs : List Text} (c_mem : c ∈ [mark].intercalate runs) :
    c = mark ∨ ∃ run ∈ runs, c ∈ run := by
  induction runs with
  | nil => cases c_mem
  | cons run runs ih =>
      cases runs with
      | nil =>
          rw [List.intercalate_singleton] at c_mem
          exact .inr ⟨run, List.mem_cons_self, c_mem⟩
      | cons run' runs =>
          rw [List.intercalate_cons_cons, List.mem_append, List.mem_append] at c_mem
          rcases c_mem with (in_run | is_mark) | in_tail
          · exact .inr ⟨run, List.mem_cons_self, in_run⟩
          · exact .inl (List.mem_singleton.mp is_mark)
          · rcases ih in_tail with is_mark | ⟨other, other_mem, in_other⟩
            · exact .inl is_mark
            · exact .inr ⟨other, List.mem_cons_of_mem _ other_mem, in_other⟩

/-- What ends a word of a rendered spec. -/
def EndsWord (c : Char) : Prop :=
  c = ' ' ∨ c = '\n'

theorem not_endsWord_of_safe {name : String} (safe : safeIdentifier name) :
    ∀ c ∈ name.toList, ¬EndsWord c := by
  intro c c_mem ends
  simp only [safeIdentifier, Bool.and_eq_true, List.all_eq_true] at safe
  rw [← show ['_'].intercalate (name.toList.splitOn '_') = name.toList from
    List.intercalate_splitOn '_'] at c_mem
  rcases mem_intercalate c_mem with rfl | ⟨run, run_mem, c_mem⟩
  · rcases ends with same | same <;> cases same
  · have allowed := (safe.2 run run_mem).2 c c_mem
    rcases ends with rfl | rfl <;> cases allowed

theorem not_endsWord_toDigits {n : Nat} : ∀ c ∈ Nat.toDigits 10 n, ¬EndsWord c := by
  intro c c_mem ends
  have digit := isDigit_of_mem_toDigits c_mem
  rcases ends with rfl | rfl <;> cases digit

theorem kindName_ne_nil (kind : FieldKind) : kindName kind ≠ [] := by
  cases kind <;> decide

theorem direction_ne_nil (order : Order) : direction order ≠ [] := by
  cases order <;> decide

theorem kindName_prefixFree : PrefixFree (fun _ => True) kindName := by
  intro kind kind' _ _ rest rest' same
  have starts : (kindName kind).head? = (kindName kind').head? := by
    have heads := congrArg List.head? same
    rwa [List.head?_append_of_ne_nil _ (kindName_ne_nil kind),
      List.head?_append_of_ne_nil _ (kindName_ne_nil kind')] at heads
  obtain rfl : kind = kind' := by
    cases kind <;> cases kind' <;> first | rfl | exact absurd starts (by decide)
  exact ⟨rfl, List.append_cancel_left same⟩

theorem direction_prefixFree : PrefixFree (fun _ => True) direction := by
  intro order order' _ _ rest rest' same
  have starts : (direction order).head? = (direction order').head? := by
    have heads := congrArg List.head? same
    rwa [List.head?_append_of_ne_nil _ (direction_ne_nil order),
      List.head?_append_of_ne_nil _ (direction_ne_nil order')] at heads
  obtain rfl : order = order' := by
    cases order <;> cases order' <;> first | rfl | exact absurd starts (by decide)
  exact ⟨rfl, List.append_cancel_left same⟩

theorem renderField_prefixFree :
    PrefixFree (fun field : FieldSpec => safeIdentifier field.name) renderField := by
  rintro ⟨name, kind⟩ ⟨name', kind'⟩ safe safe' rest rest' same
  simp only [renderField, List.cons_append, List.append_assoc, List.cons.injEq, true_and] at same
  obtain ⟨name_eq, -, kinds_eq⟩ := PrefixFree.append_mark_inj (not_endsWord_of_safe safe)
    (not_endsWord_of_safe safe') (Or.inl rfl) (Or.inl rfl) same
  obtain ⟨rfl, rest_eq⟩ := kindName_prefixFree kind kind' trivial trivial _ _ kinds_eq
  obtain rfl := String.toList_inj.mp name_eq
  exact ⟨rfl, rest_eq⟩

theorem renderIndexField_prefixFree :
    PrefixFree (fun field : IndexField => safeIdentifier field.name) renderIndexField := by
  rintro ⟨field, order⟩ ⟨field', order'⟩ safe safe' rest rest' same
  simp only [renderIndexField, List.append_assoc, List.cons_append] at same
  obtain ⟨rfl, orders_eq⟩ := renderField_prefixFree field field' safe safe' _ _ same
  obtain ⟨rfl, rest_eq⟩ :=
    direction_prefixFree order order' trivial trivial _ _ (List.cons.inj orders_eq).2
  exact ⟨rfl, rest_eq⟩

theorem line_starts (indexes : List IndexSpec) (rest : Text) :
    ∃ tail, indexes.flatMap renderIndex ++ '\n' :: rest = '\n' :: tail := by
  cases indexes with
  | nil => exact ⟨rest, rfl⟩
  | cons index indexes => exact ⟨_, rfl⟩

theorem word_ends (fields : List IndexField) (rest : Text) :
    ∃ mark tail, EndsWord mark ∧
      fields.flatMap renderIndexField ++ '\n' :: rest = mark :: tail := by
  cases fields with
  | nil => exact ⟨'\n', rest, .inr rfl, rfl⟩
  | cons field fields => exact ⟨' ', _, .inl rfl, rfl⟩

theorem starts_renderIndexField (field : IndexField) :
    ∃ c tail, renderIndexField field = c :: tail ∧ c ≠ '\n' ∧ c ≠ '\n' :=
  ⟨' ', _, rfl, by decide, by decide⟩

theorem starts_renderField (field : FieldSpec) :
    ∃ c tail, renderField field = c :: tail ∧ c ≠ '\n' ∧ c ≠ '\n' :=
  ⟨' ', _, rfl, by decide, by decide⟩

/-- The lines of a spec's indexes, up to its last line. -/
theorem renderIndexes_inj {indexes indexes' : List IndexSpec}
    (names_safe : ∀ index ∈ indexes, safeIdentifier index.name)
    (fields_safe : ∀ index ∈ indexes, ∀ field ∈ index.fields, safeIdentifier field.name)
    (names_safe' : ∀ index ∈ indexes', safeIdentifier index.name)
    (fields_safe' : ∀ index ∈ indexes', ∀ field ∈ index.fields, safeIdentifier field.name)
    {rest rest' : Text}
    (same : indexes.flatMap renderIndex ++ '\n' :: ("page_bound".toList ++ rest) =
      indexes'.flatMap renderIndex ++ '\n' :: ("page_bound".toList ++ rest')) :
    indexes = indexes' ∧ rest = rest' := by
  induction indexes generalizing indexes' with
  | nil =>
      cases indexes' with
      | nil => exact ⟨rfl, List.append_cancel_left (List.cons.inj same).2⟩
      | cons index indexes' => simp [renderIndex] at same
  | cons index indexes ih =>
      cases indexes' with
      | nil => simp [renderIndex] at same
      | cons index' indexes' =>
          rw [List.forall_mem_cons] at names_safe fields_safe names_safe' fields_safe'
          obtain ⟨name, fields⟩ := index
          obtain ⟨name', fields'⟩ := index'
          simp only [List.flatMap_cons, renderIndex, List.cons_append, List.append_assoc,
            List.cons.injEq, true_and, List.append_cancel_left_eq] at same
          -- the name ends where the fields or the next line start
          obtain ⟨tail, tail_eq⟩ := line_starts indexes ("page_bound".toList ++ rest)
          obtain ⟨tail', tail'_eq⟩ := line_starts indexes' ("page_bound".toList ++ rest')
          rw [tail_eq, tail'_eq] at same
          obtain ⟨mark, ended, marked, ended_eq⟩ := word_ends fields tail
          obtain ⟨mark', ended', marked', ended'_eq⟩ := word_ends fields' tail'
          rw [ended_eq, ended'_eq] at same
          obtain ⟨name_eq, rfl, rfl⟩ := PrefixFree.append_mark_inj
            (not_endsWord_of_safe names_safe.1) (not_endsWord_of_safe names_safe'.1)
            marked marked' same
          obtain rfl := String.toList_inj.mp name_eq
          obtain ⟨rfl, tails_eq⟩ := renderIndexField_prefixFree.flatMap_of_stop fields_safe.1
            fields_safe'.1 (fun field _ => starts_renderIndexField field)
            (ended_eq.trans ended'_eq.symm)
          obtain ⟨rfl, rest_eq⟩ := ih names_safe.2 fields_safe.2 names_safe'.2 fields_safe'.2
            (tail_eq.trans (tails_eq.trans tail'_eq.symm))
          exact ⟨rfl, rest_eq⟩

theorem toDigits_injective {n m : Nat} (same : Nat.toDigits 10 n = Nat.toDigits 10 m) : n = m := by
  have read_eq := congrArg Value.readDigits same
  rw [Value.readDigits_toDigits, Value.readDigits_toDigits] at read_eq
  exact Option.some.inj read_eq

/-- One spec has exactly one rendering. -/
theorem render_injective {table table' : ViewTable} (same : render table.val = render table'.val) :
    table = table' := by
  obtain ⟨spec, valid⟩ := table
  obtain ⟨spec', valid'⟩ := table'
  unfold render at same
  obtain ⟨name_eq, -, versioned⟩ := PrefixFree.append_mark_inj
    (not_endsWord_of_safe valid.name_safe) (not_endsWord_of_safe valid'.name_safe)
    (Or.inl rfl) (Or.inl rfl) (List.cons.inj (List.append_cancel_left same)).2
  obtain ⟨version_eq, -, keyed⟩ := PrefixFree.append_mark_inj not_endsWord_toDigits
    not_endsWord_toDigits (Or.inr rfl) (Or.inr rfl)
    (List.cons.inj (List.append_cancel_left versioned)).2
  have fields := List.append_cancel_left keyed
  obtain ⟨tail, tail_eq⟩ := line_starts spec.indexes
    ("page_bound".toList ++ ' ' :: (Nat.toDigits 10 spec.pageBound ++ ['\n']))
  obtain ⟨tail', tail'_eq⟩ := line_starts spec'.indexes
    ("page_bound".toList ++ ' ' :: (Nat.toDigits 10 spec'.pageBound ++ ['\n']))
  rw [tail_eq, tail'_eq] at fields
  obtain ⟨keys_eq, tails_eq⟩ := renderField_prefixFree.flatMap_of_stop valid.key_safe valid'.key_safe
    (fun field _ => starts_renderField field) fields
  obtain ⟨indexes_eq, bounded⟩ := renderIndexes_inj valid.index_safe valid.fields_safe valid'.index_safe
    valid'.fields_safe (tail_eq.trans (tails_eq.trans tail'_eq.symm))
  obtain ⟨bound_eq, -, -⟩ := PrefixFree.append_mark_inj not_endsWord_toDigits
    not_endsWord_toDigits (Or.inr rfl) (Or.inr rfl) (List.cons.inj bounded).2
  have name_eq := String.toList_inj.mp name_eq
  have version_eq := toDigits_injective version_eq
  have bound_eq := toDigits_injective bound_eq
  cases spec
  cases spec'
  exact Subtype.ext (ViewSpec.mk.injEq .. ▸ ⟨name_eq, version_eq, keys_eq, indexes_eq, bound_eq⟩)

namespace Catalog

/-- A catalogue names one spec for each version of a view. -/
theorem Holds.eq {catalog : Catalog} {table table' : ViewTable} (holds : catalog.Holds table)
    (holds' : catalog.Holds table') (name_eq : table.val.name = table'.val.name)
    (version_eq : table.val.version = table'.val.version) : table = table' := by
  unfold Holds at holds holds'
  rw [name_eq, version_eq, holds'] at holds
  exact render_injective (Option.some.inj holds).symm

/-- A view version is in the catalogue once its table is created, and none leaves it. -/
theorem holds_of_create {catalog created : Catalog} {table : ViewTable}
    (creates : table.create catalog = .ok created) :
    created.Holds table ∧ ∀ other : ViewTable, catalog.Holds other → created.Holds other := by
  obtain ⟨pending, pending_eq, creates⟩ := Except.bind_eq_ok.mp creates
  unfold ViewTable.pending at pending_eq
  cases found : catalog.specs.lookup (table.val.name, table.val.version) with
  | none =>
      rw [found] at pending_eq
      cases pending_eq
      rw [if_pos rfl, Table.create_eq_some.mpr ⟨found, rfl⟩, Option.getD_some] at creates
      cases creates
      refine ⟨by simp [Holds], fun other holds => ?_⟩
      unfold Holds at holds ⊢
      rw [Table.lookup_put, if_neg, holds]
      intro same
      rw [same, found] at holds
      cases holds
  | some stored =>
      rw [found] at pending_eq
      obtain ⟨_, stored_eq, pending_eq⟩ := Except.bind_eq_ok.mp pending_eq
      rw [Except.require_eq_ok] at stored_eq
      have specs_eq : created.specs = catalog.specs := by
        split_ifs at creates
        · cases creates
          simp [Table.create, found]
        · cases creates
          rfl
      unfold Holds
      rw [specs_eq, found, stored_eq]
      exact ⟨rfl, fun other holds => holds⟩

/-- Whatever views a store is opened with afterwards, a view version keeps the spec it was first
opened with. -/
theorem holds_of_register {catalog registered : Catalog} {tables : List ViewTable}
    (registers : catalog.register tables = .ok registered) :
    (∀ table ∈ tables, registered.Holds table) ∧
      ∀ other : ViewTable, catalog.Holds other → registered.Holds other := by
  induction tables generalizing catalog with
  | nil =>
      cases registers
      exact ⟨fun _ table_mem => absurd table_mem List.not_mem_nil, fun _ holds => holds⟩
  | cons table tables ih =>
      obtain ⟨created, creates, rest⟩ := Except.bind_eq_ok.mp registers
      obtain ⟨holds, keeps⟩ := holds_of_create creates
      obtain ⟨all_hold, all_kept⟩ := ih rest
      refine ⟨fun other other_mem => ?_, fun other held => all_kept other (keeps other held)⟩
      rcases List.mem_cons.mp other_mem with rfl | other_mem
      · exact all_kept other holds
      · exact all_hold other other_mem

end Catalog

end Baley
