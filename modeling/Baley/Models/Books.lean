import Baley.Projection
import Baley.Models.View

/-!
# What the catalog documents hold

The documents of the view read back as one book per catalog, and an applied event leaves in each book
it touches the entries the projector computed for it.
-/

namespace Baley.Models

open Json ModelCatalogProjector

/-- What every catalog holds at each id. -/
abbrev Books := Catalog → String → Option Entry

/-- The document reads as the entries of a book. -/
def Shows (document : Option Value) (book : String → Option Entry) : Prop :=
  ∃ entries, readEntries document = .ok entries ∧ entries.Sound ∧
    ∀ id : String, entries[id]? = book id

/-- The state document reads, within the widths of its numbers. -/
def StateReads (document : Option Value) : Prop :=
  ∃ state, parseState document = .ok state ∧ state.Fits

/-- The documents read as the books. -/
structure Holds (documents : Table DocKey Value) (books : Books) : Prop where
  shows_book : ∀ catalog, Shows (documents.lookup (catalogKey catalog)) (books catalog)
  state_reads : StateReads (documents.lookup stateKey)

theorem shows_empty : Shows none fun _ => none := by
  refine ⟨∅, rfl, ?_, fun id => Std.TreeMap.getElem?_emptyc⟩
  intro id entry held
  rw [Std.TreeMap.getElem?_emptyc] at held
  exact absurd held (Option.some_ne_none entry).symm

theorem holds_empty : Holds ∅ fun _ _ => none := by
  refine ⟨fun catalog => ?_, ?_⟩
  · rw [AList.lookup_empty]
    exact shows_empty
  · rw [AList.lookup_empty]
    exact ⟨.default, rfl, by decide, by rintro hint ⟨⟩⟩

theorem catalogKey_injective : Function.Injective catalogKey := by
  intro catalog other same
  apply Catalog.name_injective
  simpa [catalogKey] using same

theorem catalogKey_ne_stateKey (catalog : Catalog) : catalogKey catalog ≠ stateKey := by
  intro same
  exact catalog.name_ne_state (by simpa [catalogKey, stateKey] using same)

/-! ## One applied event -/

theorem key_of_bookChange {book : Book} {made : Change} (changed : bookChange book = some made) :
    made = .put (catalogKey book.catalog) (catalogBody book.catalog book.entries) := by
  unfold bookChange at changed
  simp only at changed
  split_ifs at changed
  exact (Option.some.inj changed).symm

theorem key_of_stateChange {document : Option Value} {state : CatalogState} {made : Change}
    (changed : stateChange document state = some made) :
    made = .put stateKey (stateBody state) := by
  unfold stateChange at changed
  simp only at changed
  split_ifs at changed
  exact (Option.some.inj changed).symm

/-- A book left unwritten reads as the entries computed for it already. -/
theorem shows_of_unchanged {book : Book} (sound : book.entries.Sound)
    (unchanged : bookChange book = none) :
    Shows book.stored fun id => book.entries[id]? := by
  unfold bookChange at unchanged
  simp only at unchanged
  split_ifs at unchanged with same
  cases stored : book.stored with
  | some document =>
      rw [stored] at same
      obtain rfl := Value.eq_of_beq same
      obtain ⟨read, read_eq, agrees⟩ := readEntries_catalogBody sound book.catalog
      refine ⟨read, read_eq, ?_, agrees⟩
      intro id entry held
      exact sound id entry ((agrees id).symm.trans held)
  | none =>
      rw [stored] at same
      have none_held : ∀ id : String, book.entries[id]? = none := by
        intro id
        exact Std.TreeMap.getElem?_of_isEmpty same
      simp only [none_held]
      exact shows_empty

theorem shows_catalogBody {entries : Entries} (sound : entries.Sound) (catalog : Catalog) :
    Shows (some (catalogBody catalog entries)) fun id => entries[id]? := by
  obtain ⟨read, read_eq, agrees⟩ := readEntries_catalogBody sound catalog
  refine ⟨read, read_eq, ?_, agrees⟩
  intro id entry held
  exact sound id entry ((agrees id).symm.trans held)

/-- The documents an event is given: those of the catalogs it touches and the state document. -/
def given (documents : Table DocKey Value) (event : Event) : List (DocKey × Value) :=
  (ModelCatalogProjector.keys event).filterMap fun key =>
    (documents.lookup key).map fun body => (key, body)

/-- A book as an event finds it. -/
def bookOf (documents : Table DocKey Value) (entries : Catalog → Entries) (catalog : Catalog) : Book :=
  ⟨catalog, documents.lookup (catalogKey catalog), entries catalog⟩

section Project

variable {documents : Table DocKey Value} {event : Event} {catalogs : List Catalog}
  {held after : Catalog → Entries} {state state' : CatalogState}

theorem stored_given {key : DocKey} (key_mem : key ∈ ModelCatalogProjector.keys event) :
    stored (given documents event) key = documents.lookup key :=
  Projector.find_given key_mem documents

theorem readBooks (given_eq : ∀ catalog ∈ catalogs,
      stored (given documents event) (catalogKey catalog) = documents.lookup (catalogKey catalog))
    (reads : ∀ catalog ∈ catalogs,
      readEntries (documents.lookup (catalogKey catalog)) = .ok (held catalog)) :
    (catalogs.mapM fun catalog => do
      let body := stored (given documents event) (catalogKey catalog)
      let entries ← readEntries body
      (.ok ({ catalog, stored := body, entries } : Book) : Except String Book)) =
      .ok (catalogs.map (bookOf documents held)) := by
  induction catalogs with
  | nil => rfl
  | cons catalog catalogs ih =>
      have rest_eq := ih (fun other other_mem => given_eq other (List.mem_cons_of_mem _ other_mem))
        fun other other_mem => reads other (List.mem_cons_of_mem _ other_mem)
      rw [List.mapM_cons, rest_eq, given_eq catalog List.mem_cons_self]
      simp only [reads catalog List.mem_cons_self, bind, Except.bind, pure, Except.pure, bookOf,
        List.map_cons]

/-- The changes an applied event makes, the touched catalogs then holding `after`. -/
def changesOf (documents : Table DocKey Value) (catalogs : List Catalog) (after : Catalog → Entries)
    (state : CatalogState) : List Change :=
  (catalogs.map (bookOf documents after)).filterMap bookChange ++
    (stateChange (documents.lookup stateKey) state).toList

theorem of_mem_changesOf {made : Change} (made_mem : made ∈ changesOf documents catalogs after state) :
    (∃ catalog ∈ catalogs, bookChange (bookOf documents after catalog) = some made ∧
        made.key = catalogKey catalog) ∨
      stateChange (documents.lookup stateKey) state = some made ∧ made.key = stateKey := by
  rcases List.mem_append.mp made_mem with book_made | state_made
  · obtain ⟨book, book_mem, changed⟩ := List.mem_filterMap.mp book_made
    obtain ⟨catalog, catalog_mem, rfl⟩ := List.mem_map.mp book_mem
    exact Or.inl ⟨catalog, catalog_mem, changed, by rw [key_of_bookChange changed]; rfl⟩
  · rw [Option.mem_toList] at state_made
    exact Or.inr ⟨state_made, by rw [key_of_stateChange state_made]; rfl⟩

theorem distinct_changesOf (documents : Table DocKey Value) (after : Catalog → Entries)
    (state : CatalogState) (distinct : catalogs.Nodup) :
    ((changesOf documents catalogs after state).map Change.key).Nodup := by
  induction catalogs with
  | nil =>
      cases changed : stateChange (documents.lookup stateKey) state <;> simp [changesOf, changed]
  | cons catalog catalogs ih =>
      rw [List.nodup_cons] at distinct
      have rest := ih distinct.2
      cases changed : bookChange (bookOf documents after catalog) with
      | none => simpa only [changesOf, List.map_cons, List.filterMap_cons, changed] using rest
      | some made =>
          have changes_eq : changesOf documents (catalog :: catalogs) after state =
              made :: changesOf documents catalogs after state := by
            simp only [changesOf, List.map_cons, List.filterMap_cons, changed, List.cons_append]
          rw [changes_eq, List.map_cons, List.nodup_cons]
          refine ⟨fun key_mem => ?_, rest⟩
          obtain ⟨other, other_mem, same⟩ := List.mem_map.mp key_mem
          rw [key_of_bookChange changed] at same
          rcases of_mem_changesOf other_mem with ⟨catalog', catalog'_mem, -, key_eq⟩ | ⟨-, key_eq⟩
          · have same_catalog : catalog' = catalog := catalogKey_injective (key_eq.symm.trans same)
            exact distinct.1 (same_catalog ▸ catalog'_mem)
          · exact catalogKey_ne_stateKey catalog (same.symm.trans key_eq)

/-- A catalog the event does not touch keeps its document. -/
theorem lookup_of_untouched {catalog : Catalog} (untouched : catalog ∉ catalogs) :
    ((changesOf documents catalogs after state).foldl Projector.change documents).lookup
      (catalogKey catalog) = documents.lookup (catalogKey catalog) := by
  apply Projector.lookup_foldl_change_of_notMem
  intro key_mem
  obtain ⟨made, made_mem, made_key⟩ := List.mem_map.mp key_mem
  rcases of_mem_changesOf made_mem with ⟨other, other_mem, -, key_eq⟩ | ⟨-, key_eq⟩
  · exact untouched (catalogKey_injective (key_eq.symm.trans made_key) ▸ other_mem)
  · exact catalogKey_ne_stateKey catalog (made_key.symm.trans key_eq)

/-- A touched catalog's document then reads as its entries. -/
theorem shows_of_touched (distinct : catalogs.Nodup) {catalog : Catalog}
    (catalog_mem : catalog ∈ catalogs) (sound : (after catalog).Sound) :
    Shows (((changesOf documents catalogs after state).foldl Projector.change documents).lookup
      (catalogKey catalog)) fun id => (after catalog)[id]? := by
  cases changed : bookChange (bookOf documents after catalog) with
  | none =>
      have absent : catalogKey catalog ∉
          (changesOf documents catalogs after state).map Change.key := by
        intro key_mem
        obtain ⟨made, made_mem, made_key⟩ := List.mem_map.mp key_mem
        rcases of_mem_changesOf made_mem with ⟨other, -, other_changed, key_eq⟩ | ⟨-, key_eq⟩
        · rw [catalogKey_injective (key_eq.symm.trans made_key), changed] at other_changed
          exact absurd other_changed (Option.some_ne_none made).symm
        · exact catalogKey_ne_stateKey catalog (made_key.symm.trans key_eq)
      rw [Projector.lookup_foldl_change_of_notMem absent]
      exact shows_of_unchanged sound changed
  | some made =>
      have made_mem : made ∈ changesOf documents catalogs after state := List.mem_append_left _
        (List.mem_filterMap.mpr ⟨_, List.mem_map_of_mem catalog_mem, changed⟩)
      obtain rfl := key_of_bookChange changed
      have left := Projector.lookup_foldl_change_of_mem
        (distinct_changesOf documents after state distinct) made_mem documents
      simp only [Change.key, Change.body, bookOf] at left
      rw [left]
      exact shows_catalogBody sound catalog

/-- The state document then reads. -/
theorem parseState_of_changes (distinct : catalogs.Nodup) (fits : state.Fits) :
    parseState (((changesOf documents catalogs after state).foldl Projector.change documents).lookup
      stateKey) = .ok state := by
  cases changed : stateChange (documents.lookup stateKey) state with
  | none =>
      have absent : stateKey ∉ (changesOf documents catalogs after state).map Change.key := by
        intro key_mem
        obtain ⟨made, made_mem, made_key⟩ := List.mem_map.mp key_mem
        rcases of_mem_changesOf made_mem with ⟨other, -, -, key_eq⟩ | ⟨state_changed, -⟩
        · exact catalogKey_ne_stateKey other (key_eq.symm.trans made_key)
        · rw [changed] at state_changed
          exact absurd state_changed (Option.some_ne_none made).symm
      rw [Projector.lookup_foldl_change_of_notMem absent]
      unfold stateChange at changed
      simp only at changed
      split_ifs at changed with same
      cases document : documents.lookup stateKey with
      | some body =>
          rw [document] at same
          exact Value.eq_of_beq same ▸ parseState_stateBody fits
      | none =>
          rw [document, decide_eq_true_eq] at same
          rw [same]
          rfl
  | some made =>
      have made_mem : made ∈ changesOf documents catalogs after state :=
        List.mem_append_right _ (Option.mem_toList.mpr changed)
      obtain rfl := key_of_stateChange changed
      have left := Projector.lookup_foldl_change_of_mem
        (distinct_changesOf documents after state distinct) made_mem documents
      simp only [Change.key, Change.body] at left
      rw [left]
      exact parseState_stateBody fits

/-- Books that accept the ids they did have not moved. -/
theorem not_moved (same : ∀ catalog ∈ catalogs, (after catalog).acceptedIds = (held catalog).acceptedIds) :
    (((catalogs.map (bookOf documents after)).zip
      ((catalogs.map (bookOf documents held)).map fun book => book.entries.acceptedIds)).any
        fun pair => moved pair.1 pair.2) = false := by
  rw [List.map_map, List.zip_map', List.any_eq_false]
  intro pair pair_mem
  obtain ⟨catalog, catalog_mem, rfl⟩ := List.mem_map.mp pair_mem
  have ids_eq : (bookOf documents after catalog).entries.acceptedIds =
      (bookOf documents held catalog).entries.acceptedIds := same catalog catalog_mem
  simp [moved, ids_eq]

/-- What an event leaves in the documents when the projector can compute it. -/
theorem project_of_update
    (handled : modelCatalogProjector.handles.contains event.typeName = true)
    (not_failed : event.typeName ≠ modelsDetectionFailed) (touched_eq : touched event = .ok catalogs)
    (distinct : catalogs.Nodup)
    (reads : ∀ catalog ∈ catalogs,
      readEntries (documents.lookup (catalogKey catalog)) = .ok (held catalog))
    (parsed : parseState (documents.lookup stateKey) = .ok state)
    (updated : update event (catalogs.map (bookOf documents held)) state =
      .ok (state', catalogs.map (bookOf documents after)))
    (sound : ∀ catalog ∈ catalogs, (after catalog).Sound) (fits : state'.Fits)
    (seq_fits : event.seq < 2 ^ 64) :
    ∃ documents', modelCatalogProjector.project documents event = .ok documents' ∧
      (∀ catalog ∈ catalogs,
        Shows (documents'.lookup (catalogKey catalog)) fun id => (after catalog)[id]?) ∧
      (∀ catalog, catalog ∉ catalogs →
        documents'.lookup (catalogKey catalog) = documents.lookup (catalogKey catalog)) ∧
      ∃ final, parseState (documents'.lookup stateKey) = .ok final ∧ final.Fits ∧
        ((∀ catalog ∈ catalogs, (after catalog).acceptedIds = (held catalog).acceptedIds) →
          final = state') := by
  have keys_eq : ModelCatalogProjector.keys event = stateKey :: catalogs.map catalogKey := by
    simp [ModelCatalogProjector.keys, not_failed, touched_eq, Except.toOption]
  have state_given : stored (given documents event) stateKey = documents.lookup stateKey :=
    stored_given (by rw [keys_eq]; exact List.mem_cons_self)
  have catalog_given : ∀ catalog ∈ catalogs, stored (given documents event) (catalogKey catalog) =
      documents.lookup (catalogKey catalog) := by
    intro catalog catalog_mem
    apply stored_given
    rw [keys_eq]
    exact List.mem_cons_of_mem _ (List.mem_map_of_mem catalog_mem)
  have books_eq := readBooks catalog_given reads
  obtain ⟨final, final_fits, final_eq, applied_eq⟩ : ∃ final : CatalogState, final.Fits ∧
      ((∀ catalog ∈ catalogs, (after catalog).acceptedIds = (held catalog).acceptedIds) →
        final = state') ∧
      modelCatalogProjector.apply event (given documents event) =
        .ok (changesOf documents catalogs after final) := by
    let accepts := ((catalogs.map (bookOf documents after)).zip
      ((catalogs.map (bookOf documents held)).map fun book => book.entries.acceptedIds)).any
        fun pair => moved pair.1 pair.2
    refine ⟨if accepts then { state' with catalogVersion := event.seq } else state', ?_, ?_, ?_⟩
    · split
      · exact ⟨seq_fits, fits.hintVersion⟩
      · exact fits
    · intro same
      have unmoved : accepts = false := not_moved same
      rw [unmoved]
      rfl
    · change (applied event (given documents event)).mapError (refuse event) = _
      rw [Except.mapError_eq_ok]
      unfold applied
      rw [if_neg not_failed]
      simp only [touched_eq, bind, Except.bind, state_given, parsed] at books_eq ⊢
      rw [books_eq]
      simp only [updated]
      rfl
  refine ⟨(changesOf documents catalogs after final).foldl Projector.change documents, ?_, ?_, ?_, ?_⟩
  · unfold Projector.project
    rw [if_pos handled]
    change (modelCatalogProjector.apply event (given documents event) >>= fun changes =>
      .ok (changes.foldl Projector.change documents)) = _
    rw [applied_eq]
    rfl
  · intro catalog catalog_mem
    exact shows_of_touched distinct catalog_mem (sound catalog catalog_mem)
  · intro catalog untouched
    exact lookup_of_untouched untouched
  · exact ⟨final, parseState_of_changes distinct final_fits, final_fits, final_eq⟩

end Project

end Baley.Models
