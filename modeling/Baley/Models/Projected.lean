import Baley.Models.Books

/-!
# What each event makes of the books

A seed, an owner change and a detection each change what a catalog holds at an id from what it held
there, and the projector computes just that.
-/

namespace Baley.Models

open Json ModelCatalogProjector

/-! ## Payloads read back -/

theorem mapM_zipIdx_ok {α β ε : Type} (read : β → Nat → Except ε α) (write : α → β) {items : List α}
    (reads : ∀ item ∈ items, ∀ index, read (write item) index = .ok item) (start : Nat) :
    (((items.map write).zipIdx start).mapM fun (item, index) => read item index) = .ok items := by
  induction items generalizing start with
  | nil => rfl
  | cons item items ih =>
      have rest_eq := ih (fun other other_mem => reads other (List.mem_cons_of_mem _ other_mem))
        (start + 1)
      rw [List.map_cons, List.zipIdx_cons, List.mapM_cons, rest_eq]
      simp only [reads item List.mem_cons_self, bind, Except.bind, pure, Except.pure]

theorem hintRow_toValue (row : HintRow) (index : Nat) : hintRow row.toValue index = .ok row := by
  have provider_eq : row.toValue.get? "provider" = some (.string row.provider.name) := by
    simp [HintRow.toValue]
  have name_eq : row.toValue.get? "name" = some (.string row.id) := by simp [HintRow.toValue]
  have tier_eq : row.toValue.get? "tier" = some (.string row.tier.name) := by
    simp [HintRow.toValue]
  have effort_eq : row.toValue.get? "high_effort" = some (.bool row.highEffort) := by
    simp [HintRow.toValue]
  unfold hintRow
  rw [Except.mapError_eq_ok]
  simp only [provider_of_get? provider_eq, text_of_get? name_eq, tier_of_get? tier_eq,
    flag_of_get? effort_eq, bind, Except.bind]

theorem addedItem_toValue {added : Added} (placed : added.tag.placed ≠ .owner) (index : Nat) :
    addedItem added.toValue index = .ok added := by
  have id_eq : added.toValue.get? "id" = some (.string added.id) := by simp [Added.toValue]
  have tier_eq : added.toValue.get? "tier" = some (.string added.tag.tier.name) := by
    simp [Added.toValue]
  have effort_eq : added.toValue.get? "high_effort" = some (.bool added.tag.highEffort) := by
    simp [Added.toValue]
  have placed_eq : added.toValue.get? "placed" = some (.string added.tag.placed.name) := by
    simp [Added.toValue]
  unfold addedItem
  rw [Except.mapError_eq_ok]
  simp [text_of_get? id_eq, tier_of_get? tier_eq, flag_of_get? effort_eq, text_of_get? placed_eq,
    Option.filter_some, placed, Except.ofOption, bind, Except.bind]

/-! ## Seeds -/

/-- What a seed of the rows makes of an id of the provider. -/
def seedAt (event : Event) (rows : List HintRow) (provider : Provider) (id : String)
    (held : Option Entry) : Option Entry :=
  match (namedRows rows provider)[id]? with
  | some hint => seedEntry event (id, hint) held
  | none => held.filter fun entry => entry.ownerRemoved || entry.source ≠ .seed

def seeded (event : Event) (rows : List HintRow) (books : Books) : Books
  | .host known => books (.host known)
  | .provider provider => fun id => seedAt event rows provider id (books (.provider provider) id)

theorem seeded_provider (event : Event) (rows : List HintRow) (books : Books) (provider : Provider)
    (id : String) : seeded event rows books (.provider provider) id =
      seedAt event rows provider id (books (.provider provider) id) := rfl

/-- The entries a seed leaves in a book. -/
theorem getElem?_seedBook (event : Event) (rows : List HintRow) {book : Book} {provider : Provider}
    (catalog_eq : book.catalog = .provider provider) (id : String) :
    (seedBook event rows book).entries[id]? = seedAt event rows provider id book.entries[id]? := by
  unfold seedBook seedAt
  rw [catalog_eq]
  simp only
  cases row : (namedRows rows provider)[id]? with
  | some hint =>
      have row_mem := Std.TreeMap.mem_toList_iff_getElem?_eq_some.mpr row
      have listed : (namedRows rows provider).contains id = true := by
        rw [Std.TreeMap.contains_eq_isSome_getElem?, row]
        rfl
      rw [Std.TreeMap.getElem?_alterAll_of_mem (Std.TreeMap.nodup_keys_toList _) row_mem,
        Std.TreeMap.getElem?_filter']
      cases held : book.entries[id]? <;> simp [listed, Option.filter_some]
  | none =>
      have absent : id ∉ (namedRows rows provider).toList.map Prod.fst := by
        intro id_mem
        obtain ⟨⟨id', hint⟩, row_mem, rfl⟩ := List.mem_map.mp id_mem
        rw [Std.TreeMap.mem_toList_iff_getElem?_eq_some.mp row_mem] at row
        exact absurd row (Option.some_ne_none hint)
      have unlisted : (namedRows rows provider).contains id = false := by
        rw [Std.TreeMap.contains_eq_isSome_getElem?, row]
        rfl
      rw [Std.TreeMap.getElem?_alterAll_of_notMem absent, Std.TreeMap.getElem?_filter']
      simp [unlisted]

/-! ## Detections -/

/-- What a detection of the added ids makes of an id. -/
def detectAt (event : Event) (added : List Added) (gone : List String) (id : String)
    (held : Option Entry) : Option Entry :=
  let tagged :=
    match added.find? fun added => added.id = id with
    | some added => detectEntry event added held
    | none => held
  (tagged.filter fun entry => entry.ownerRemoved || entry.source = .owner || !gone.contains id).map
    (verify event gone)

/-- The entries after a detection. -/
def detectedEntries (event : Event) (added : List Added) (gone : List String) (entries : Entries) :
    Entries :=
  ((entries.alterAll Added.id (detectEntry event) added).filter fun id entry =>
    entry.ownerRemoved || entry.source = .owner || !gone.contains id).map
      fun _ entry => verify event gone entry

theorem getElem?_alterAll_detectEntry (event : Event) {added : List Added}
    (distinct : (added.map Added.id).Nodup) (entries : Entries) (id : String) :
    (entries.alterAll Added.id (detectEntry event) added)[id]? =
      match added.find? fun added => added.id = id with
      | some added => detectEntry event added entries[id]?
      | none => entries[id]? := by
  cases found : added.find? fun added => added.id = id with
  | some item =>
      have item_mem := List.mem_of_find?_eq_some found
      have item_id : item.id = id := by simpa using List.find?_some found
      rw [← item_id, Std.TreeMap.getElem?_alterAll_of_mem distinct item_mem]
  | none =>
      apply Std.TreeMap.getElem?_alterAll_of_notMem
      intro id_mem
      obtain ⟨item, item_mem, item_id⟩ := List.mem_map.mp id_mem
      exact List.find?_eq_none.mp found item item_mem (by simpa using item_id)

theorem getElem?_detectedEntries (event : Event) {added : List Added}
    (distinct : (added.map Added.id).Nodup) (gone : List String) (entries : Entries) (id : String) :
    (detectedEntries event added gone entries)[id]? = detectAt event added gone id entries[id]? := by
  unfold detectedEntries detectAt
  rw [Std.TreeMap.getElem?_map, Std.TreeMap.getElem?_filter',
    getElem?_alterAll_detectEntry event distinct]

/-- A recorded detection is applied as it was built. -/
theorem detect_detectedPayload {event : Event} {provider : Provider} {added : List Added}
    {gone : List String} {catalogVersion hintVersion : Nat}
    (payload_eq : event.payload = detectedPayload provider added gone catalogVersion hintVersion)
    (placed : ∀ item ∈ added, item.tag.placed ≠ .owner) (entries : Entries) :
    detect event entries = .ok (detectedEntries event added gone entries) := by
  have added_eq : (event.payload.get? "added").bind Value.asArray =
      some (added.map Added.toValue) := by
    rw [payload_eq]
    simp [detectedPayload]
  have gone_eq : (event.payload.get? "removed").bind Value.asArray =
      some (gone.map Value.string) := by
    rw [payload_eq]
    simp [detectedPayload, texts]
  have added_read := mapM_zipIdx_ok addedItem Added.toValue
    (fun item item_mem index => addedItem_toValue (placed item item_mem) index) 0
  have gone_read := mapM_zipIdx_ok goneId Value.string
    (fun id (_ : id ∈ gone) index => rfl) 0
  unfold detect
  simp only [added_eq, gone_eq, Except.ofOption, bind, Except.bind] at added_read gone_read ⊢
  rw [added_read]
  simp only
  rw [gone_read]
  simp only [detectedEntries]

theorem seed_seededPayload {event : Event} {hintVersion catalogVersion : Nat} {rows : List HintRow}
    (payload_eq : event.payload = seededPayload hintVersion catalogVersion rows)
    (fits : hintVersion < 2 ^ 64) (books : List Book) :
    seed event books = .ok (hintVersion, books.map (seedBook event rows)) := by
  have hint_eq : event.payload.get? "hint_version" = some (.ofNat hintVersion) := by
    rw [payload_eq]
    simp [seededPayload]
  have rows_eq : (event.payload.get? "rows").bind Value.asArray =
      some (rows.map HintRow.toValue) := by
    rw [payload_eq]
    simp [seededPayload]
  have rows_read := mapM_zipIdx_ok hintRow HintRow.toValue
    (fun row (_ : row ∈ rows) index => hintRow_toValue row index) 0
  unfold seed
  simp only [number_of_get? hint_eq fits, rows_eq, Except.ofOption, bind, Except.bind]
    at rows_read ⊢
  rw [rows_read]

/-! ## Entries under their own id -/

/-- What stands at an id is an entry of it, within the widths of its numbers. -/
def Stands (id : String) (held : Option Entry) : Prop :=
  ∀ entry, held = some entry → entry.id = id ∧ entry.Fits

section Stands

variable {event : Event} (seq_fits : event.seq < 2 ^ 64) {id : String} {held : Option Entry}

include seq_fits in
theorem fits_seq {entry : Entry} (seq_eq : entry.acceptedSeq = some event.seq) : entry.Fits := by
  intro seq seq_mem
  rw [seq_eq, Option.mem_some_iff] at seq_mem
  exact seq_mem ▸ seq_fits

theorem Stands.filter (stands : Stands id held) (keeps : Entry → Bool) :
    Stands id (held.filter keeps) := by
  intro entry kept
  exact stands entry (Option.filter_eq_some_iff.mp kept).1

include seq_fits in
theorem Stands.seedAt (stands : Stands id held) (rows : List HintRow) (provider : Provider) :
    Stands id (seedAt event rows provider id held) := by
  unfold Models.seedAt
  split
  · cases held with
    | none =>
        rintro entry ⟨⟩
        exact ⟨rfl, fits_seq seq_fits rfl⟩
    | some found =>
        intro entry left
        simp only [seedEntry] at left
        split_ifs at left
        · obtain rfl := Option.some.inj left
          exact stands found rfl
        · exact stands entry left
  · exact stands.filter _

include seq_fits in
theorem Stands.detectEntry (stands : Stands id held) {added : Added} (added_id : added.id = id) :
    Stands id (detectEntry event added held) := by
  cases held with
  | none =>
      rintro entry ⟨⟩
      exact ⟨added_id, fits_seq seq_fits rfl⟩
  | some found =>
      intro entry left
      simp only [ModelCatalogProjector.detectEntry] at left
      split_ifs at left
      · exact stands entry left
      · obtain rfl := Option.some.inj left
        exact stands found rfl
      · obtain rfl := Option.some.inj left
        exact stands found rfl

theorem Stands.verify (stands : Stands id held) (gone : List String) :
    Stands id (held.map (verify event gone)) := by
  intro entry left
  obtain ⟨found, found_eq, rfl⟩ := Option.map_eq_some_iff.mp left
  unfold ModelCatalogProjector.verify
  split_ifs <;> exact stands found found_eq

include seq_fits in
theorem Stands.detectAt (stands : Stands id held) (added : List Added) (gone : List String) :
    Stands id (detectAt event added gone id held) := by
  unfold Models.detectAt
  apply Stands.verify
  apply Stands.filter
  cases found : added.find? fun added => added.id = id with
  | some item => exact stands.detectEntry seq_fits (by simpa using List.find?_some found)
  | none => exact stands

theorem Stands.removeEntry (stands : Stands id held) : Stands id (removeEntry event id held) := by
  cases held with
  | none =>
      rintro entry ⟨⟩
      exact ⟨rfl, by rintro seq ⟨⟩⟩
  | some found =>
      rintro entry ⟨⟩
      exact stands found rfl

include seq_fits in
theorem Stands.addEntry (stands : Stands id held) (given : Option Tier) :
    Stands id (addEntry event id given held) := by
  cases held with
  | none =>
      rintro entry ⟨⟩
      exact ⟨rfl, fits_seq seq_fits rfl⟩
  | some found =>
      intro entry left
      have found_stands := stands found rfl
      cases given <;> cases removed : found.ownerRemoved <;>
        simp only [ModelCatalogProjector.addEntry, removed, Bool.false_eq_true, if_false, if_true,
          Option.some.injEq] at left <;> obtain rfl := left
      · exact found_stands
      · exact ⟨found_stands.1, fits_seq seq_fits rfl⟩
      · exact found_stands
      · exact ⟨found_stands.1, fits_seq seq_fits rfl⟩

end Stands

/-! ## Applied events -/

/-- What an owner change makes of the entry of its name. -/
def changeEntry (event : Event) (name : String) : OwnerChange → Option Entry → Option Entry
  | .added tier => addEntry event name tier
  | .removed => removeEntry event name

def changed (event : Event) (catalog : Catalog) (name : String) (change : OwnerChange)
    (books : Books) : Books := fun other id =>
  if other = catalog ∧ id = name then changeEntry event name change (books other id)
  else books other id

def detected (event : Event) (provider : Provider) (added : List Added) (gone : List String)
    (books : Books) : Books := fun other id =>
  if other = .provider provider then detectAt event added gone id (books other id)
  else books other id

theorem Shows.congr {document : Option Value} {book book' : String → Option Entry}
    (read : Shows document book) (same : ∀ id, book id = book' id) : Shows document book' := by
  rwa [funext same] at read

/-- The accepted ids are the keys of the accepted entries. -/
theorem Entries.Sound.acceptedIds_eq {entries : Entries} (sound : entries.Sound) :
    entries.acceptedIds =
      ((entries.filter fun _ entry => entry.accepted).map fun _ _ => ()).toList.map Prod.fst := by
  rw [Std.TreeMap.toList_map, Std.TreeMap.toList_filter, List.map_map, Entries.acceptedIds,
    Entries.values, List.filter_map, List.map_map]
  apply List.map_congr_left
  rintro ⟨id, entry⟩ pair_mem
  have held := Std.TreeMap.mem_toList_iff_getElem?_eq_some.mp (List.mem_filter.mp pair_mem).1
  exact (sound id entry held).1

/-- Books that accept an id alike accept the same ids. -/
theorem acceptedIds_congr {entries entries' : Entries} (sound : entries.Sound) (sound' : entries'.Sound)
    (same : ∀ id : String, entries[id]?.any Entry.accepted = entries'[id]?.any Entry.accepted) :
    entries.acceptedIds = entries'.acceptedIds := by
  rw [sound.acceptedIds_eq, sound'.acceptedIds_eq]
  apply congrArg
  refine Std.TreeMap.toList_eq_of_getElem? fun id => ?_
  have flags_eq (held : Option Entry) : (held.filter Entry.accepted).map (fun _ => ()) =
      if held.any Entry.accepted then some () else none := by
    cases held with
    | none => rfl
    | some entry => cases accepts : entry.accepted <;> simp [Option.filter_some, accepts]
  rw [Std.TreeMap.getElem?_map, Std.TreeMap.getElem?_map, Std.TreeMap.getElem?_filter',
    Std.TreeMap.getElem?_filter', flags_eq, flags_eq, same]

section Applied

variable {documents : Table DocKey Value} {books : Books} (holds : Holds documents books)
  {event : Event} (seq_fits : event.seq < 2 ^ 64)

include holds seq_fits in
/-- A recorded seed. -/
theorem project_seeded (type_eq : event.typeName = modelsSeeded) {hintVersion catalogVersion : Nat}
    {rows : List HintRow} (payload_eq : event.payload = seededPayload hintVersion catalogVersion rows)
    (fits : hintVersion < 2 ^ 64) :
    ∃ documents', modelCatalogProjector.project documents event = .ok documents' ∧
      Holds documents' (seeded event rows books) := by
  choose held reads sound agrees using holds.shows_book
  obtain ⟨state, parsed, state_fits⟩ := holds.state_reads
  let after : Catalog → Entries := fun catalog =>
    (seedBook event rows (bookOf documents held catalog)).entries
  have after_eq (provider : Provider) (id : String) : (after (.provider provider))[id]? =
      seedAt event rows provider id (books (.provider provider) id) := by
    rw [← agrees]
    exact getElem?_seedBook event rows rfl id
  have touched_eq : touched event = .ok (Provider.all.map Catalog.provider) := by
    rw [touched, if_pos type_eq]
  have updated : update event ((Provider.all.map Catalog.provider).map (bookOf documents held)) state =
      .ok ({ state with hintVersion := some hintVersion },
        (Provider.all.map Catalog.provider).map (bookOf documents after)) := by
    rw [update, if_pos type_eq, seed_seededPayload payload_eq fits]
    rfl
  have sound_after : ∀ catalog ∈ Provider.all.map Catalog.provider, (after catalog).Sound := by
    intro catalog catalog_mem
    obtain ⟨provider, -, rfl⟩ := List.mem_map.mp catalog_mem
    intro id entry left
    rw [after_eq, ← agrees] at left
    have stands : Stands id (held (.provider provider))[id]? := sound (.provider provider) id
    exact stands.seedAt seq_fits rows provider entry left
  have fits_after : CatalogState.Fits { state with hintVersion := some hintVersion } := by
    refine ⟨state_fits.catalogVersion, ?_⟩
    intro hint hint_mem
    rw [Option.mem_some_iff] at hint_mem
    exact hint_mem ▸ fits
  obtain ⟨documents', projected, touched_shows, untouched, final, parsed', final_fits, -⟩ := project_of_update
    (by rw [type_eq]; rfl) (by rw [type_eq]; decide) touched_eq (by decide)
    (fun catalog _ => reads catalog) parsed updated sound_after fits_after seq_fits
  refine ⟨documents', projected, ⟨fun catalog => ?_, final, parsed', final_fits⟩⟩
  cases catalog with
  | host known =>
      rw [untouched (.host known) (by simp [Provider.all])]
      exact holds.shows_book (.host known)
  | provider provider =>
      have read := touched_shows (.provider provider) (List.mem_map_of_mem provider.mem_all)
      exact read.congr (after_eq provider)

include holds seq_fits in
/-- An event that touches one catalog and changes its entries. -/
theorem project_one {catalog : Catalog} {entriesAfter : Entries} {book : String → Option Entry}
    {held : Catalog → Entries} {state : CatalogState}
    (handled : modelCatalogProjector.handles.contains event.typeName = true)
    (not_failed : event.typeName ≠ modelsDetectionFailed)
    (touched_eq : touched event = .ok [catalog])
    (reads : readEntries (documents.lookup (catalogKey catalog)) = .ok (held catalog))
    (parsed : parseState (documents.lookup stateKey) = .ok state) (fits : state.Fits)
    (updated : update event [bookOf documents held catalog] state =
      .ok (state, [{ bookOf documents held catalog with entries := entriesAfter }]))
    (stands : ∀ id, Stands id (book id)) (agrees : ∀ id : String, entriesAfter[id]? = book id) :
    ∃ documents', modelCatalogProjector.project documents event = .ok documents' ∧
      (Holds documents' fun other => if other = catalog then book else books other) ∧
      (entriesAfter.acceptedIds = (held catalog).acceptedIds →
        parseState (documents'.lookup stateKey) = .ok state) := by
  have updated_all : update event ([catalog].map (bookOf documents held)) state =
      .ok (state, [catalog].map (bookOf documents fun _ => entriesAfter)) := updated
  have reads_all : ∀ other ∈ [catalog],
      readEntries (documents.lookup (catalogKey other)) = .ok (held other) := by
    intro other other_mem
    obtain rfl := List.mem_singleton.mp other_mem
    exact reads
  have sound_after : ∀ other ∈ [catalog], entriesAfter.Sound := by
    intro other _ id entry left
    rw [agrees] at left
    exact stands id entry left
  obtain ⟨documents', projected, touched_shows, untouched, final, parsed', final_fits, final_eq⟩ :=
    project_of_update
    handled not_failed touched_eq (List.nodup_singleton catalog) reads_all parsed updated_all
    sound_after fits seq_fits
  refine ⟨documents', projected, ⟨fun other => ?_, final, parsed', final_fits⟩, fun ids_same => ?_⟩
  swap
  · rw [parsed', final_eq]
    intro other other_mem
    obtain rfl := List.mem_singleton.mp other_mem
    exact ids_same
  by_cases same : other = catalog
  · rw [if_pos same, same]
    exact (touched_shows catalog List.mem_cons_self).congr agrees
  · rw [if_neg same, untouched other (by simpa using same)]
    exact holds.shows_book other

include holds seq_fits in
/-- A recorded owner change. -/
theorem project_ownerChanged (type_eq : event.typeName = modelsOwnerChanged) {catalog : Catalog}
    {name : String} {change : OwnerChange} {catalogVersion : Nat}
    (payload_eq : event.payload = ownerChangedPayload catalog name change catalogVersion) :
    ∃ documents', modelCatalogProjector.project documents event = .ok documents' ∧
      Holds documents' (changed event catalog name change books) := by
  choose held reads sound agrees using holds.shows_book
  obtain ⟨state, parsed, state_fits⟩ := holds.state_reads
  have catalog_eq : event.payload.get? "catalog" = some (.string catalog.name) := by
    rw [payload_eq]
    rcases change with ⟨_ | _⟩ | _ <;> simp [ownerChangedPayload, Members.optional]
  have name_eq : event.payload.get? "name" = some (.string name) := by
    rw [payload_eq]
    rcases change with ⟨_ | _⟩ | _ <;> simp [ownerChangedPayload, Members.optional]
  have touched_eq : touched event = .ok [catalog] := by
    unfold touched
    rw [if_neg (by rw [type_eq]; decide), if_pos type_eq, catalog_of_get? catalog_eq]
    rfl
  have change_eq : ownerChange event (held catalog) =
      .ok ((held catalog).alter name (changeEntry event name change)) := by
    cases change with
    | added tier =>
        have change_eq : event.payload.get? "change" = some (.string "added") := by
          rw [payload_eq]
          cases tier <;> simp [ownerChangedPayload, Members.optional]
        have tier_eq : event.payload.get? "tier" = tier.map fun tier => .string tier.name := by
          rw [payload_eq]
          cases tier <;> simp [ownerChangedPayload, Members.optional]
        simp [ownerChange, text_of_get? name_eq, text_of_get? change_eq,
          optionalTier_of_get? tier_eq, bind, Except.bind, changeEntry]
    | removed =>
        have change_eq : event.payload.get? "change" = some (.string "removed") := by
          rw [payload_eq]
          simp [ownerChangedPayload, Members.optional]
        have tier_eq : event.payload.get? "tier" =
            (none : Option Tier).map fun tier => .string tier.name := by
          rw [payload_eq]
          simp [ownerChangedPayload, Members.optional]
        simp [ownerChange, text_of_get? name_eq, text_of_get? change_eq,
          optionalTier_of_get? tier_eq, bind, Except.bind, changeEntry]
  have updated : update event [bookOf documents held catalog] state =
      .ok (state, [{ bookOf documents held catalog with
        entries := (held catalog).alter name (changeEntry event name change) }]) := by
    rw [update, if_neg (by rw [type_eq]; decide), if_neg (by rw [type_eq]; decide)]
    simp only [changeFirst, bookOf, change_eq, bind, Except.bind]
  have agrees_after (id : String) :
      ((held catalog).alter name (changeEntry event name change))[id]? =
        changed event catalog name change books catalog id := by
    unfold changed
    by_cases at_name : id = name
    · rw [if_pos ⟨rfl, at_name⟩, at_name, Std.TreeMap.getElem?_alter_self, agrees]
    · have elsewhere : compare name id ≠ .eq := by
        intro same
        exact at_name (Std.LawfulEqCmp.eq_of_compare same).symm
      rw [if_neg (fun both => at_name both.2), Std.TreeMap.getElem?_alter, if_neg elsewhere, agrees]
  have stands_after : ∀ id, Stands id (changed event catalog name change books catalog id) := by
    intro id
    have stands : Stands id (books catalog id) := by
      rw [← agrees]
      exact sound catalog id
    unfold changed
    by_cases at_name : id = name
    · rw [if_pos ⟨rfl, at_name⟩]
      subst at_name
      cases change with
      | added tier => exact stands.addEntry seq_fits tier
      | removed => exact stands.removeEntry
    · rw [if_neg fun both => at_name both.2]
      exact stands
  obtain ⟨documents', projected, holds', -⟩ := project_one holds seq_fits (by rw [type_eq]; rfl)
    (by rw [type_eq]; decide) touched_eq (reads catalog) parsed state_fits updated stands_after
    agrees_after
  refine ⟨documents', projected, ⟨fun other => ?_, holds'.state_reads⟩⟩
  apply (holds'.shows_book other).congr
  intro id
  unfold changed
  by_cases same : other = catalog
  · simp [same]
  · simp [same]

include holds seq_fits in
/-- A recorded detection. -/
theorem project_detected (type_eq : event.typeName = modelsDetected) {provider : Provider}
    {added : List Added} {gone : List String} {catalogVersion hintVersion : Nat}
    (payload_eq : event.payload = detectedPayload provider added gone catalogVersion hintVersion)
    (distinct : (added.map Added.id).Nodup) (placed : ∀ item ∈ added, item.tag.placed ≠ .owner) :
    ∃ documents', modelCatalogProjector.project documents event = .ok documents' ∧
      Holds documents' (detected event provider added gone books) ∧
      ((∀ id, ((detectAt event added gone id (books (.provider provider) id)).any Entry.accepted) =
          (books (.provider provider) id).any Entry.accepted) →
        parseState (documents'.lookup stateKey) = parseState (documents.lookup stateKey)) := by
  choose held reads sound agrees using holds.shows_book
  obtain ⟨state, parsed, state_fits⟩ := holds.state_reads
  have provider_eq : event.payload.get? "provider" = some (.string provider.name) := by
    rw [payload_eq]
    simp [detectedPayload]
  have touched_eq : touched event = .ok [.provider provider] := by
    unfold touched
    rw [if_neg (by rw [type_eq]; decide), if_neg (by rw [type_eq]; decide), if_pos type_eq,
      provider_of_get? provider_eq]
    rfl
  have updated : update event [bookOf documents held (.provider provider)] state =
      .ok (state, [{ bookOf documents held (.provider provider) with
        entries := detectedEntries event added gone (held (.provider provider)) }]) := by
    rw [update, if_neg (by rw [type_eq]; decide), if_pos type_eq]
    simp only [changeFirst, bookOf, detect_detectedPayload payload_eq placed, bind, Except.bind]
  have agrees_after (id : String) :
      (detectedEntries event added gone (held (.provider provider)))[id]? =
        detectAt event added gone id (books (.provider provider) id) := by
    rw [getElem?_detectedEntries event distinct, agrees]
  have stands_after : ∀ id,
      Stands id (detectAt event added gone id (books (.provider provider) id)) := by
    intro id
    have stands : Stands id (books (.provider provider) id) := by
      rw [← agrees]
      exact sound (.provider provider) id
    exact stands.detectAt seq_fits added gone
  obtain ⟨documents', projected, holds', state_eq⟩ := project_one holds seq_fits (by rw [type_eq]; rfl)
    (by rw [type_eq]; decide) touched_eq (reads (.provider provider)) parsed state_fits updated
    stands_after agrees_after
  refine ⟨documents', projected, ⟨fun other => ?_, holds'.state_reads⟩, fun same => ?_⟩
  swap
  · rw [parsed]
    refine state_eq (acceptedIds_congr ?_ (sound (.provider provider)) fun id => ?_)
    · intro id entry left
      rw [agrees_after] at left
      exact stands_after id entry left
    · rw [agrees_after, agrees, same]
  apply (holds'.shows_book other).congr
  intro id
  unfold detected
  by_cases same : other = .provider provider
  · simp [same]
  · simp [same]

include holds in
/-- A recorded failure leaves every document. -/
theorem project_detectionFailed (type_eq : event.typeName = modelsDetectionFailed)
    {provider : Provider} {category : Category} {catalogVersion : Nat}
    (payload_eq : event.payload = detectionFailedPayload provider category catalogVersion) :
    ∃ documents', modelCatalogProjector.project documents event = .ok documents' ∧
      Holds documents' books := by
  refine ⟨documents, ?_, holds⟩
  have provider_eq : event.payload.get? "provider" = some (.string provider.name) := by
    rw [payload_eq]
    simp [detectionFailedPayload]
  unfold Projector.project
  rw [if_pos (by rw [type_eq]; rfl)]
  have applied_eq (given : List (DocKey × Value)) :
      modelCatalogProjector.apply event given = .ok [] := by
    change (applied event given).mapError (refuse event) = _
    rw [Except.mapError_eq_ok, applied, if_pos type_eq, provider_of_get? provider_eq]
    rfl
  simp only [applied_eq]
  rfl

end Applied

end Baley.Models
