import Baley.Models.Projected

/-!
# A diff and the event it becomes

The diff names every listed id the owner has not removed and every lapsed one, so the detection it is
recorded as leaves just the listed ids and the owner's.
-/

namespace Baley.Models

open Json ModelCatalogProjector

section Diff

variable {entries : Entries} {listing : ProviderListing} {provider : Provider}
  {exactRows : List HintRow} {prefixRows : List PrefixRow} {document : Option Value}
  (read : readEntries document = .ok entries)

theorem mem_listedIds {id : String} :
    (listedIds entries listing).contains id = true ↔
      listing.contains id = true ∧ ∀ entry, entries[id]? = some entry → entry.ownerRemoved = false := by
  rw [listedIds, Std.TreeMap.contains_eq_isSome_getElem?, Std.TreeMap.getElem?_filter',
    Std.TreeMap.contains_eq_isSome_getElem?]
  cases entries[id]? <;> cases listing[id]? <;> simp [Option.filter_some]

include read in
/-- The ids a diff adds are distinct. -/
theorem distinct_added :
    ((diff listing provider exactRows prefixRows document).added.map Added.id).Nodup := by
  have ids_eq : (diff listing provider exactRows prefixRows document).added.map Added.id =
      (listedIds entries listing).toList.map Prod.fst := by
    simp [diff, read, Except.toOption, Function.comp_def]
  rw [ids_eq]
  exact Std.TreeMap.nodup_keys_toList _

/-- No added id is placed by the owner. -/
theorem added_placed {item : Added}
    (item_mem : item ∈ (diff listing provider exactRows prefixRows document).added) :
    item.tag.placed ≠ .owner := by
  simp only [diff, List.map_map, List.mem_map] at item_mem
  obtain ⟨⟨id, created⟩, -, rfl⟩ := item_mem
  simp only [Function.comp_apply]
  cases tagged : tag provider id exactRows prefixRows with
  | some tagged' => exact tag_placed tagged
  | none => exact bestFit_placed id _

include read in
/-- A diff adds just the listed ids the owner has not removed. -/
theorem mem_added {id : String} :
    id ∈ (diff listing provider exactRows prefixRows document).added.map Added.id ↔
      listing.contains id = true ∧
        ∀ entry, entries[id]? = some entry → entry.ownerRemoved = false := by
  have ids_eq : (diff listing provider exactRows prefixRows document).added.map Added.id =
      (listedIds entries listing).toList.map Prod.fst := by
    simp [diff, read, Except.toOption, Function.comp_def]
  rw [ids_eq, ← mem_listedIds, Std.TreeMap.map_fst_toList_eq_keys, Std.TreeMap.mem_keys,
    Std.TreeMap.mem_iff_contains]

include read in
/-- A diff removes just the lapsed ids. -/
theorem mem_removed (sound : entries.Sound) {id : String} :
    id ∈ (diff listing provider exactRows prefixRows document).removed ↔
      ∃ entry, entries[id]? = some entry ∧ lapsed listing entry = true := by
  have removed_eq : (diff listing provider exactRows prefixRows document).removed =
      (entries.values.filter (lapsed listing)).map Entry.id := by
    simp [diff, read, Except.toOption]
  rw [removed_eq]
  constructor
  · intro id_mem
    obtain ⟨entry, entry_mem, rfl⟩ := List.mem_map.mp id_mem
    obtain ⟨held_mem, lapses⟩ := List.mem_filter.mp entry_mem
    obtain ⟨⟨key, entry⟩, pair_mem, rfl⟩ := List.mem_map.mp held_mem
    have held := Std.TreeMap.mem_toList_iff_getElem?_eq_some.mp pair_mem
    exact ⟨entry, (sound key entry held).1 ▸ held, lapses⟩
  · rintro ⟨entry, held, lapses⟩
    refine List.mem_map.mpr ⟨entry, List.mem_filter.mpr ⟨?_, lapses⟩, (sound id entry held).1⟩
    exact List.mem_map.mpr ⟨(id, entry), Std.TreeMap.mem_toList_iff_getElem?_eq_some.mpr held, rfl⟩

include read in
/-- A report holds a row for each added id and for each lapsed one. -/
theorem mem_report {row : ReportRow} :
    row ∈ (diff listing provider exactRows prefixRows document).report ↔
      (∃ item ∈ (diff listing provider exactRows prefixRows document).added,
        row = listedRow entries[item.id]? item) ∨
      ∃ entry ∈ entries.values, lapsed listing entry = true ∧
        row = ⟨entry.id, .removed, entry.tier, entry.placed⟩ := by
  have report_mem : row ∈ (diff listing provider exactRows prefixRows document).report ↔
      row ∈ ((diff listing provider exactRows prefixRows document).added.map
          fun item => listedRow entries[item.id]? item) ++
        (entries.values.filter (lapsed listing)).map
          fun entry => (⟨entry.id, .removed, entry.tier, entry.placed⟩ : ReportRow) := by
    simp only [diff, read, Except.toOption, Option.getD_some]
    exact List.mem_mergeSort
  rw [report_mem, List.mem_append, List.mem_map, List.mem_map]
  simp only [List.mem_filter, and_assoc, eq_comm]

/-- What a diff says of the entries and the listing it was computed from. -/
structure DiffOf (entries : Entries) (listing : ProviderListing) (difference : Diff) : Prop where
  distinct : (difference.added.map Added.id).Nodup
  placed : ∀ item ∈ difference.added, item.tag.placed ≠ .owner
  mem_added : ∀ id : String, id ∈ difference.added.map Added.id ↔
    listing.contains id = true ∧ ∀ entry, entries[id]? = some entry → entry.ownerRemoved = false
  mem_removed : ∀ id : String, id ∈ difference.removed ↔
    ∃ entry, entries[id]? = some entry ∧ lapsed listing entry = true
  mem_report : ∀ row, row ∈ difference.report ↔
    (∃ item ∈ difference.added, row = listedRow entries[item.id]? item) ∨
      ∃ entry ∈ entries.values, lapsed listing entry = true ∧
        row = ⟨entry.id, .removed, entry.tier, entry.placed⟩

theorem diffOf_diff (listing : ProviderListing) (provider : Provider) (exactRows : List HintRow)
    (prefixRows : List PrefixRow) (read : readEntries document = .ok entries)
    (sound : entries.Sound) :
    DiffOf entries listing (diff listing provider exactRows prefixRows document) := by
  constructor
  · exact distinct_added read
  · exact fun item item_mem => added_placed item_mem
  · exact fun id => mem_added read
  · exact fun id => mem_removed read sound
  · exact fun row => mem_report read

end Diff

/-! ## What the detection leaves -/

section Left

variable {entries : Entries} {listing : ProviderListing} {difference : Diff} {id : String}

theorem find?_of_mem {added : List Added} (id_mem : id ∈ added.map Added.id) :
    ∃ item ∈ added, item.id = id ∧ (added.find? fun item => item.id = id) = some item := by
  cases found : added.find? fun item => item.id = id with
  | some item =>
      exact ⟨item, List.mem_of_find?_eq_some found, by simpa using List.find?_some found, rfl⟩
  | none =>
      obtain ⟨item, item_mem, item_id⟩ := List.mem_map.mp id_mem
      exact absurd (by simpa using item_id) (List.find?_eq_none.mp found item item_mem)

theorem find?_of_notMem {added : List Added} (absent : id ∉ added.map Added.id) :
    (added.find? fun item => item.id = id) = none := by
  rw [List.find?_eq_none]
  intro item item_mem same
  exact absent (List.mem_map.mpr ⟨item, item_mem, by simpa using same⟩)

section Verify

variable (event : Event) (gone : List String) (entry : Entry)

@[simp]
theorem verify_source : (verify event gone entry).source = entry.source := by
  unfold verify
  split_ifs <;> rfl

@[simp]
theorem verify_tier : (verify event gone entry).tier = entry.tier := by
  unfold verify
  split_ifs <;> rfl

@[simp]
theorem verify_placed : (verify event gone entry).placed = entry.placed := by
  unfold verify
  split_ifs <;> rfl

@[simp]
theorem verify_ownerRemoved : (verify event gone entry).ownerRemoved = entry.ownerRemoved := by
  unfold verify
  split_ifs <;> rfl

/-- An entry the owner removed is not seen. -/
theorem verify_of_removed (removed : entry.ownerRemoved = true) :
    verify event gone entry = entry := by
  simp [verify, Entry.accepted, removed]

end Verify

/-- What the detection a diff is recorded as leaves at an id. -/
def leftBy (event : Event) (difference : Diff) (entries : Entries) (id : String) : Option Entry :=
  detectAt event difference.added difference.removed id entries[id]?

/-- The books the detection leaves. -/
def refreshed (event : Event) (provider : Provider) (difference : Diff) (entries : Entries)
    (books : Books) : Books := fun other id =>
  if other = .provider provider then leftBy event difference entries id else books other id

theorem refreshed_self (event : Event) (provider : Provider) (books : Books) :
    refreshed event provider difference entries books (.provider provider) id =
      leftBy event difference entries id := if_pos rfl

theorem refreshed_of_ne (event : Event) {provider : Provider} (books : Books) {other : Catalog}
    (elsewhere : other ≠ .provider provider) :
    refreshed event provider difference entries books other id = books other id :=
  if_neg elsewhere

variable (of_diff : DiffOf entries listing difference) (event : Event)

include of_diff in
/-- An id the owner removed is left as it is. -/
theorem leftBy_of_removed {entry : Entry} (held : entries[id]? = some entry)
    (removed : entry.ownerRemoved = true) : leftBy event difference entries id = some entry := by
  have absent : id ∉ difference.added.map Added.id := by
    intro id_mem
    rw [((of_diff.mem_added id).mp id_mem).2 entry held] at removed
    exact absurd removed Bool.false_ne_true
  simp [leftBy, detectAt, find?_of_notMem absent, held, removed, Option.filter_some,
    verify_of_removed]

/-- An accepted owner entry keeps its source, tier and placement. -/
theorem leftBy_of_owner {entry : Entry} (held : entries[id]? = some entry)
    (kept : entry.ownerRemoved = false) (owned : entry.source = .owner) :
    ∃ left, leftBy event difference entries id = some left ∧ left.ownerRemoved = false ∧
      left.source = .owner ∧ left.tier = entry.tier ∧ left.placed = entry.placed := by
  by_cases id_mem : id ∈ difference.added.map Added.id
  · obtain ⟨item, -, -, found⟩ := find?_of_mem id_mem
    refine ⟨verify event difference.removed { entry with highEffort := item.tag.highEffort }, ?_,
      ?_, ?_, ?_, ?_⟩
    · simp [leftBy, detectAt, found, held, detectEntry, kept, owned, Option.filter_some]
    · rw [verify_ownerRemoved, kept]
    · rw [verify_source, owned]
    · rw [verify_tier]
    · rw [verify_placed]
  · refine ⟨verify event difference.removed entry, ?_, ?_, ?_, ?_, ?_⟩
    · simp [leftBy, detectAt, find?_of_notMem id_mem, held, owned, Option.filter_some]
    · rw [verify_ownerRemoved, kept]
    · rw [verify_source, owned]
    · rw [verify_tier]
    · rw [verify_placed]

include of_diff in
/-- Any other listed id is accepted as detected, with its tag's tier and placement. -/
theorem leftBy_of_listed (sound : entries.Sound)
    (other : ∀ entry, entries[id]? = some entry →
      entry.ownerRemoved = false ∧ entry.source ≠ .owner)
    (listed : listing.contains id = true) :
    ∃ item ∈ difference.added, item.id = id ∧
      ∃ left, leftBy event difference entries id = some left ∧ left.ownerRemoved = false ∧
        left.source = .detected ∧ left.tier = some item.tag.tier ∧
        left.placed = item.tag.placed := by
  have id_mem := (of_diff.mem_added id).mpr ⟨listed, fun entry held => (other entry held).1⟩
  obtain ⟨item, item_mem, item_id, found⟩ := find?_of_mem id_mem
  have not_gone : id ∉ difference.removed := by
    intro gone
    obtain ⟨entry, held, lapses⟩ := (of_diff.mem_removed id).mp gone
    simp only [lapsed, decide_eq_true_eq, (sound id entry held).1, listed] at lapses
    exact absurd lapses.2.2.symm Bool.false_ne_true
  refine ⟨item, item_mem, item_id, ?_⟩
  cases held : entries[id]? with
  | none =>
      obtain ⟨tagged, tagged_eq⟩ : ∃ tagged, detectEntry event item none = some tagged := ⟨_, rfl⟩
      refine ⟨verify event difference.removed tagged, ?_, ?_, ?_, ?_, ?_⟩
      · simp [leftBy, detectAt, found, held, tagged_eq, Option.filter_some, not_gone]
      all_goals obtain rfl := Option.some.inj tagged_eq; simp
  | some entry =>
      obtain ⟨kept, not_owned⟩ := other entry held
      obtain ⟨tagged, tagged_eq⟩ : ∃ tagged, detectEntry event item (some entry) = some tagged ∧
          tagged = { entry with
            source := .detected, tier := some item.tag.tier, highEffort := item.tag.highEffort
            placed := item.tag.placed } := by
        simp [detectEntry, kept, not_owned]
      refine ⟨verify event difference.removed tagged, ?_, ?_, ?_, ?_, ?_⟩
      · simp [leftBy, detectAt, found, held, tagged_eq, Option.filter_some, not_gone]
      all_goals obtain ⟨-, rfl⟩ := tagged_eq; simp [kept]

include of_diff in
/-- Any other id is dropped. -/
theorem leftBy_of_unlisted (sound : entries.Sound)
    (other : ∀ entry, entries[id]? = some entry →
      entry.ownerRemoved = false ∧ entry.source ≠ .owner)
    (unlisted : listing.contains id = false) : leftBy event difference entries id = none := by
  have absent : id ∉ difference.added.map Added.id := by
    intro id_mem
    rw [((of_diff.mem_added id).mp id_mem).1] at unlisted
    exact absurd unlisted.symm Bool.false_ne_true
  cases held : entries[id]? with
  | none => simp [leftBy, detectAt, find?_of_notMem absent, held]
  | some entry =>
      obtain ⟨kept, not_owned⟩ := other entry held
      have lapses : lapsed listing entry = true := by
        cases source : entry.source <;>
          simp_all [lapsed, (sound id entry held).1]
      have gone := (of_diff.mem_removed id).mpr ⟨entry, held, lapses⟩
      simp [leftBy, detectAt, find?_of_notMem absent, held, kept, not_owned, gone,
        Option.filter_some]

end Left

end Baley.Models
