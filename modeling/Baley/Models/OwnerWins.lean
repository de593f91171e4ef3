import Baley.Models.Runs

/-!
# The owner wins

Seeds, owner changes and imports write the same entries, and whatever their order an id the owner
removed stays removed until the owner adds it, an owner entry keeps what the owner gave it, and a
seed or a listing leaves just what it names beside them.
-/

namespace Baley.Models

open Json ModelCatalogProjector

section Statements

variable (documents : Table DocKey Value) (catalog : Catalog) (id : String)

/-- The catalog accepts the id. -/
def Accepts : Prop :=
  ∃ entry, entryAt documents catalog id = some entry ∧ entry.ownerRemoved = false

/-- The owner removed the id. -/
def Removed : Prop :=
  ∃ entry, entryAt documents catalog id = some entry ∧ entry.ownerRemoved = true

/-- The catalog accepts the id from this source. -/
def AcceptsFrom (source : Source) : Prop :=
  ∃ entry, entryAt documents catalog id = some entry ∧ entry.ownerRemoved = false ∧
    entry.source = source

end Statements

/-- Whether the act is an owner addition of the id. -/
def Act.Adds (catalog : Catalog) (id : String) : Act → Prop
  | .change other name (.added _) => other = catalog ∧ name = id
  | _ => False

/-- Whether the act is a seed or an import. -/
def Act.IsOwners : Act → Prop
  | .change .. => True
  | _ => False

/-- What a recorded listing does to its provider's catalog, and what its report says. -/
structure Refreshed (documents after : Table DocKey Value) (provider : Provider)
    (listing : ProviderListing) (report : List ReportRow) : Prop where
  /-- The accepted ids are the listed ones the owner has not removed and the owner's own. -/
  accepts_iff : ∀ id, Accepts after (.provider provider) id ↔
    listing.contains id = true ∧ ¬Removed documents (.provider provider) id ∨
      AcceptsFrom after (.provider provider) id .owner
  /-- Each listed id the owner has not removed has a row. -/
  listed_row : ∀ id, listing.contains id = true → ¬Removed documents (.provider provider) id →
    ∃ row ∈ report, row.id = id ∧ row.change ≠ .removed
  /-- A listed id's row shows the tier and placement the document then holds. -/
  row_shows : ∀ row ∈ report, row.change ≠ .removed →
    listing.contains row.id = true ∧ ¬Removed documents (.provider provider) row.id ∧
      ∃ entry, entryAt after (.provider provider) row.id = some entry ∧
        row.tier = entry.tier ∧ row.placed = entry.placed
  /-- The rows shown as removed are the ids that lost acceptance. -/
  removed_iff : ∀ id, (∃ row ∈ report, row.id = id ∧ row.change = .removed) ↔
    Accepts documents (.provider provider) id ∧ ¬Accepts after (.provider provider) id

/-- What a recorded seed does to a provider's catalog. -/
structure Seeded (documents after : Table DocKey Value) (provider : Provider)
    (rows : List HintRow) : Prop where
  /-- The accepted seed-sourced ids are those of the rows not held otherwise. -/
  accepts_iff : ∀ id, AcceptsFrom after (.provider provider) id .seed ↔
    (∃ row ∈ rows, row.provider = provider ∧ row.id = id) ∧
      ¬AcceptsFrom documents (.provider provider) id .detected ∧
      ¬AcceptsFrom documents (.provider provider) id .owner ∧
      ¬Removed documents (.provider provider) id
  /-- Each has the tier and flag of its row, the last one of its id. -/
  entry_eq : ∀ id entry, entryAt after (.provider provider) id = some entry →
    entry.ownerRemoved = false → entry.source = .seed →
      ∃ tier, entry.tier = some tier ∧ (namedRows rows provider)[id]? = some (tier, entry.highEffort)

/-- What holds of documents that some run of the catalog left. -/
structure OwnerWins (documents : Table DocKey Value) : Prop where
  /-- A removed id stays removed whatever follows, but for an owner addition of it. -/
  removed_stays : ∀ steps after catalog id, run documents steps = .ok after →
    Removed documents catalog id → (∀ step ∈ steps, ¬step.act.Adds catalog id) →
      Removed after catalog id ∧ ¬Accepts after catalog id
  /-- An owner entry keeps its acceptance, source, tier and placement through a seed or an import. -/
  owner_kept : ∀ (step : Step) after, step.take documents = .ok after → ¬step.act.IsOwners →
    ∀ catalog id entry, entryAt documents catalog id = some entry → entry.source = .owner →
      entry.ownerRemoved = false →
        ∃ left, entryAt after catalog id = some left ∧ left.ownerRemoved = false ∧
          left.source = .owner ∧ left.tier = entry.tier ∧ left.placed = entry.placed
  listed : ∀ (step : Step) table provider listing after,
    step.act = .record table provider (.ok listing) → step.take documents = .ok after →
      Refreshed documents after provider listing
        (diff listing provider table.exactRows table.prefixRows
          (documents.lookup (catalogKey (.provider provider)))).report
  seeded : ∀ (step : Step) table after, step.act = .seed table →
    step.act.appended documents ≠ none → step.take documents = .ok after →
      ∀ provider, Seeded documents after provider table.exactRows

section Wins

variable {documents after : Table DocKey Value} {books : Books} (holds : Holds documents books)
  {catalog : Catalog} {id : String}

theorem not_accepts_of_removed (removed : Removed documents catalog id) :
    ¬Accepts documents catalog id := by
  rintro ⟨entry, held, kept⟩
  obtain ⟨entry', held', removed⟩ := removed
  rw [held] at held'
  obtain rfl := Option.some.inj held'
  rw [kept] at removed
  exact absurd removed Bool.false_ne_true

theorem seedAt_of_removed {event : Event} {rows : List HintRow} {provider : Provider} {entry : Entry}
    (removed : entry.ownerRemoved = true) :
    seedAt event rows provider id (some entry) = some entry := by
  unfold seedAt
  split <;> simp [seedEntry, removed, Option.filter_some]

theorem seedAt_of_owner {event : Event} {rows : List HintRow} {provider : Provider} {entry : Entry}
    (owned : entry.source = .owner) :
    seedAt event rows provider id (some entry) = some entry := by
  unfold seedAt
  split <;> simp [seedEntry, owned, Option.filter_some]

include holds in
/-- A step that is no owner addition of a removed id leaves it removed. -/
theorem removed_take {step : Step} (taken : step.take documents = .ok after)
    (removed : Removed documents catalog id) (not_added : ¬step.act.Adds catalog id) :
    Removed after catalog id := by
  obtain ⟨entry, held, gone⟩ := removed
  rw [entryAt_eq holds] at held
  obtain ⟨books', holds', took⟩ := took_of_take holds taken
  unfold Removed
  simp only [entryAt_eq holds']
  cases took with
  | nothing appends => exact ⟨entry, held, gone⟩
  | failure act_eq => exact ⟨entry, held, gone⟩
  | seed act_eq =>
      refine ⟨entry, ?_, gone⟩
      cases catalog with
      | host known => exact held
      | provider provider => rw [seeded_provider, held, seedAt_of_removed gone]
  | @change other name made event act_eq =>
      by_cases at_name : catalog = other ∧ id = name
      · cases made with
        | added tier =>
            rw [act_eq] at not_added
            exact absurd ⟨at_name.1.symm, at_name.2.symm⟩ not_added
        | removed =>
            refine ⟨{ entry with ownerRemoved := true }, ?_, rfl⟩
            rw [changed, if_pos at_name, held]
            rfl
      · refine ⟨entry, ?_, gone⟩
        rw [changed, if_neg at_name, held]
  | @listing table provider listing event entries act_eq sound agrees of_diff =>
      refine ⟨entry, ?_, gone⟩
      by_cases same : catalog = .provider provider
      · subst same
        rw [refreshed_self]
        exact leftBy_of_removed of_diff event ((agrees id).trans held) gone
      · rw [refreshed_of_ne _ _ same, held]

include holds in
/-- A run without an owner addition of a removed id leaves it removed. -/
theorem removed_run {steps : List Step} (ran : run documents steps = .ok after)
    (removed : Removed documents catalog id)
    (not_added : ∀ step ∈ steps, ¬step.act.Adds catalog id) : Removed after catalog id := by
  induction steps generalizing documents books with
  | nil =>
      obtain rfl := Except.ok.inj ran
      exact removed
  | cons step steps ih =>
      rw [run, List.foldlM_cons, Except.bind_eq_ok] at ran
      obtain ⟨middle, taken, later⟩ := ran
      obtain ⟨books', holds', -⟩ := took_of_take holds taken
      have still := removed_take holds taken removed (not_added step List.mem_cons_self)
      exact ih holds' later still fun other other_mem =>
        not_added other (List.mem_cons_of_mem _ other_mem)

include holds in
/-- A seed or an import leaves an owner entry what the owner gave it. -/
theorem owner_take {step : Step} (taken : step.take documents = .ok after)
    (not_owners : ¬step.act.IsOwners) {entry : Entry}
    (held : entryAt documents catalog id = some entry) (owned : entry.source = .owner)
    (kept : entry.ownerRemoved = false) :
    ∃ left, entryAt after catalog id = some left ∧ left.ownerRemoved = false ∧
      left.source = .owner ∧ left.tier = entry.tier ∧ left.placed = entry.placed := by
  rw [entryAt_eq holds] at held
  obtain ⟨books', holds', took⟩ := took_of_take holds taken
  simp only [entryAt_eq holds']
  cases took with
  | nothing appends => exact ⟨entry, held, kept, owned, rfl, rfl⟩
  | failure act_eq => exact ⟨entry, held, kept, owned, rfl, rfl⟩
  | seed act_eq =>
      refine ⟨entry, ?_, kept, owned, rfl, rfl⟩
      cases catalog with
      | host known => exact held
      | provider provider => rw [seeded_provider, held, seedAt_of_owner owned]
  | change act_eq =>
      rw [act_eq] at not_owners
      exact absurd trivial not_owners
  | @listing table provider listing event entries act_eq sound agrees of_diff =>
      by_cases same : catalog = .provider provider
      · subst same
        rw [refreshed_self]
        exact leftBy_of_owner event ((agrees id).trans held) kept owned
      · rw [refreshed_of_ne _ _ same]
        exact ⟨entry, held, kept, owned, rfl, rfl⟩

end Wins

/-! ## Right after a listing -/

section Listed

variable {entries : Entries} {listing : ProviderListing} {difference : Diff} {id : String}
  (of_diff : DiffOf entries listing difference) (sound : entries.Sound) (event : Event)

include of_diff sound in
/-- An id the owner holds no entry of is accepted as detected when listed, and else dropped. -/
theorem leftBy_of_other (other : ∀ entry, entries[id]? = some entry →
      entry.ownerRemoved = false ∧ entry.source ≠ .owner) :
    listing.contains id = true ∧
        (∃ item ∈ difference.added, item.id = id ∧
          ∃ left, leftBy event difference entries id = some left ∧ left.ownerRemoved = false ∧
            left.source = .detected ∧ left.tier = some item.tag.tier ∧
            left.placed = item.tag.placed) ∨
      listing.contains id = false ∧ leftBy event difference entries id = none := by
  cases listed : listing.contains id with
  | true => exact Or.inl ⟨rfl, leftBy_of_listed of_diff event sound other listed⟩
  | false => exact Or.inr ⟨rfl, leftBy_of_unlisted of_diff event sound other listed⟩

include of_diff sound in
/-- What stood at an id, and what the detection leaves there. -/
theorem leftBy_cases (id : String) :
    (∃ entry, entries[id]? = some entry ∧ entry.ownerRemoved = true ∧
      leftBy event difference entries id = some entry) ∨
    (∃ entry, entries[id]? = some entry ∧ entry.ownerRemoved = false ∧ entry.source = .owner ∧
      ∃ left, leftBy event difference entries id = some left ∧ left.ownerRemoved = false ∧
        left.source = .owner ∧ left.tier = entry.tier ∧ left.placed = entry.placed) ∨
    ((∀ entry, entries[id]? = some entry →
        entry.ownerRemoved = false ∧ entry.source ≠ .owner) ∧
      (listing.contains id = true ∧
          (∃ item ∈ difference.added, item.id = id ∧
            ∃ left, leftBy event difference entries id = some left ∧ left.ownerRemoved = false ∧
              left.source = .detected ∧ left.tier = some item.tag.tier ∧
              left.placed = item.tag.placed) ∨
        listing.contains id = false ∧ leftBy event difference entries id = none)) := by
  by_cases other : ∀ entry, entries[id]? = some entry →
      entry.ownerRemoved = false ∧ entry.source ≠ .owner
  · exact Or.inr (Or.inr ⟨other, leftBy_of_other of_diff sound event other⟩)
  · simp only [not_forall] at other
    obtain ⟨entry, held, owners⟩ := other
    cases removed : entry.ownerRemoved with
    | true =>
        exact Or.inl ⟨entry, held, removed, leftBy_of_removed of_diff event held removed⟩
    | false =>
        have owned : entry.source = .owner := by
          by_contra not_owned
          exact owners ⟨removed, not_owned⟩
        exact Or.inr (Or.inl
          ⟨entry, held, removed, owned, leftBy_of_owner event held removed owned⟩)

theorem listedRow_id (held : Option Entry) (item : Added) : (listedRow held item).id = item.id := by
  unfold listedRow
  split
  · split_ifs <;> rfl
  · rfl

theorem listedRow_change (held : Option Entry) (item : Added) :
    (listedRow held item).change ≠ .removed := by
  unfold listedRow
  split
  · split_ifs <;> simp
  · simp

theorem listedRow_of_owner {entry : Entry} (kept : entry.ownerRemoved = false)
    (owned : entry.source = .owner) (item : Added) :
    (listedRow (some entry) item).tier = entry.tier ∧
      (listedRow (some entry) item).placed = entry.placed := by
  simp [listedRow, kept, owned, Option.filter_some]

theorem listedRow_of_other {held : Option Entry}
    (other : ∀ entry, held = some entry → entry.ownerRemoved = false ∧ entry.source ≠ .owner)
    (item : Added) :
    (listedRow held item).tier = some item.tag.tier ∧
      (listedRow held item).placed = item.tag.placed := by
  cases held with
  | none => exact ⟨rfl, rfl⟩
  | some entry =>
      obtain ⟨kept, not_owned⟩ := other entry rfl
      simp [listedRow, kept, not_owned, Option.filter_some]

include of_diff sound in
/-- The row of a listed id shows what the detection leaves at it. -/
theorem listedRow_shows {item : Added} (item_mem : item ∈ difference.added) :
    ∃ left, leftBy event difference entries item.id = some left ∧
      (listedRow entries[item.id]? item).tier = left.tier ∧
      (listedRow entries[item.id]? item).placed = left.placed := by
  obtain ⟨listed, kept⟩ := (of_diff.mem_added item.id).mp (List.mem_map_of_mem item_mem)
  rcases leftBy_cases of_diff sound event item.id with ⟨entry, held, removed, -⟩ |
    ⟨entry, held, entry_kept, owned, left, left_eq, -, -, tier_eq, placed_eq⟩ |
    ⟨other, ⟨-, item', item'_mem, same_id, left, left_eq, -, -, tier_eq, placed_eq⟩ | ⟨unlisted, -⟩⟩
  · rw [kept entry held] at removed
    exact absurd removed Bool.false_ne_true
  · obtain ⟨row_tier, row_placed⟩ := listedRow_of_owner entry_kept owned item
    rw [held]
    exact ⟨left, left_eq, row_tier.trans tier_eq.symm, row_placed.trans placed_eq.symm⟩
  · obtain rfl : item' = item :=
      List.inj_on_of_nodup_map of_diff.distinct item'_mem item_mem same_id
    obtain ⟨row_tier, row_placed⟩ := listedRow_of_other other item'
    exact ⟨left, left_eq, row_tier.trans tier_eq.symm, row_placed.trans placed_eq.symm⟩
  · rw [listed] at unlisted
    exact absurd unlisted.symm Bool.false_ne_true

end Listed

section Refreshed

variable {documents after : Table DocKey Value} {books : Books} (holds : Holds documents books)

include holds in
theorem refreshed_take {step : Step} {table : HintTable} {provider : Provider}
    {listing : ProviderListing} (act_eq : step.act = .record table provider (.ok listing))
    (taken : step.take documents = .ok after) :
    Refreshed documents after provider listing
      (diff listing provider table.exactRows table.prefixRows
        (documents.lookup (catalogKey (.provider provider)))).report := by
  obtain ⟨after', event, entries, taken', sound, agrees, of_diff, holds'⟩ :=
    take_listing holds act_eq
  obtain rfl := Except.ok.inj (taken.symm.trans taken')
  have before_eq (id : String) :
      entryAt documents (.provider provider) id = entries[id]? := by
    rw [entryAt_eq holds, agrees]
  have after_eq (id : String) := (entryAt_eq holds' (.provider provider) id).trans
    (refreshed_self event provider books)
  constructor
  · intro id
    unfold Accepts Removed AcceptsFrom
    simp only [before_eq, after_eq]
    rcases leftBy_cases of_diff sound event id with ⟨entry, held, removed, left_eq⟩ |
      ⟨entry, held, kept, owned, left, left_eq, left_kept, left_owned, -⟩ |
      ⟨other, ⟨listed, item, -, -, left, left_eq, left_kept, left_detected, -⟩ |
        ⟨unlisted, left_eq⟩⟩
    · simp [left_eq, held, removed]
    · simp [left_eq, left_kept, left_owned]
    · have not_removed : ¬∃ entry, entries[id]? = some entry ∧ entry.ownerRemoved = true := by
        rintro ⟨entry, held, removed⟩
        rw [(other entry held).1] at removed
        exact absurd removed Bool.false_ne_true
      simp [left_eq, left_kept, listed, not_removed]
    · simp [left_eq, unlisted]
  · intro id listed not_removed
    have id_mem := (of_diff.mem_added id).mpr ⟨listed, fun entry held => by
      by_contra removed
      exact not_removed ⟨entry, (before_eq id).trans held, by simpa using removed⟩⟩
    obtain ⟨item, item_mem, rfl⟩ := List.mem_map.mp id_mem
    refine ⟨_, (of_diff.mem_report _).mpr (Or.inl ⟨item, item_mem, rfl⟩), listedRow_id _ _,
      listedRow_change _ _⟩
  · intro row row_mem not_removed
    rcases (of_diff.mem_report row).mp row_mem with ⟨item, item_mem, rfl⟩ | ⟨entry, -, -, rfl⟩
    · obtain ⟨listed, kept⟩ := (of_diff.mem_added item.id).mp (List.mem_map_of_mem item_mem)
      obtain ⟨left, left_eq, tier_eq, placed_eq⟩ := listedRow_shows of_diff sound event item_mem
      rw [listedRow_id]
      refine ⟨listed, ?_, left, (after_eq item.id).trans left_eq, tier_eq, placed_eq⟩
      rintro ⟨entry, held, removed⟩
      rw [kept entry ((before_eq item.id).symm.trans held)] at removed
      exact absurd removed Bool.false_ne_true
    · exact absurd rfl not_removed
  · intro id
    unfold Accepts
    simp only [before_eq, after_eq]
    constructor
    · rintro ⟨row, row_mem, rfl, removed⟩
      rcases (of_diff.mem_report row).mp row_mem with ⟨item, -, rfl⟩ | ⟨entry, entry_mem, lapses, rfl⟩
      · exact absurd removed (listedRow_change _ _)
      · obtain ⟨⟨key, held_entry⟩, pair_mem, rfl⟩ := List.mem_map.mp entry_mem
        have held := Std.TreeMap.mem_toList_iff_getElem?_eq_some.mp pair_mem
        simp only at lapses ⊢
        rw [← (sound key held_entry held).1] at held
        simp only [lapsed, decide_eq_true_eq] at lapses
        obtain ⟨source, kept, unlisted⟩ := lapses
        refine ⟨⟨held_entry, held, kept⟩, ?_⟩
        have dropped := leftBy_of_unlisted of_diff event sound (fun entry held' => by
          rw [held] at held'
          obtain rfl := Option.some.inj held'
          refine ⟨kept, ?_⟩
          rcases source with seeded | detected <;> simp [*]) unlisted
        simp [dropped]
    · rintro ⟨⟨entry, held, kept⟩, lost⟩
      rcases leftBy_cases of_diff sound event id with ⟨entry', held', removed, -⟩ |
        ⟨-, -, -, -, left, left_eq, left_kept, -⟩ |
        ⟨other, ⟨-, -, -, -, left, left_eq, left_kept, -⟩ | ⟨unlisted, -⟩⟩
      · rw [held] at held'
        obtain rfl := Option.some.inj held'
        rw [kept] at removed
        exact absurd removed Bool.false_ne_true
      · exact absurd ⟨left, left_eq, left_kept⟩ lost
      · exact absurd ⟨left, left_eq, left_kept⟩ lost
      · have id_eq := (sound id entry held).1
        have lapses : lapsed listing entry = true := by
          have not_owned := (other entry held).2
          cases source : entry.source <;> simp_all [lapsed]
        refine ⟨⟨entry.id, .removed, entry.tier, entry.placed⟩,
          (of_diff.mem_report _).mpr (Or.inr ⟨entry, ?_, lapses, rfl⟩), id_eq, rfl⟩
        exact List.mem_map.mpr
          ⟨(id, entry), Std.TreeMap.mem_toList_iff_getElem?_eq_some.mpr held, rfl⟩

end Refreshed

/-! ## Right after a seed -/

section Seeded

theorem isSome_namedRows {rows : List HintRow} {provider : Provider} {id : String} :
    (namedRows rows provider)[id]?.isSome = true ↔
      ∃ row ∈ rows, row.provider = provider ∧ row.id = id := by
  rw [← Std.TreeMap.contains_eq_isSome_getElem?, namedRows, Std.TreeMap.contains_ofList,
    List.contains_iff_mem, List.map_map, List.mem_map]
  simp [and_assoc]

/-- An id no row names is not seed-sourced after a seed. -/
theorem seedAt_of_unnamed {event : Event} {rows : List HintRow} {provider : Provider} {id : String}
    (unnamed : (namedRows rows provider)[id]? = none) (held : Option Entry) {entry : Entry}
    (left : seedAt event rows provider id held = some entry) (kept : entry.ownerRemoved = false) :
    entry.source ≠ .seed := by
  rw [seedAt, unnamed] at left
  simpa [kept] using (Option.filter_eq_some_iff.mp left).2

/-- What a seed leaves at an id a row names: a seed entry with the row's tier and flag, or the entry of
another source or of an id the owner removed, as it was. -/
theorem seedAt_of_named (event : Event) {rows : List HintRow} {provider : Provider} {id : String}
    {hint : Tier × Bool} (named : (namedRows rows provider)[id]? = some hint)
    (held : Option Entry) :
    ((∀ entry, held = some entry → entry.source = .seed ∧ entry.ownerRemoved = false) ∧
      ∃ left, seedAt event rows provider id held = some left ∧ left.ownerRemoved = false ∧
        left.source = .seed ∧ left.tier = some hint.1 ∧ left.highEffort = hint.2) ∨
    ∃ entry, held = some entry ∧ ¬(entry.source = .seed ∧ entry.ownerRemoved = false) ∧
      seedAt event rows provider id held = some entry := by
  rw [seedAt, named]
  cases held with
  | none => exact Or.inl ⟨by simp, _, rfl, rfl, rfl, rfl, rfl⟩
  | some entry =>
      by_cases seeded : entry.source = .seed ∧ entry.ownerRemoved = false
      · refine Or.inl ⟨?_, { entry with tier := some hint.1, highEffort := hint.2 }, ?_, seeded.2,
          seeded.1, rfl, rfl⟩
        · intro entry' held
          obtain rfl := Option.some.inj held
          exact seeded
        · simp [seedEntry, seeded]
      · refine Or.inr ⟨entry, rfl, seeded, ?_⟩
        simp [seedEntry, seeded]

variable {documents after : Table DocKey Value} {books : Books} (holds : Holds documents books)

include holds in
theorem seeded_take {step : Step} {table : HintTable} (act_eq : step.act = .seed table)
    (appends : step.act.appended documents ≠ none) (taken : step.take documents = .ok after)
    (provider : Provider) : Seeded documents after provider table.exactRows := by
  have due : seedDue table.version.toNat (readState (documents.lookup stateKey)).hintVersion = true := by
    by_contra not_due
    apply appends
    simp only [act_eq, Act.appended, not_due, if_false]
  obtain ⟨after', event, taken', holds'⟩ := take_seed holds act_eq due
  obtain rfl := Except.ok.inj (taken.symm.trans taken')
  have before_eq (id : String) := entryAt_eq holds (.provider provider) id
  have after_eq (id : String) := (entryAt_eq holds' (.provider provider) id).trans
    (seeded_provider event table.exactRows books provider id)
  constructor
  · intro id
    unfold AcceptsFrom Removed
    rw [← isSome_namedRows]
    simp only [before_eq, after_eq]
    cases named : (namedRows table.exactRows provider)[id]? with
    | none =>
        constructor
        · rintro ⟨entry, left, kept, seeded⟩
          exact absurd seeded (seedAt_of_unnamed named _ left kept)
        · rintro ⟨some_named, -⟩
          exact absurd some_named Bool.false_ne_true
    | some hint =>
        rcases seedAt_of_named event named (books (.provider provider) id) with
          ⟨free, left, left_eq, left_kept, left_seeded, -⟩ | ⟨entry, held, other, left_eq⟩
        · rw [left_eq]
          refine ⟨fun _ => ⟨rfl, ?_, ?_, ?_⟩, fun _ => ⟨left, rfl, left_kept, left_seeded⟩⟩
          · rintro ⟨entry, held, -, detected⟩
            rw [(free entry held).1] at detected
            exact Source.noConfusion detected
          · rintro ⟨entry, held, -, owned⟩
            rw [(free entry held).1] at owned
            exact Source.noConfusion owned
          · rintro ⟨entry, held, removed⟩
            rw [(free entry held).2] at removed
            exact absurd removed Bool.false_ne_true
        · rw [left_eq, held]
          constructor
          · rintro ⟨entry', same, kept, seeded⟩
            obtain rfl := Option.some.inj same
            exact absurd ⟨seeded, kept⟩ other
          · rintro ⟨-, not_detected, not_owned, not_removed⟩
            have kept : entry.ownerRemoved = false := by
              by_contra removed
              exact not_removed ⟨entry, rfl, by simpa using removed⟩
            cases source : entry.source with
            | seed => exact absurd ⟨source, kept⟩ other
            | detected => exact absurd ⟨entry, rfl, kept, source⟩ not_detected
            | owner => exact absurd ⟨entry, rfl, kept, source⟩ not_owned
  · intro id entry left kept seeded
    rw [after_eq] at left
    cases named : (namedRows table.exactRows provider)[id]? with
    | none => exact absurd seeded (seedAt_of_unnamed named _ left kept)
    | some hint =>
        rcases seedAt_of_named event named (books (.provider provider) id) with
          ⟨-, found, found_eq, -, -, tier_eq, effort_eq⟩ | ⟨found, -, other, found_eq⟩
        · rw [left] at found_eq
          obtain rfl := Option.some.inj found_eq
          exact ⟨hint.1, tier_eq, by rw [effort_eq]⟩
        · rw [left] at found_eq
          obtain rfl := Option.some.inj found_eq
          exact absurd ⟨seeded, kept⟩ other

end Seeded

/-- Whatever seeds, owner changes and imports were recorded, in any order: the owner wins. -/
theorem owner_wins (steps : List Step) :
    ∃ documents, run ∅ steps = .ok documents ∧ OwnerWins documents := by
  obtain ⟨documents, books, ran, holds⟩ := run_holds holds_empty steps
  refine ⟨documents, ran, ?_⟩
  constructor
  · intro later after catalog id ran_later removed not_added
    have still := removed_run holds ran_later removed not_added
    exact ⟨still, not_accepts_of_removed still⟩
  · intro step after taken not_owners catalog id entry held owned kept
    exact owner_take holds taken not_owners held owned kept
  · intro step table provider listing after act_eq taken
    exact refreshed_take holds act_eq taken
  · intro step table after act_eq appends taken provider
    exact seeded_take holds act_eq appends taken provider

end Baley.Models
