import Baley.Models.Reordered
import Baley.Models.Runs

/-!
# One list imported twice

What a second import of a list leaves as the first left it, and what it takes anew.
-/

namespace Baley.Models

open Json ModelCatalogProjector

/-! ## What an import leaves -/

/-- What an import leaves at an id, by whether the id is listed and the tag it is then given. -/
def imported (event : Event) (tag : Tag) (listed : Bool) (id : String) : Option Entry → Option Entry
  | none =>
      if listed then some
        { id, source := .detected, tier := some tag.tier, highEffort := tag.highEffort
          placed := tag.placed, firstSeen := event.recordedAt, lastVerified := some event.recordedAt
          acceptedSeq := some event.seq, ownerRemoved := false }
      else none
  | some entry =>
      if entry.ownerRemoved then some entry
      else if entry.source = .owner then some
        { entry with
          highEffort := if listed then tag.highEffort else entry.highEffort
          lastVerified := some event.recordedAt }
      else if listed then some
        { entry with
          source := .detected, tier := some tag.tier, highEffort := tag.highEffort
          placed := tag.placed, lastVerified := some event.recordedAt }
      else none

theorem imported_some (event : Event) (tag : Tag) (listed : Bool) (id : String) (entry : Entry) :
    imported event tag listed id (some entry) =
      if entry.ownerRemoved then some entry
      else if entry.source = .owner then some
        { entry with
          highEffort := if listed then tag.highEffort else entry.highEffort
          lastVerified := some event.recordedAt }
      else if listed then some
        { entry with
          source := .detected, tier := some tag.tier, highEffort := tag.highEffort
          placed := tag.placed, lastVerified := some event.recordedAt }
      else none := rfl

section Left

variable {entries : Entries} {listing : ProviderListing} {provider : Provider}
  {exactRows : List HintRow} {prefixRows : List PrefixRow} {document : Option Value}

/-- The listed id's own addition. -/
theorem find?_added (read : readEntries document = .ok entries) (id : String) :
    ((diff listing provider exactRows prefixRows document).added.find? fun added => added.id = id) =
      if (listedIds entries listing).contains id then
        some ⟨id, givenTag entries listing provider exactRows prefixRows id⟩
      else none := by
  rw [added_eq read]
  exact @Std.TreeMap.find?_map_toList _ _ _ _ _ _ _
    (fun id => ⟨id, givenTag entries listing provider exactRows prefixRows id⟩) Added.id (fun _ => rfl)
    (listedIds entries listing) id

/-- An import leaves at each id what its own tag makes of what stood there. -/
theorem leftBy_eq (event : Event) (read : readEntries document = .ok entries) (sound : entries.Sound)
    (id : String) :
    leftBy event (diff listing provider exactRows prefixRows document) entries id =
      imported event (givenTag entries listing provider exactRows prefixRows id)
        (listing.contains id) id entries[id]? := by
  have of_diff := diffOf_diff listing provider exactRows prefixRows read sound
  have not_gone (listed : listing.contains id = true) :
      id ∉ (diff listing provider exactRows prefixRows document).removed := by
    intro gone
    obtain ⟨entry, held, lapses⟩ := (of_diff.mem_removed id).mp gone
    simp [lapsed, (sound id entry held).1, listed] at lapses
  cases held : entries[id]? with
  | none =>
      cases listed : listing.contains id with
      | false =>
          have unlisted : (listedIds entries listing).contains id = false := by
            rw [← Bool.not_eq_true, mem_listedIds, listed]
            simp
          simp [leftBy, detectAt, find?_added read, unlisted, held, imported]
      | true =>
          have listed' : (listedIds entries listing).contains id = true :=
            mem_listedIds.mpr ⟨listed, by simp [held]⟩
          simp [leftBy, detectAt, find?_added read, listed', held, imported, detectEntry, verify,
            Entry.accepted, not_gone listed, Option.filter_some]
  | some entry =>
      have entry_id := (sound id entry held).1
      cases removed : entry.ownerRemoved with
      | true => rw [leftBy_of_removed of_diff event held removed]; simp [imported, removed]
      | false =>
          cases listed : listing.contains id with
          | false =>
              have unlisted : (listedIds entries listing).contains id = false := by
                rw [← Bool.not_eq_true, mem_listedIds, listed]
                simp
              by_cases owned : entry.source = .owner
              · have not_gone : entry.id ∉
                    (diff listing provider exactRows prefixRows document).removed := by
                  intro gone
                  rw [entry_id] at gone
                  obtain ⟨other, held', lapses⟩ := (of_diff.mem_removed id).mp gone
                  obtain rfl := Option.some.inj (held.symm.trans held')
                  simp [lapsed, owned] at lapses
                simp [leftBy, detectAt, find?_added read, unlisted, held, imported, removed, owned,
                  verify, Entry.accepted, not_gone, Option.filter_some]
              · rw [leftBy_of_unlisted of_diff event sound (by simp [held, removed, owned]) listed]
                simp [imported, removed, owned]
          | true =>
              have listed' : (listedIds entries listing).contains id = true :=
                mem_listedIds.mpr ⟨listed, by simp [held, removed]⟩
              have not_gone := not_gone listed
              rw [← entry_id] at not_gone
              by_cases owned : entry.source = .owner
              · simp [leftBy, detectAt, find?_added read, listed', held, imported, removed, owned,
                  detectEntry, verify, Entry.accepted, not_gone, Option.filter_some]
              · simp [leftBy, detectAt, find?_added read, listed', held, imported, removed, owned,
                  detectEntry, verify, Entry.accepted, not_gone, entry_id ▸ not_gone,
                  Option.filter_some]

end Left

/-! ## What a second import leaves -/

/-- The second entry is the first but for when it was seen and what best fit may give: its flag, and
its tier when it is not the owner's. -/
structure SameEntry (left still : Entry) : Prop where
  id : still.id = left.id
  source : still.source = left.source
  placed : still.placed = left.placed
  firstSeen : still.firstSeen = left.firstSeen
  acceptedSeq : still.acceptedSeq = left.acceptedSeq
  ownerRemoved : still.ownerRemoved = left.ownerRemoved
  owner_tier : left.source = .owner → still.tier = left.tier

/-- The second entry has the first one's tier and flag. -/
def SameTier (left still : Entry) : Prop :=
  still.tier = left.tier ∧ still.highEffort = left.highEffort

section Imported

variable {event event' : Event} {tag tag' : Tag} {listed : Bool} {id : String} {held : Option Entry}

theorem unlisted_of_imported (dropped : imported event tag listed id held = none) : listed = false := by
  cases held with
  | none =>
      cases listed with
      | false => rfl
      | true => cases dropped
  | some entry =>
      rw [imported_some] at dropped
      split_ifs at dropped with removed owned is_listed
      simpa using is_listed

/-- What an import left, another of the same list leaves again. -/
theorem imported_again {left : Entry} (placed_same : listed = true → tag'.placed = tag.placed)
    (left_eq : imported event tag listed id held = some left) :
    ∃ still, imported event' tag' listed id (some left) = some still ∧ SameEntry left still ∧
      (tag' = tag ∨ listed = false → SameTier left still) := by
  have detected_again (found : left.ownerRemoved = false) (detected : left.source = .detected)
      (tier_eq : left.tier = some tag.tier) (effort_eq : left.highEffort = tag.highEffort)
      (placed_eq : left.placed = tag.placed) (is_listed : listed = true) :
      ∃ still, imported event' tag' listed id (some left) = some still ∧ SameEntry left still ∧
        (tag' = tag ∨ listed = false → SameTier left still) := by
    refine ⟨{ left with
      source := .detected, tier := some tag'.tier, highEffort := tag'.highEffort
      placed := tag'.placed, lastVerified := some event'.recordedAt }, ?_, ?_, ?_⟩
    · simp [imported, found, detected, is_listed]
    · refine ⟨rfl, detected.symm, (placed_same is_listed).trans placed_eq.symm, rfl, rfl, rfl, ?_⟩
      intro owned
      rw [detected] at owned
      cases owned
    · rintro (rfl | unlisted)
      · exact ⟨tier_eq.symm, effort_eq.symm⟩
      · rw [is_listed] at unlisted
        cases unlisted
  have owner_again (found : left.ownerRemoved = false) (owned : left.source = .owner)
      (effort_eq : listed = true → left.highEffort = tag.highEffort) :
      ∃ still, imported event' tag' listed id (some left) = some still ∧ SameEntry left still ∧
        (tag' = tag ∨ listed = false → SameTier left still) := by
    refine ⟨{ left with
      highEffort := if listed then tag'.highEffort else left.highEffort
      lastVerified := some event'.recordedAt }, ?_, ⟨rfl, rfl, rfl, rfl, rfl, rfl, fun _ => rfl⟩, ?_⟩
    · simp [imported, found, owned]
    · rintro (rfl | rfl)
      · refine ⟨rfl, ?_⟩
        cases listed with
        | false => rfl
        | true => exact (effort_eq rfl).symm
      · exact ⟨rfl, rfl⟩
  cases held with
  | none =>
      cases listed with
      | false => cases left_eq
      | true =>
          obtain rfl := Option.some.inj left_eq
          exact detected_again rfl rfl rfl rfl rfl rfl
  | some entry =>
      rw [imported_some] at left_eq
      by_cases removed : entry.ownerRemoved = true
      · rw [if_pos removed] at left_eq
        obtain rfl := Option.some.inj left_eq
        exact ⟨entry, by simp [imported, removed], ⟨rfl, rfl, rfl, rfl, rfl, rfl, fun _ => rfl⟩,
          fun _ => ⟨rfl, rfl⟩⟩
      rw [if_neg removed] at left_eq
      by_cases owned : entry.source = .owner
      · rw [if_pos owned] at left_eq
        obtain rfl := Option.some.inj left_eq
        exact owner_again (by simpa using removed) owned fun is_listed => if_pos is_listed
      · rw [if_neg owned] at left_eq
        split_ifs at left_eq with is_listed
        obtain rfl := Option.some.inj left_eq
        exact detected_again (by simpa using removed) rfl rfl rfl rfl is_listed

/-- An import removes no id for the owner and brings back none. -/
theorem any_removed_imported :
    (imported event tag listed id held).any Entry.ownerRemoved = held.any Entry.ownerRemoved := by
  cases held with
  | none => cases listed <;> rfl
  | some entry =>
      rw [imported_some]
      split_ifs with removed <;> simp [removed]

end Imported

section Again

variable {entries after : Entries} {listing : ProviderListing} {provider : Provider}
  {exactRows : List HintRow} {prefixRows : List PrefixRow} {event : Event}

theorem givenTag_placed (entries : Entries) (listing : ProviderListing) (id : String) :
    (givenTag entries listing provider exactRows prefixRows id).placed =
      ((tag provider id exactRows prefixRows).map Tag.placed).getD .bestFit := by
  unfold givenTag
  cases tag provider id exactRows prefixRows with
  | some tagged => rfl
  | none =>
      simp only [Option.getD_none, Option.map_none, bestFit]
      split <;> rfl

/-- What a row gives stands whatever else is listed or held. -/
theorem givenTag_of_row {id : String} {tagged : Tag} (named : tag provider id exactRows prefixRows = some tagged)
    (entries : Entries) (listing : ProviderListing) :
    givenTag entries listing provider exactRows prefixRows id = tagged := by
  rw [givenTag, named, Option.getD_some]

/-- An accepted entry that is not the owner's is no candidate of its own where best fit placed it or a
tag made one. -/
theorem entryCandidate_of_other {entry : Entry} {candidate : Option Candidate}
    (kept : entry.ownerRemoved = false) (not_owned : entry.source ≠ .owner)
    (decided : candidate.isSome = true ∨ entry.placed = .bestFit) :
    entryCandidate entries listing (some entry) candidate = candidate := by
  cases tier_eq : entry.tier with
  | none => simp [entryCandidate, kept, tier_eq]
  | some tier =>
      obtain given | fitted := decided
      · simp [entryCandidate, kept, tier_eq, not_owned, given]
      · simp [entryCandidate, kept, tier_eq, fitted]

/-- What stood at an id placed by a row or the owner still is, with the owner's flag. -/
def KeepsPlaced (held left : Option Entry) : Prop :=
  ∀ entry, held = some entry → entry.offers → ∃ kept, left = some kept ∧ kept.placed ≠ .bestFit ∧
    (entry.source = .owner → kept.highEffort = entry.highEffort)

/-- The entries an import leaves. -/
def Left (event : Event) (entries : Entries) (listing : ProviderListing) (provider : Provider)
    (exactRows : List HintRow) (prefixRows : List PrefixRow) (after : Entries) : Prop :=
  ∀ id : String, after[id]? = imported event
    (givenTag entries listing provider exactRows prefixRows id) (listing.contains id) id entries[id]?

theorem Left.listedIds_eq (left : Left event entries listing provider exactRows prefixRows after)
    (id : String) : (listedIds after listing)[id]? = (listedIds entries listing)[id]? := by
  rw [listedIds, listedIds, Std.TreeMap.getElem?_filter', Std.TreeMap.getElem?_filter', left,
    any_removed_imported]

theorem Left.rowTag_eq (left : Left event entries listing provider exactRows prefixRows after)
    (id : String) : rowTag after listing provider exactRows prefixRows id =
      rowTag entries listing provider exactRows prefixRows id := by
  rw [rowTag, rowTag, Std.TreeMap.contains_eq_isSome_getElem?,
    Std.TreeMap.contains_eq_isSome_getElem?, left.listedIds_eq]

/-- A listed id that is not removed is tagged by a row or fitted. -/
theorem rowTag_or_fitted {id : String} (listed : listing.contains id = true)
    (kept : ∀ entry, entries[id]? = some entry → entry.ownerRemoved = false) :
    (rowTag entries listing provider exactRows prefixRows id).isSome = true ∨
      (givenTag entries listing provider exactRows prefixRows id).placed = .bestFit := by
  rw [rowTag, if_pos (mem_listedIds.mpr ⟨listed, kept⟩), givenTag_placed]
  cases tag provider id exactRows prefixRows <;> simp

/-- The candidates of a second import are among those of the first. -/
theorem Left.isSome_candidateAt (left : Left event entries listing provider exactRows prefixRows after)
    {id : String}
    (found : (candidateAt after listing (rowTag after listing provider exactRows prefixRows id)
      id).isSome = true) :
    (candidateAt entries listing (rowTag entries listing provider exactRows prefixRows id)
      id).isSome = true := by
  have or_fitted := @rowTag_or_fitted entries listing provider exactRows prefixRows id
  rw [candidateAt, isSome_entryCandidate, Option.isSome_map] at found ⊢
  rw [left.rowTag_eq] at found
  obtain tagged | ⟨still, after_eq, kept_still, tiered_still, placed_still⟩ := found
  · exact .inl tagged
  rw [left] at after_eq
  cases held : entries[id]? with
  | none =>
      rw [held] at after_eq
      cases listed : listing.contains id with
      | false =>
          rw [listed] at after_eq
          cases after_eq
      | true =>
          rw [listed] at after_eq
          obtain rfl := Option.some.inj after_eq
          exact .inl ((or_fitted listed (by simp [held])).resolve_right placed_still)
  | some entry =>
      rw [held, imported_some] at after_eq
      by_cases removed : entry.ownerRemoved = true
      · rw [if_pos removed] at after_eq
        obtain rfl := Option.some.inj after_eq
        rw [removed] at kept_still
        cases kept_still
      rw [if_neg removed] at after_eq
      by_cases owned : entry.source = .owner
      · rw [if_pos owned] at after_eq
        obtain rfl := Option.some.inj after_eq
        exact .inr ⟨entry, rfl, kept_still, tiered_still, placed_still⟩
      rw [if_neg owned] at after_eq
      by_cases listed : listing.contains id = true
      · rw [if_pos listed] at after_eq
        obtain rfl := Option.some.inj after_eq
        exact .inl ((or_fitted listed (by simpa [held] using removed)).resolve_right placed_still)
      · rw [if_neg listed] at after_eq
        cases after_eq

/-- A candidate whose entry stays placed is one of a second import too. -/
theorem Left.candidateAt_eq (left : Left event entries listing provider exactRows prefixRows after)
    {id : String} (keeps : KeepsPlaced entries[id]? after[id]?) :
    candidateAt after listing (rowTag after listing provider exactRows prefixRows id) id =
      candidateAt entries listing (rowTag entries listing provider exactRows prefixRows id) id := by
  have ids_same := left.listedIds_eq
  have tagged_eq : taggedCandidate after listing id = taggedCandidate entries listing id := by
    funext tagged
    rw [taggedCandidate, taggedCandidate, ids_same]
  rw [candidateAt, candidateAt, left.rowTag_eq, tagged_eq, entryCandidate_congr ids_same, left]
  have tagged_or_fitted := @rowTag_or_fitted entries listing provider exactRows prefixRows id
  have after_eq := left id
  rw [after_eq] at keeps
  generalize rowTag entries listing provider exactRows prefixRows id = tagged at *
  generalize givenTag entries listing provider exactRows prefixRows id = given at *
  cases held : entries[id]? with
  | none =>
      cases listed : listing.contains id with
      | false => rfl
      | true =>
          refine entryCandidate_of_other rfl (by simp) ?_
          rw [Option.isSome_map]
          exact tagged_or_fitted listed (by simp [held])
  | some entry =>
      rw [held] at tagged_or_fitted keeps
      rw [imported_some]
      by_cases removed : entry.ownerRemoved = true
      · rw [if_pos removed]
      rw [if_neg removed]
      have kept : entry.ownerRemoved = false := by simpa using removed
      by_cases owned : entry.source = .owner
      · rw [if_pos owned]
        by_cases candidate : entry.tier ≠ none ∧ entry.placed ≠ .bestFit
        · obtain ⟨still, still_eq, -, effort_eq⟩ := keeps entry rfl ⟨kept, candidate⟩
          rw [imported_some, if_neg removed, if_pos owned] at still_eq
          obtain rfl := Option.some.inj still_eq
          have effort_eq := effort_eq owned
          dsimp only at effort_eq
          rw [effort_eq]
          rfl
        · rw [not_and_or, not_not, not_not] at candidate
          obtain tierless | fitted := candidate
          · simp [entryCandidate, tierless]
          · cases tier_eq : entry.tier <;> simp [entryCandidate, tier_eq, fitted]
      rw [if_neg owned]
      have own_tag (decided : (tagged.map (taggedCandidate entries listing id)).isSome = true ∨
          entry.tier = none ∨ entry.placed = .bestFit) :
          entryCandidate entries listing (some entry) (tagged.map (taggedCandidate entries listing id)) =
            tagged.map (taggedCandidate entries listing id) := by
        obtain tagged_some | tierless | fitted := decided
        · exact entryCandidate_of_other kept owned (.inl tagged_some)
        · simp [entryCandidate, tierless]
        · exact entryCandidate_of_other kept owned (.inr fitted)
      by_cases listed : listing.contains id = true
      · have decided := tagged_or_fitted listed (by simp [kept])
        rw [if_pos listed, own_tag]
        · refine entryCandidate_of_other kept (by simp) ?_
          rwa [Option.isSome_map]
        · rw [Option.isSome_map]
          obtain tagged_some | fitted := decided
          · exact .inl tagged_some
          · right
            by_contra placed
            rw [not_or] at placed
            obtain ⟨still, still_eq, unfitted, -⟩ := keeps entry rfl ⟨kept, placed⟩
            rw [imported_some, if_neg removed, if_neg owned, if_pos listed] at still_eq
            obtain rfl := Option.some.inj still_eq
            exact unfitted fitted
      · rw [if_neg listed, own_tag]
        · rfl
        · right
          by_contra placed
          rw [not_or] at placed
          obtain ⟨still, still_eq, -⟩ := keeps entry rfl ⟨kept, placed⟩
          rw [imported_some, if_neg removed, if_neg owned, if_neg listed] at still_eq
          cases still_eq

/-- A second import takes an id's tag from the same candidate when that one stays placed. -/
theorem Left.chosen_eq (left : Left event entries listing provider exactRows prefixRows after)
    (sound : entries.Sound) (sound_after : after.Sound) {id : String}
    (keeps : ∀ candidate, chosen entries listing provider exactRows prefixRows id = some candidate →
      KeepsPlaced entries[candidate.name]? after[candidate.name]?) :
    chosen after listing provider exactRows prefixRows id =
      chosen entries listing provider exactRows prefixRows id := by
  have in_first {other : Candidate} (found : candidateAt after listing
      (rowTag after listing provider exactRows prefixRows other.name) other.name = some other) :
      ∃ first, candidateAt entries listing
          (rowTag entries listing provider exactRows prefixRows first.name) first.name = some first ∧
        other.name = first.name ∧ other.created = first.created := by
    obtain ⟨first, first_eq⟩ := Option.isSome_iff_exists.mp
      (left.isSome_candidateAt (by rw [found]; rfl))
    obtain ⟨name_eq, created_eq⟩ := candidateAt_fields sound first_eq
    refine ⟨first, by rw [name_eq]; exact first_eq, name_eq.symm, ?_⟩
    rw [created_eq, (candidateAt_fields sound_after found).2, left.listedIds_eq]
  cases first_eq : chosen entries listing provider exactRows prefixRows id with
  | none =>
      rw [chosen, lastGreatest_eq_none] at first_eq
      rw [chosen, lastGreatest_eq_none, List.eq_nil_iff_forall_not_mem]
      intro other other_mem
      obtain ⟨found, elsewhere, shares⟩ := (mem_sharing sound_after).mp other_mem
      obtain ⟨first, first_found, name_eq, -⟩ := in_first found
      rw [name_eq] at elsewhere shares
      have first_mem := (mem_sharing sound).mpr ⟨first_found, elsewhere, shares⟩
      rw [first_eq] at first_mem
      cases first_mem
  | some best =>
      have best_keeps := keeps best first_eq
      obtain ⟨best_mem, greatest⟩ := lastGreatest_greatest first_eq
      obtain ⟨best_found, best_elsewhere, best_shares⟩ := (mem_sharing sound).mp best_mem
      rw [← left.candidateAt_eq best_keeps] at best_found
      refine lastGreatest_of_greatest
        ((mem_sharing sound_after).mpr ⟨best_found, best_elsewhere, best_shares⟩) ?_
      intro other other_mem
      obtain ⟨found, elsewhere, shares⟩ := (mem_sharing sound_after).mp other_mem
      obtain ⟨first, first_found, name_eq, created_eq⟩ := in_first found
      rw [name_eq] at elsewhere shares
      have below := greatest first ((mem_sharing sound).mpr ⟨first_found, elsewhere, shares⟩)
      rw [nearness_congr name_eq created_eq]
      cases compared : nearness id first best with
      | lt => exact .inr rfl
      | eq =>
          rw [← name_eq_of_nearness compared, ← name_eq, found] at best_found
          exact .inl (Option.some.inj best_found)
      | gt =>
          rw [compared] at below
          cases below

/-- The tag a second import gives an id is the first one's when a row gives it or the candidate it was
taken from stays placed. -/
theorem Left.givenTag_again (left : Left event entries listing provider exactRows prefixRows after)
    (sound : entries.Sound) (sound_after : after.Sound) {id : String}
    (keeps : (tag provider id exactRows prefixRows).isSome = true ∨
      ∀ candidate, chosen entries listing provider exactRows prefixRows id = some candidate →
        KeepsPlaced entries[candidate.name]? after[candidate.name]?) :
    givenTag after listing provider exactRows prefixRows id =
      givenTag entries listing provider exactRows prefixRows id := by
  rw [givenTag_eq, givenTag_eq]
  obtain tagged | keeps := keeps
  · obtain ⟨tagged, tag_eq⟩ := Option.isSome_iff_exists.mp tagged
    rw [tag_eq, Option.getD_some, Option.getD_some]
  · rw [left.chosen_eq sound sound_after keeps]

end Again

/-! ## Two imports in a row -/

/-- The entries a provider's document holds. -/
def bookEntries (documents : Table DocKey Value) (provider : Provider) : Entries :=
  (readEntries (documents.lookup (catalogKey (.provider provider)))).toOption.getD ∅

/-- The entry best fit takes an id's tag from stays placed from `documents` to `after`. -/
def FitStays (documents after : Table DocKey Value) (table : HintTable) (provider : Provider)
    (listing : ProviderListing) (id : String) : Prop :=
  ∀ candidate, chosen (bookEntries documents provider) listing provider table.exactRows
      table.prefixRows id = some candidate →
    KeepsPlaced (entryAt documents (.provider provider) candidate.name)
      (entryAt after (.provider provider) candidate.name)

/-- What a second import of a list does: `again` are the documents it leaves, `after` those the first
left. -/
structure ImportedTwice (documents after again : Table DocKey Value) (table : HintTable)
    (provider : Provider) (listing : ProviderListing) : Prop where
  elsewhere : ∀ catalog id, catalog ≠ .provider provider →
    entryAt again catalog id = entryAt after catalog id
  absent : ∀ id, entryAt after (.provider provider) id = none →
    entryAt again (.provider provider) id = none
  /-- Every entry stays, with its tier and flag too where it is not listed, a row tags it or the entry
  best fit takes its tag from stays placed through the first import. -/
  held : ∀ id left, entryAt after (.provider provider) id = some left →
    ∃ still, entryAt again (.provider provider) id = some still ∧ SameEntry left still ∧
      (listing.contains id = false ∨
          (tag provider id table.exactRows table.prefixRows).isSome = true ∨
          FitStays documents after table provider listing id →
        SameTier left still)
  report : ∀ row ∈ (diff listing provider table.exactRows table.prefixRows
    (after.lookup (catalogKey (.provider provider)))).report, row.change = .unchanged
  version : (readState (again.lookup stateKey)).catalogVersion =
    (readState (after.lookup stateKey)).catalogVersion

section Take

variable {documents : Table DocKey Value} {books : Books} (holds : Holds documents books)

include holds in
/-- A recorded listing, by what it leaves at each id. -/
theorem take_imported {step : Step} {table : HintTable} {provider : Provider}
    {listing : ProviderListing} (act_eq : step.act = .record table provider (.ok listing)) :
    ∃ after event left, step.take documents = .ok after ∧
      Left event (bookEntries documents provider) listing provider table.exactRows table.prefixRows left ∧
      (bookEntries documents provider).Sound ∧
      readEntries (documents.lookup (catalogKey (.provider provider))) =
        .ok (bookEntries documents provider) ∧
      left = bookEntries after provider ∧
      (∃ books', Holds after books' ∧ ∀ other, other ≠ .provider provider → books' other = books other) ∧
      ((∀ id : String, left[id]?.any Entry.accepted =
          (bookEntries documents provider)[id]?.any Entry.accepted) →
        parseState (after.lookup stateKey) = parseState (documents.lookup stateKey)) := by
  obtain ⟨entries, read, sound, agrees⟩ := holds.shows_book (.provider provider)
  have book_eq : bookEntries documents provider = entries := by
    rw [bookEntries, read]
    rfl
  have of_diff := diffOf_diff listing provider table.exactRows table.prefixRows read sound
  let difference := diff listing provider table.exactRows table.prefixRows
    (documents.lookup (catalogKey (.provider provider)))
  let version := (readState (documents.lookup stateKey)).catalogVersion
  let payload := detectedPayload provider difference.added difference.removed version
    table.version.toNat
  let event := step.event modelsDetected payload
  have seq_fits : event.seq < 2 ^ 64 := step.seq_fits
  obtain ⟨after, projected, holds', version_same⟩ :=
    project_detected holds seq_fits rfl rfl of_diff.distinct of_diff.placed
  have left_at (id : String) : (bookEntries after provider)[id]? =
      leftBy event difference entries id := by
    have at_after := entryAt_eq holds' (.provider provider) id
    rw [detected, if_pos rfl, ← agrees] at at_after
    exact at_after
  refine ⟨after, event, bookEntries after provider, ?_, ?_, ?_, ?_, rfl,
    ⟨_, holds', fun other elsewhere => funext fun id => if_neg elsewhere⟩, ?_⟩
  · simp only [Step.take, act_eq, Act.appended, chooseEvent]
    exact projected
  · intro id
    rw [left_at, book_eq]
    exact leftBy_eq event read sound id
  · rw [book_eq]
    exact sound
  · rw [book_eq]
    exact read
  · intro same
    refine version_same fun id => ?_
    rw [← agrees, ← book_eq, ← same, left_at, book_eq]
    rfl

end Take

/-- The report of a listing that leaves each entry it finds holds no new and no removed id. -/
theorem report_unchanged {entries : Entries} {listing : ProviderListing} {difference : Diff}
    (of_diff : DiffOf entries listing difference) (sound : entries.Sound)
    (listed_held : ∀ id : String, listing.contains id = true → (entries[id]?).isSome = true)
    (held_listed : ∀ (id : String) entry, entries[id]? = some entry → entry.ownerRemoved = false →
      entry.source ≠ .owner → listing.contains id = true) :
    ∀ row ∈ difference.report, row.change = .unchanged := by
  intro row row_mem
  obtain ⟨item, item_mem, rfl⟩ | ⟨entry, entry_mem, lapses, -⟩ := (of_diff.mem_report row).mp row_mem
  · obtain ⟨listed, kept⟩ := (of_diff.mem_added item.id).mp (List.mem_map_of_mem item_mem)
    obtain ⟨entry, held⟩ := Option.isSome_iff_exists.mp (listed_held item.id listed)
    rw [held]
    by_cases owned : entry.source = .owner <;> simp [listedRow, Option.filter_some, kept entry held, owned]
  · obtain ⟨⟨key, held_entry⟩, pair_mem, rfl⟩ := List.mem_map.mp entry_mem
    have held := Std.TreeMap.mem_toList_iff_getElem?_eq_some.mp pair_mem
    dsimp only at lapses
    simp only [lapsed, (sound key held_entry held).1, decide_eq_true_eq] at lapses
    obtain ⟨source, kept, unlisted⟩ := lapses
    have listed := held_listed key held_entry held kept (by
      rcases source with seeded | detected <;> simp [*])
    rw [listed] at unlisted
    cases unlisted

theorem listed_of_imported {event : Event} {given : Tag} {listed : Bool} {id : String}
    {held : Option Entry} {left : Entry} (left_eq : imported event given listed id held = some left)
    (kept : left.ownerRemoved = false) (not_owned : left.source ≠ .owner) : listed = true := by
  cases held with
  | none =>
      cases listed with
      | true => rfl
      | false => cases left_eq
  | some entry =>
      rw [imported_some] at left_eq
      by_cases removed : entry.ownerRemoved = true
      · rw [if_pos removed] at left_eq
        obtain rfl := Option.some.inj left_eq
        rw [removed] at kept
        cases kept
      rw [if_neg removed] at left_eq
      by_cases owned : entry.source = .owner
      · rw [if_pos owned] at left_eq
        obtain rfl := Option.some.inj left_eq
        exact absurd owned not_owned
      rw [if_neg owned] at left_eq
      by_contra unlisted
      rw [if_neg unlisted] at left_eq
      cases left_eq

/-- Whatever seeds, owner changes and imports came before, a list imported twice leaves the second time
what it left the first, but for what best fit takes from an entry the first import moved. -/
theorem import_twice (steps : List Step) {first second : Step} {table : HintTable}
    {provider : Provider} {listing : ProviderListing}
    (first_act : first.act = .record table provider (.ok listing))
    (second_act : second.act = .record table provider (.ok listing)) :
    ∃ documents after again, run ∅ steps = .ok documents ∧ first.take documents = .ok after ∧
      second.take after = .ok again ∧ ImportedTwice documents after again table provider listing := by
  obtain ⟨documents, books, ran, holds⟩ := run_holds holds_empty steps
  obtain ⟨after, event, _, taken, left, sound, -, rfl, ⟨books', holds', -⟩, -⟩ :=
    take_imported holds first_act
  obtain ⟨again, event', _, taken', left', sound', read', rfl, ⟨books'', holds'', elsewhere⟩,
    version_same⟩ := take_imported holds' second_act
  have of_diff := diffOf_diff listing provider table.exactRows table.prefixRows read' sound'
  have placed_same (id : String) :
      (givenTag (bookEntries after provider) listing provider table.exactRows table.prefixRows id).placed =
        (givenTag (bookEntries documents provider) listing provider table.exactRows table.prefixRows
          id).placed := by
    rw [givenTag_placed, givenTag_placed]
  refine ⟨documents, after, again, ran, taken, taken', ?_⟩
  constructor
  · intro catalog id other
    rw [entryAt_eq holds'' catalog id, elsewhere catalog other, entryAt_eq holds' catalog id]
  · intro id absent
    have dropped : (bookEntries after provider)[id]? = none := absent
    have again_at := left' id
    rw [left] at dropped
    rw [left, dropped, unlisted_of_imported dropped] at again_at
    exact again_at
  · intro id entry held
    have left_eq : (bookEntries after provider)[id]? = some entry := held
    have again_at := left' id
    rw [left_eq] at again_at
    rw [left] at left_eq
    obtain ⟨still, still_eq, same, same_tier⟩ := @imported_again event event' _
      (givenTag (bookEntries after provider) listing provider table.exactRows table.prefixRows id)
      _ _ _ _ (fun _ => placed_same id) left_eq
    refine ⟨still, again_at.trans still_eq, same, fun stays => same_tier ?_⟩
    obtain unlisted | tagged := stays
    · exact .inr unlisted
    · exact .inl (left.givenTag_again sound sound' tagged)
  · refine report_unchanged of_diff sound' (fun id listed => ?_) (fun id entry held kept not_owned => ?_)
    · rw [Option.isSome_iff_ne_none]
      intro dropped
      rw [left] at dropped
      rw [unlisted_of_imported dropped] at listed
      cases listed
    · rw [left] at held
      exact listed_of_imported held kept not_owned
  · rw [readState, readState, version_same]
    intro id
    rw [left']
    cases held : (bookEntries after provider)[id]? with
    | none =>
        rw [left] at held
        rw [unlisted_of_imported held]
        rfl
    | some entry =>
        rw [left] at held
        obtain ⟨still, still_eq, same, -⟩ := @imported_again event event' _
          (givenTag (bookEntries after provider) listing provider table.exactRows table.prefixRows id)
          _ _ _ _ (fun _ => placed_same id) held
        rw [still_eq]
        simp [Entry.accepted, same.ownerRemoved]

/-! ## A seed, and a new id imported twice -/

/-- A step recorded first by the owner. -/
def stepOf (seq : UInt64) (act : Act) : Step where
  act
  envelope :=
    { projectId := "user", seq := seq.toNat, stream := "models", streamVersion := 1, typeName := "", typeVersion := 1
      actor := .owner, caller := none, recordedAt := "", requestId := "", git := none
      policyVersion := 0, payload := .null, prevHash := none, hash := .replicate 0 }
  seq_fits := seq.toNat_lt

/-- One row of one provider. -/
def oneRow : HintTable := ⟨1, [⟨.openAi, "gpt-5", .flagship, true⟩], []⟩

/-- A list of one id that no row names. -/
def newerId : ProviderListing := .ofList [("gpt-5-new", none)]

def seedOneRow : Step := stepOf 1 (.seed oneRow)

def importNewer (seq : UInt64) : Step :=
  stepOf seq (.record oneRow .openAi (.ok newerId))

theorem import_twice_newer : ∃ documents after again, run ∅ [seedOneRow] = .ok documents ∧
    (importNewer 2).take documents = .ok after ∧
    (importNewer 3).take after = .ok again ∧
    ImportedTwice documents after again oneRow .openAi newerId :=
  import_twice [seedOneRow] rfl rfl

set_option maxRecDepth 5000 in
/-- The first import fits the new id to the seeded one, which the list does not name: the second import
finds nothing to fit it to. -/
example :
    let tierAfter (steps : List Step) := ((run ∅ steps).toOption.bind fun documents =>
      entryAt documents (.provider .openAi) "gpt-5-new").bind Entry.tier
    tierAfter [seedOneRow, importNewer 2] = some .flagship ∧
      tierAfter [seedOneRow, importNewer 2, importNewer 3] = some .balanced := by
  decide +kernel

end Baley.Models
