import Baley.Models.Diffed

/-!
# What a tag depends on

The tag of a listed id depends on the listing, the rows and the placed entries as such: on no order of
theirs, and on nothing best fit placed.
-/

namespace Baley.Models

open Json

/-! ## Rows -/

/-- Two prefixes of one text with the same number of bytes are one. -/
theorem eq_of_prefix_of_size {first second text : String} (starts : first.toList <+: text.toList)
    (starts' : second.toList <+: text.toList) (sizes_eq : first.utf8ByteSize = second.utf8ByteSize) :
    first = second := by
  wlog shorter : first.toList.length ≤ second.toList.length generalizing first second
  · exact (this starts' starts sizes_eq.symm (not_le.mp shorter).le).symm
  obtain ⟨rest, second_eq⟩ := List.prefix_of_prefix_length_le starts starts' shorter
  have appended : second = first ++ String.ofList rest := by
    rw [← String.toList_inj, ← second_eq]
    simp
  rw [appended, String.utf8ByteSize_append] at sizes_eq
  have empty : String.ofList rest = "" := String.utf8ByteSize_eq_zero_iff.mp (by omega)
  rw [appended, empty, String.append_empty]

/-- The tag rows give does not depend on the order of the prefix rows. -/
theorem tag_perm (provider : Provider) (id : String) (exactRows : List HintRow)
    {prefixRows prefixRows' : List PrefixRow} (same : prefixRows.Perm prefixRows')
    (distinct : (prefixRows.map fun row => (row.provider, row.start)).Nodup) :
    tag provider id exactRows prefixRows = tag provider id exactRows prefixRows' := by
  have kept_same := same.filter fun row =>
    row.provider = provider ∧ row.start.toList.isPrefixOf id.toList = true
  unfold tag
  split
  · rfl
  · refine congrArg (Option.map _) (lastGreatest_perm kept_same ?_)
    intro row row_mem other other_mem sizes_eq
    simp only [List.mem_filter, decide_eq_true_eq, List.isPrefixOf_iff_prefix] at row_mem other_mem
    have starts_eq := eq_of_prefix_of_size row_mem.2.2 other_mem.2.2 sizes_eq
    exact List.inj_on_of_nodup_map distinct row_mem.1 other_mem.1
      (Prod.ext (row_mem.2.1.trans other_mem.2.1.symm) starts_eq)

/-! ## The candidates by id -/

section Candidates

variable {entries : Entries} {listing : ProviderListing}

/-- The candidate a listed id's own tag makes it. -/
def taggedCandidate (entries : Entries) (listing : ProviderListing) (id : String) (tagged : Tag) :
    Candidate :=
  ⟨id, tagged.tier, tagged.highEffort, (listedIds entries listing)[id]?.join⟩

/-- What the entry of an id makes of the candidate there. -/
def entryCandidate (entries : Entries) (listing : ProviderListing) (held : Option Entry)
    (candidate : Option Candidate) : Option Candidate :=
  match held with
  | none => candidate
  | some entry =>
      if entry.ownerRemoved then candidate
      else
        match entry.tier with
        | none => candidate
        | some tier =>
            if entry.placed = .bestFit then candidate
            else if entry.source ≠ .owner ∧ candidate.isSome then candidate
            else
              some ⟨entry.id, tier, entry.highEffort, (listedIds entries listing)[entry.id]?.join⟩

theorem getElem?_withEntry (candidates : Candidates) (entry : Entry) (id : String) :
    (withEntry entries listing candidates entry)[id]? =
      if entry.id = id then entryCandidate entries listing (some entry) candidates[id]?
      else candidates[id]? := by
  by_cases removed : entry.ownerRemoved = true
  · simp [withEntry, entryCandidate, removed]
  cases tier_eq : entry.tier with
  | none => simp [withEntry, entryCandidate, tier_eq]
  | some tier =>
      by_cases fitted : entry.placed = .bestFit
      · simp [withEntry, entryCandidate, tier_eq, fitted]
      by_cases at_id : entry.id = id
      · subst at_id
        by_cases given : entry.source ≠ .owner ∧ candidates.contains entry.id = true
        · have given_some := given
          rw [Std.TreeMap.contains_eq_isSome_getElem?] at given_some
          simp only [withEntry, entryCandidate, removed, tier_eq, fitted, given, given_some, if_true,
            Bool.false_eq_true, if_false, and_self, ne_eq, not_false_eq_true]
        · have given_some := given
          rw [Std.TreeMap.contains_eq_isSome_getElem?] at given_some
          simp only [withEntry, entryCandidate, removed, tier_eq, fitted, given, given_some, if_true,
            Bool.false_eq_true, if_false]
          exact Std.TreeMap.getElem?_insert_self
      · rw [if_neg at_id]
        simp only [withEntry, removed, tier_eq, fitted, Bool.false_eq_true, if_false]
        split_ifs
        · rfl
        · rw [Std.TreeMap.getElem?_insert, if_neg]
          exact fun same => at_id (Std.LawfulEqCmp.eq_of_compare same)

theorem getElem?_foldl_withEntry {held : List Entry} (distinct : (held.map Entry.id).Nodup)
    (candidates : Candidates) (id : String) :
    (held.foldl (withEntry entries listing) candidates)[id]? =
      entryCandidate entries listing (held.find? fun entry => entry.id = id) candidates[id]? := by
  induction held generalizing candidates with
  | nil => rfl
  | cons entry held ih =>
      rw [List.map_cons, List.nodup_cons] at distinct
      rw [List.foldl_cons, ih distinct.2, getElem?_withEntry]
      by_cases at_id : entry.id = id
      · have absent : (held.find? fun entry => entry.id = id) = none := by
          refine List.find?_eq_none.mpr fun other other_mem same => distinct.1 ?_
          rw [at_id, ← of_decide_eq_true same]
          exact List.mem_map_of_mem other_mem
        rw [if_pos at_id, absent, List.find?_cons_of_pos (by simpa using at_id)]
        rfl
      · rw [if_neg at_id, List.find?_cons_of_neg (by simpa using at_id)]

/-- The step by which the tag of a listed id becomes a candidate. -/
def withTag (entries : Entries) (listing : ProviderListing) (candidates : Candidates)
    (tagged : String × Option Tag) : Candidates :=
  match tagged.2 with
  | some tag => candidates.insert tagged.1 (taggedCandidate entries listing tagged.1 tag)
  | none => candidates

theorem getElem?_foldl_withTag {tags : List (String × Option Tag)} (distinct : (tags.map Prod.fst).Nodup)
    (candidates : Candidates) (id : String) :
    (tags.foldl (withTag entries listing) candidates)[id]? =
      (((tags.find? fun tagged => tagged.1 = id).bind Prod.snd).map
        (taggedCandidate entries listing id)).or candidates[id]? := by
  induction tags generalizing candidates with
  | nil => simp
  | cons tagged tags ih =>
      obtain ⟨written, tagged⟩ := tagged
      rw [List.map_cons, List.nodup_cons] at distinct
      rw [List.foldl_cons, ih distinct.2]
      by_cases at_id : written = id
      · subst at_id
        have absent : (tags.find? fun tagged => tagged.1 = written) = none := by
          refine List.find?_eq_none.mpr fun other other_mem same => distinct.1 ?_
          rw [← of_decide_eq_true same]
          exact List.mem_map.mpr ⟨other, other_mem, rfl⟩
        rw [absent, List.find?_cons_of_pos (by simp)]
        cases tagged with
        | none => simp [withTag]
        | some tagged => simp [withTag]
      · rw [List.find?_cons_of_neg (by simpa using at_id)]
        congr 1
        cases tagged with
        | none => rfl
        | some tagged =>
            dsimp only [withTag]
            rw [Std.TreeMap.getElem?_insert, if_neg]
            exact fun same => at_id (Std.LawfulEqCmp.eq_of_compare same)

theorem find?_values (sound : entries.Sound) (id : String) :
    (entries.values.find? fun entry => entry.id = id) = entries[id]? := by
  cases held : entries[id]? with
  | none =>
      refine List.find?_eq_none.mpr fun entry entry_mem same => ?_
      obtain ⟨⟨key, entry⟩, pair_mem, rfl⟩ := List.mem_map.mp entry_mem
      have held' := Std.TreeMap.mem_toList_iff_getElem?_eq_some.mp pair_mem
      have key_eq : key = id := (sound key entry held').1.symm.trans (of_decide_eq_true same)
      rw [key_eq, held] at held'
      cases held'
  | some entry =>
      have entry_mem : entry ∈ entries.values :=
        List.mem_map.mpr ⟨(id, entry), Std.TreeMap.mem_toList_iff_getElem?_eq_some.mpr held, rfl⟩
      cases found : entries.values.find? fun entry => entry.id = id with
      | none => exact absurd (by simpa using (sound id entry held).1) (List.find?_eq_none.mp found entry entry_mem)
      | some other =>
          obtain ⟨⟨key, other⟩, pair_mem, rfl⟩ := List.mem_map.mp (List.mem_of_find?_eq_some found)
          have held' := Std.TreeMap.mem_toList_iff_getElem?_eq_some.mp pair_mem
          have other_id : other.id = id := by simpa using List.find?_some found
          rw [(sound key other held').1] at other_id
          rw [other_id, held] at held'
          exact held'.symm

theorem distinct_values (sound : entries.Sound) : (entries.values.map Entry.id).Nodup := by
  have ids_eq : entries.values.map Entry.id = entries.toList.map Prod.fst := by
    rw [Entries.values, List.map_map]
    refine List.map_congr_left fun pair pair_mem => ?_
    exact (sound pair.1 pair.2 (Std.TreeMap.mem_toList_iff_getElem?_eq_some.mp pair_mem)).1
  rw [ids_eq]
  exact Std.TreeMap.nodup_keys_toList _

/-- The tags the rows give the listed ids. -/
def rowTags (entries : Entries) (listing : ProviderListing) (provider : Provider)
    (exactRows : List HintRow) (prefixRows : List PrefixRow) : List (String × Option Tag) :=
  (listedIds entries listing).toList.map fun pair => (pair.1, tag provider pair.1 exactRows prefixRows)

/-- The candidates by their ids. -/
def candidateMap (entries : Entries) (listing : ProviderListing) (tags : List (String × Option Tag)) :
    Candidates :=
  entries.values.foldl (withEntry entries listing) (tags.foldl (withTag entries listing) ∅)

theorem candidates_eq (tags : List (String × Option Tag)) :
    candidates entries listing tags = (candidateMap entries listing tags).toList.map Prod.snd := rfl

variable {provider : Provider} {exactRows : List HintRow} {prefixRows : List PrefixRow}

theorem distinct_rowTags : ((rowTags entries listing provider exactRows prefixRows).map Prod.fst).Nodup := by
  have keys_eq : (rowTags entries listing provider exactRows prefixRows).map Prod.fst =
      (listedIds entries listing).toList.map Prod.fst := by
    rw [rowTags, List.map_map]
    rfl
  rw [keys_eq]
  exact Std.TreeMap.nodup_keys_toList _

/-- The tag rows give an id when it is listed and the owner has not removed it. -/
theorem find?_rowTags (id : String) :
    (((rowTags entries listing provider exactRows prefixRows).find? fun tagged => tagged.1 = id).bind
      Prod.snd) =
      if (listedIds entries listing).contains id then tag provider id exactRows prefixRows else none := by
  have found := @Std.TreeMap.find?_map_toList _ _ _ _ _ _ _
    (fun id => (id, tag provider id exactRows prefixRows)) Prod.fst (fun _ => rfl)
    (listedIds entries listing) id
  rw [rowTags, found]
  split_ifs <;> rfl

/-- The candidate of an id: its entry's, else the one its own tag makes it. -/
def candidateAt (entries : Entries) (listing : ProviderListing) (tagged : Option Tag) (id : String) :
    Option Candidate :=
  entryCandidate entries listing entries[id]? (tagged.map (taggedCandidate entries listing id))

theorem getElem?_candidateMap (sound : entries.Sound) (id : String) :
    (candidateMap entries listing (rowTags entries listing provider exactRows prefixRows))[id]? =
      candidateAt entries listing
        (if (listedIds entries listing).contains id then tag provider id exactRows prefixRows else none)
        id := by
  rw [candidateMap, getElem?_foldl_withEntry (distinct_values sound), find?_values sound,
    getElem?_foldl_withTag distinct_rowTags, find?_rowTags, Std.TreeMap.getElem?_emptyc, Option.or_none]
  rfl

/-- The tag a listing gives an id. -/
def givenTag (entries : Entries) (listing : ProviderListing) (provider : Provider)
    (exactRows : List HintRow) (prefixRows : List PrefixRow) (id : String) : Tag :=
  (tag provider id exactRows prefixRows).getD (bestFit id
    ((candidates entries listing (rowTags entries listing provider exactRows prefixRows)).filter
      fun candidate => candidate.name ≠ id))

/-- The order best fit takes candidates in. -/
def nearness (id : String) (first second : Candidate) : Ordering :=
  ((compare (sharedRun id first.name) (sharedRun id second.name)).then
    (compare first.created second.created)).then (compare first.name second.name)

instance (id : String) : Std.TransCmp (nearness id) :=
  inferInstanceAs (Std.TransCmp (compareLex
    (compareLex (compareOn fun candidate : Candidate => sharedRun id candidate.name)
      (compareOn Candidate.created))
    (compareOn Candidate.name)))

theorem nearness_congr {id : String} {first first' : Candidate} (name_eq : first.name = first'.name)
    (created_eq : first.created = first'.created) (second : Candidate) :
    nearness id first second = nearness id first' second := by
  unfold nearness
  rw [name_eq, created_eq]

theorem name_eq_of_nearness {id : String} {first second : Candidate}
    (same : nearness id first second = .eq) : first.name = second.name := by
  unfold nearness at same
  rw [Ordering.then_eq_eq] at same
  exact Std.LawfulEqCmp.eq_of_compare same.2

/-- The candidate best fit takes an id's tag from. -/
def chosen (entries : Entries) (listing : ProviderListing) (provider : Provider)
    (exactRows : List HintRow) (prefixRows : List PrefixRow) (id : String) : Option Candidate :=
  lastGreatest (nearness id)
    (((candidates entries listing (rowTags entries listing provider exactRows prefixRows)).filter
      fun candidate => candidate.name ≠ id).filter fun candidate => 0 < sharedRun id candidate.name)

/-- The tag of a fitted id. -/
def fitted : Option Candidate → Tag
  | some candidate => ⟨candidate.tier, candidate.highEffort, .bestFit⟩
  | none => ⟨.balanced, false, .bestFit⟩

theorem bestFit_eq (id : String) (candidates : List Candidate) :
    bestFit id candidates = fitted (lastGreatest (nearness id)
      (candidates.filter fun candidate => 0 < sharedRun id candidate.name)) := by
  unfold bestFit fitted nearness
  rfl

theorem givenTag_eq (id : String) : givenTag entries listing provider exactRows prefixRows id =
    (tag provider id exactRows prefixRows).getD
      (fitted (chosen entries listing provider exactRows prefixRows id)) := by
  rw [givenTag, bestFit_eq]
  rfl

/-- Whether best fit may take an entry's tag. -/
def Entry.offers (entry : Entry) : Prop :=
  entry.ownerRemoved = false ∧ entry.tier ≠ none ∧ entry.placed ≠ .bestFit

theorem isSome_entryCandidate (held : Option Entry) (candidate : Option Candidate) :
    (entryCandidate entries listing held candidate).isSome = true ↔
      candidate.isSome = true ∨ ∃ entry, held = some entry ∧ entry.offers := by
  cases held with
  | none => simp [entryCandidate]
  | some entry =>
      by_cases removed : entry.ownerRemoved = true
      · simp [entryCandidate, Entry.offers, removed]
      cases tier_eq : entry.tier with
      | none => simp [entryCandidate, Entry.offers, tier_eq]
      | some tier =>
          by_cases fitted : entry.placed = .bestFit
          · simp [entryCandidate, Entry.offers, removed, tier_eq, fitted]
          · by_cases given : entry.source ≠ .owner ∧ candidate.isSome = true
            · simp [entryCandidate, Entry.offers, removed, tier_eq, fitted, given]
            · simp [entryCandidate, Entry.offers, removed, tier_eq, fitted, given]

/-- Whatever makes an id a candidate, it is one under its own name, with its listed time. -/
theorem candidateAt_fields (sound : entries.Sound) {tagged : Option Tag} {id : String}
    {candidate : Candidate} (found : candidateAt entries listing tagged id = some candidate) :
    candidate.name = id ∧ candidate.created = (listedIds entries listing)[id]?.join := by
  have tag_fields {candidate : Candidate}
      (found : tagged.map (taggedCandidate entries listing id) = some candidate) :
      candidate.name = id ∧ candidate.created = (listedIds entries listing)[id]?.join := by
    obtain ⟨tagged, -, rfl⟩ := Option.map_eq_some_iff.mp found
    exact ⟨rfl, rfl⟩
  rw [candidateAt] at found
  cases held : entries[id]? with
  | none =>
      rw [held] at found
      exact tag_fields found
  | some entry =>
      have entry_id := (sound id entry held).1
      rw [held] at found
      unfold entryCandidate at found
      dsimp only at found
      split at found
      · exact tag_fields found
      split at found
      · exact tag_fields found
      split at found
      · exact tag_fields found
      split at found
      · exact tag_fields found
      · obtain rfl := Option.some.inj found
        exact ⟨entry_id, by rw [entry_id]⟩

theorem added_eq {document : Option Value} (read : readEntries document = .ok entries) :
    (diff listing provider exactRows prefixRows document).added =
      (listedIds entries listing).toList.map fun pair =>
        ⟨pair.1, givenTag entries listing provider exactRows prefixRows pair.1⟩ := by
  simp only [diff, read, Except.toOption, Option.getD_some, List.map_map]
  rfl

end Candidates

/-! ## What a tag depends on -/

section Congr

variable {entries entries' : Entries} {listing listing' : ProviderListing} {provider : Provider}
  {exactRows : List HintRow} {prefixRows prefixRows' : List PrefixRow}

/-- The tag rows give an id that is listed and not removed. -/
def rowTag (entries : Entries) (listing : ProviderListing) (provider : Provider)
    (exactRows : List HintRow) (prefixRows : List PrefixRow) (id : String) : Option Tag :=
  if (listedIds entries listing).contains id then tag provider id exactRows prefixRows else none

theorem mem_candidates (sound : entries.Sound) {candidate : Candidate} :
    candidate ∈ candidates entries listing (rowTags entries listing provider exactRows prefixRows) ↔
      candidateAt entries listing
        (rowTag entries listing provider exactRows prefixRows candidate.name) candidate.name =
          some candidate := by
  rw [candidates_eq, List.mem_map]
  constructor
  · rintro ⟨⟨id, found⟩, pair_mem, rfl⟩
    rw [Std.TreeMap.mem_toList_iff_getElem?_eq_some, getElem?_candidateMap sound] at pair_mem
    obtain ⟨rfl, -⟩ := candidateAt_fields sound pair_mem
    exact pair_mem
  · intro found
    refine ⟨(candidate.name, candidate), ?_, rfl⟩
    rw [Std.TreeMap.mem_toList_iff_getElem?_eq_some, getElem?_candidateMap sound]
    exact found

/-- The candidates an id may take its tag from. -/
theorem mem_sharing (sound : entries.Sound) {id : String} {candidate : Candidate} :
    candidate ∈ ((candidates entries listing (rowTags entries listing provider exactRows prefixRows)).filter
        fun candidate => candidate.name ≠ id).filter (fun candidate => 0 < sharedRun id candidate.name) ↔
      candidateAt entries listing
          (rowTag entries listing provider exactRows prefixRows candidate.name) candidate.name =
          some candidate ∧ candidate.name ≠ id ∧ 0 < sharedRun id candidate.name := by
  rw [List.mem_filter, List.mem_filter, mem_candidates sound, decide_eq_true_eq, decide_eq_true_eq,
    and_assoc]

/-- Tags agree where the listed ids, the rows' tags and the candidates do. -/
theorem givenTag_congr (sound : entries.Sound) (sound' : entries'.Sound)
    (tags_same : ∀ id, tag provider id exactRows prefixRows = tag provider id exactRows prefixRows')
    (candidates_same : ∀ id,
      candidateAt entries listing (rowTag entries listing provider exactRows prefixRows id) id =
        candidateAt entries' listing' (rowTag entries' listing' provider exactRows prefixRows' id) id)
    (id : String) : givenTag entries listing provider exactRows prefixRows id =
      givenTag entries' listing' provider exactRows prefixRows' id := by
  have lists_same : (candidateMap entries listing
        (rowTags entries listing provider exactRows prefixRows)).toList =
      (candidateMap entries' listing'
        (rowTags entries' listing' provider exactRows prefixRows')).toList := by
    refine Std.TreeMap.toList_eq_of_getElem? fun id => ?_
    rw [getElem?_candidateMap sound, getElem?_candidateMap sound']
    exact candidates_same id
  rw [givenTag, givenTag, tags_same, candidates_eq, candidates_eq, lists_same]

/-- Whether a tag may depend on an entry: the owner removed it or best fit did not place it. -/
def decides (entry : Entry) : Bool :=
  entry.ownerRemoved || entry.placed ≠ .bestFit

theorem entryCandidate_filter (held : Option Entry) (candidate : Option Candidate) :
    entryCandidate entries listing (held.filter decides) candidate =
      entryCandidate entries listing held candidate := by
  cases held with
  | none => rfl
  | some entry =>
      by_cases removed : entry.ownerRemoved = true
      · simp [decides, removed, Option.filter_some]
      by_cases fitted : entry.placed = .bestFit
      · cases tier_eq : entry.tier <;> simp [decides, entryCandidate, removed, fitted, tier_eq, Option.filter_some]
      · simp [decides, fitted, Option.filter_some]

theorem listedIds_congr (listed_same : ∀ id : String, listing[id]? = listing'[id]?)
    (entries_same : ∀ id : String, entries[id]?.filter decides = entries'[id]?.filter decides)
    (id : String) : (listedIds entries listing)[id]? = (listedIds entries' listing')[id]? := by
  have removed_eq (held : Option Entry) :
      held.any Entry.ownerRemoved = (held.filter decides).any Entry.ownerRemoved := by
    cases held with
    | none => rfl
    | some entry =>
        by_cases removed : entry.ownerRemoved = true
        · simp [decides, removed, Option.filter_some]
        · by_cases fitted : entry.placed = .bestFit <;> simp [decides, removed, fitted, Option.filter_some]
  rw [listedIds, listedIds, Std.TreeMap.getElem?_filter', Std.TreeMap.getElem?_filter', listed_same,
    removed_eq, removed_eq entries'[id]?, entries_same]

theorem entryCandidate_congr (listed_same : ∀ id : String,
      (listedIds entries listing)[id]? = (listedIds entries' listing')[id]?)
    (held : Option Entry) (candidate : Option Candidate) :
    entryCandidate entries listing held candidate = entryCandidate entries' listing' held candidate := by
  unfold entryCandidate
  simp only [listed_same]

/-- What best fit placed decides no tag, and neither does the order of the prefix rows. -/
theorem givenTag_of_decides (sound : entries.Sound) (sound' : entries'.Sound)
    (listed_same : ∀ id : String, listing[id]? = listing'[id]?)
    (entries_same : ∀ id : String, entries[id]?.filter decides = entries'[id]?.filter decides)
    (rows_same : prefixRows.Perm prefixRows')
    (distinct : (prefixRows.map fun row => (row.provider, row.start)).Nodup) (id : String) :
    givenTag entries listing provider exactRows prefixRows id =
      givenTag entries' listing' provider exactRows prefixRows' id := by
  have tags_same (id : String) := tag_perm provider id exactRows rows_same distinct
  have ids_same := listedIds_congr listed_same entries_same
  refine givenTag_congr sound sound' tags_same (fun id => ?_) id
  have rows_eq : rowTag entries listing provider exactRows prefixRows id =
      rowTag entries' listing' provider exactRows prefixRows' id := by
    rw [rowTag, rowTag, Std.TreeMap.contains_eq_isSome_getElem?,
      Std.TreeMap.contains_eq_isSome_getElem?, ids_same, tags_same]
  have tagged_eq : taggedCandidate entries listing id = taggedCandidate entries' listing' id := by
    funext tagged
    rw [taggedCandidate, taggedCandidate, ids_same]
  rw [candidateAt, candidateAt, rows_eq, tagged_eq, ← entryCandidate_filter, entries_same,
    entryCandidate_filter, entryCandidate_congr ids_same]

end Congr

/-! ## Listings -/

/-- The listing of a body's items: a repeated id counts once, with the time it first came with. -/
def listingOf (items : List (String × Option Nat)) : ProviderListing :=
  items.foldl (fun listing item => listing.insertIfNew item.1 item.2) ∅

theorem getElem?_foldl_insertIfNew (items : List (String × Option Nat)) (listing : ProviderListing)
    (id : String) :
    (items.foldl (fun listing item => listing.insertIfNew item.1 item.2) listing)[id]? =
      listing[id]?.or ((items.find? fun item => item.1 = id).map Prod.snd) := by
  induction items generalizing listing with
  | nil => simp
  | cons item items ih =>
      rw [List.foldl_cons, ih, Std.TreeMap.getElem?_insertIfNew]
      by_cases at_id : item.1 = id
      · rw [List.find?_cons_of_pos (by simpa using at_id)]
        cases held : listing[id]? <;> simp [at_id, Std.TreeMap.mem_iff_isSome_getElem?, held]
      · have elsewhere : ¬(compare item.1 id = .eq ∧ ¬item.1 ∈ listing) := by
          intro same
          exact at_id (Std.LawfulEqCmp.eq_of_compare same.1)
        rw [List.find?_cons_of_neg (by simpa using at_id), if_neg elsewhere]

theorem getElem?_listingOf (items : List (String × Option Nat)) (id : String) :
    (listingOf items)[id]? = (items.find? fun item => item.1 = id).map Prod.snd := by
  rw [listingOf, getElem?_foldl_insertIfNew, Std.TreeMap.getElem?_emptyc, Option.none_or]

/-! ## Documents -/

theorem asU64_lt {value : Value} {n : Nat} (read : value.asU64 = some n) : n < 2 ^ 64 := by
  cases value with
  | number text =>
      rw [Value.asU64, Value.readU64] at read
      simpa using (Option.filter_eq_some_iff.mp read).2
  | _ => cases read

theorem optionalNumber_lt {object : Value} {field : String} {read : Option Nat}
    (reads : optionalNumber object field = .ok read) : ∀ n ∈ read, n < 2 ^ 64 := by
  unfold optionalNumber at reads
  split at reads
  · obtain rfl := Except.ok.inj reads
    simp
  · cases written : number object field with
    | error refused =>
        rw [written] at reads
        cases reads
    | ok n =>
        rw [written] at reads
        obtain rfl := Except.ok.inj reads
        rw [number, Except.ofOption_eq_ok, Option.bind_eq_some_iff] at written
        obtain ⟨value, -, value_read⟩ := written
        intro other other_mem
        rw [Option.mem_some_iff] at other_mem
        exact other_mem ▸ asU64_lt value_read

theorem Entry.fits_of_fromValue {value : Value} {entry : Entry} (read : Entry.fromValue value = .ok entry) :
    entry.Fits := by
  unfold Entry.fromValue at read
  simp only [Except.bind_eq_ok, Except.ok.injEq] at read
  obtain ⟨_, -, _, -, _, -, _, -, _, -, _, -, _, -, _, -, _, -, acceptedSeq, seq_read, _, -, rfl⟩ := read
  exact optionalNumber_lt seq_read

/-- The entries a document's body lists, in its order. -/
def listedEntries (body : Value) : Except String (List Entry) := do
  let entries ← .ofOption "a catalog document without entries"
    ((body.get? "entries").bind Value.asArray)
  entries.mapM Entry.fromValue

theorem readEntries_of_listed {body : Value} {listed : List Entry}
    (reads : listedEntries body = .ok listed) :
    readEntries (some body) = .ok (.ofList (listed.map fun entry => (entry.id, entry))) := by
  obtain ⟨values, values_eq, reads⟩ := Except.bind_eq_ok.mp reads
  simp only [readEntries, values_eq, reads, Except.bind_eq_ok, Except.ok.injEq, exists_eq_left']

theorem fits_of_mapM {values : List Value} {listed : List Entry}
    (reads : values.mapM Entry.fromValue = .ok listed) : ∀ entry ∈ listed, entry.Fits := by
  induction values generalizing listed with
  | nil =>
      obtain rfl := Except.ok.inj reads
      simp
  | cons value values ih =>
      rw [List.mapM_cons] at reads
      obtain ⟨entry, entry_read, reads⟩ := Except.bind_eq_ok.mp reads
      obtain ⟨rest, rest_read, reads⟩ := Except.bind_eq_ok.mp reads
      obtain rfl := Except.ok.inj reads
      exact List.forall_mem_cons.mpr ⟨Entry.fits_of_fromValue entry_read, ih rest_read⟩

/-- The map of entries with distinct ids. -/
theorem getElem?_ofList_entries {listed : List Entry} (distinct : (listed.map Entry.id).Nodup)
    (id : String) (entry : Entry) :
    (Std.TreeMap.ofList (listed.map fun entry => (entry.id, entry)) : Entries)[id]? = some entry ↔
      entry ∈ listed ∧ entry.id = id := by
  have keys_distinct : (listed.map fun entry => (entry.id, entry)).Pairwise
      fun first second => ¬compare first.1 second.1 = .eq := by
    rw [List.pairwise_map]
    rw [List.Nodup, List.pairwise_map] at distinct
    exact distinct.imp fun differ same => differ (Std.LawfulEqCmp.eq_of_compare same)
  constructor
  · intro held
    by_cases id_mem : id ∈ listed.map Entry.id
    · obtain ⟨other, other_mem, rfl⟩ := List.mem_map.mp id_mem
      rw [Std.TreeMap.getElem?_ofList_of_mem Std.ReflCmp.compare_self keys_distinct
        (List.mem_map_of_mem other_mem)] at held
      obtain rfl := Option.some.inj held
      exact ⟨other_mem, rfl⟩
    · rw [Std.TreeMap.getElem?_ofList_of_contains_eq_false] at held
      · cases held
      · rw [← Bool.not_eq_true, List.contains_iff_mem, List.map_map]
        exact id_mem
  · rintro ⟨entry_mem, rfl⟩
    exact Std.TreeMap.getElem?_ofList_of_mem Std.ReflCmp.compare_self keys_distinct
      (List.mem_map_of_mem entry_mem)

theorem find?_of_distinct {items : List (String × Option Nat)} (distinct : (items.map Prod.fst).Nodup)
    {id : String} {item : String × Option Nat} :
    (items.find? fun item => item.1 = id) = some item ↔ item ∈ items ∧ item.1 = id := by
  constructor
  · intro found
    exact ⟨List.mem_of_find?_eq_some found, by simpa using List.find?_some found⟩
  · rintro ⟨item_mem, rfl⟩
    cases found : items.find? fun other => other.1 = item.1 with
    | none => exact absurd (by simp) (List.find?_eq_none.mp found item item_mem)
    | some other =>
        have key_eq : other.1 = item.1 := by simpa using List.find?_some found
        rw [List.inj_on_of_nodup_map distinct (List.mem_of_find?_eq_some found) item_mem key_eq]

theorem sound_of_listed {body : Value} {listed : List Entry} (reads : listedEntries body = .ok listed)
    (distinct : (listed.map Entry.id).Nodup) :
    Entries.Sound (.ofList (listed.map fun entry => (entry.id, entry))) := by
  obtain ⟨values, -, reads⟩ := Except.bind_eq_ok.mp reads
  intro id entry held
  obtain ⟨entry_mem, id_eq⟩ := (getElem?_ofList_entries distinct id entry).mp held
  exact ⟨id_eq, fits_of_mapM reads entry entry_mem⟩

/-- The tags a listing gives do not depend on the order of its ids, of the entries a document lists or of
the prefix rows, nor on the entries best fit placed. -/
theorem tags_of_decided {items items' : List (String × Option Nat)} (items_same : items.Perm items')
    (items_distinct : (items.map Prod.fst).Nodup) {body body' : Value} {listed listed' : List Entry}
    (reads : listedEntries body = .ok listed) (reads' : listedEntries body' = .ok listed')
    (distinct : (listed.map Entry.id).Nodup) (distinct' : (listed'.map Entry.id).Nodup)
    (decided_same : (listed.filter decides).Perm (listed'.filter decides))
    {prefixRows prefixRows' : List PrefixRow} (rows_same : prefixRows.Perm prefixRows')
    (rows_distinct : (prefixRows.map fun row => (row.provider, row.start)).Nodup)
    (provider : Provider) (exactRows : List HintRow) :
    (diff (listingOf items) provider exactRows prefixRows (some body)).added =
      (diff (listingOf items') provider exactRows prefixRows' (some body')).added := by
  have items_distinct' := (items_same.map Prod.fst).nodup_iff.mp items_distinct
  have listing_same (id : String) : (listingOf items)[id]? = (listingOf items')[id]? := by
    rw [getElem?_listingOf, getElem?_listingOf]
    refine congrArg (Option.map Prod.snd) (Option.ext fun item => ?_)
    rw [find?_of_distinct items_distinct, find?_of_distinct items_distinct', items_same.mem_iff]
  have sound := sound_of_listed reads distinct
  have sound' := sound_of_listed reads' distinct'
  have entries_same (id : String) :
      (Std.TreeMap.ofList (listed.map fun entry => (entry.id, entry)) : Entries)[id]?.filter decides =
        (Std.TreeMap.ofList (listed'.map fun entry => (entry.id, entry)) : Entries)[id]?.filter decides := by
    refine Option.ext fun entry => ?_
    have same := decided_same.mem_iff (a := entry)
    rw [List.mem_filter, List.mem_filter] at same
    rw [Option.filter_eq_some_iff, Option.filter_eq_some_iff, getElem?_ofList_entries distinct,
      getElem?_ofList_entries distinct', and_right_comm, same, and_right_comm]
  have ids_same := Std.TreeMap.toList_eq_of_getElem? (listedIds_congr listing_same entries_same)
  rw [added_eq (readEntries_of_listed reads), added_eq (readEntries_of_listed reads'), ids_same]
  refine List.map_congr_left fun pair _ => ?_
  rw [givenTag_of_decides sound sound' listing_same entries_same rows_same rows_distinct]

/-- A body that lists some entries. -/
def entriesBody (listed : List Entry) : Value :=
  .ofEntries [("entries", .array (listed.map Entry.toValue))]

theorem listedEntries_entriesBody {listed : List Entry} (fits : ∀ entry ∈ listed, entry.Fits) :
    listedEntries (entriesBody listed) = .ok listed := by
  have reads := mapM_ok_map fun entry entry_mem => Entry.fromValue_toValue (fits entry entry_mem)
  simp [listedEntries, entriesBody, Except.ofOption, reads, bind, Except.bind]

/-- An entry of an id that is placed so, seen and accepted at no known time. -/
def placedEntry (id : String) (placed : Placement) : Entry :=
  { id, source := .detected, tier := some .flagship, highEffort := false, placed, firstSeen := ""
    lastVerified := none, acceptedSeq := none, ownerRemoved := false }

theorem fits_placedEntry (id : String) (placed : Placement) : (placedEntry id placed).Fits := by
  rintro seq ⟨⟩

/-- Two listed ids in either order, beside an entry best fit placed or none. -/
theorem tags_of_two :
    (diff (listingOf [("a-1", none), ("b", none)]) .openAi [] [⟨.openAi, "b", .balanced, true⟩]
        (some (entriesBody [placedEntry "a" .hint, placedEntry "a-2" .bestFit]))).added =
      (diff (listingOf [("b", none), ("a-1", none)]) .openAi [] [⟨.openAi, "b", .balanced, true⟩]
        (some (entriesBody [placedEntry "a" .hint]))).added :=
  tags_of_decided (List.Perm.swap _ _ _) (by decide)
    (listedEntries_entriesBody (by simp [fits_placedEntry]))
    (listedEntries_entriesBody (by simp [fits_placedEntry])) (by decide) (by decide)
    (.refl _) (.refl _) (by decide) .openAi []

end Baley.Models
