import Mathlib.Data.List.Sort
import Baley.Greatest
import Baley.Models.Entries

/-!
# Detection

What one provider's listing does to its catalog: each listed id is tagged by an exact row, by the
longest prefix row or by its best fit among the placed ids, and the accepted ids it lacks lapse.
-/

namespace Baley.Models

open Json

/-- The ids a provider lists, each with its creation time. -/
abbrev ProviderListing := Std.TreeMap String (Option Nat)

/-- How a listed id is placed. -/
structure Tag where
  tier : Tier
  highEffort : Bool
  placed : Placement
  deriving DecidableEq

/-- The tag a row gives: an exact row's, else that of the longest prefix row. -/
def tag (provider : Provider) (id : String) (exactRows : List HintRow) (prefixRows : List PrefixRow) :
    Option Tag :=
  match exactRows.find? fun row => row.provider = provider ∧ row.id = id with
  | some row => some ⟨row.tier, row.highEffort, .hint⟩
  | none =>
      let rows := prefixRows.filter fun row =>
        row.provider = provider ∧ row.start.toList.isPrefixOf id.toList = true
      let longest := lastGreatest
        (fun first second => compare first.start.utf8ByteSize second.start.utf8ByteSize) rows
      longest.map fun row => ⟨row.tier, row.highEffort, .prefixed⟩

/-- A placed id that others may be fitted to. -/
structure Candidate where
  name : String
  tier : Tier
  highEffort : Bool
  created : Option Nat

/-- How many whole segments two ids share from the start. -/
def sharedRun (id name : String) : Nat :=
  let pairs := (id.toList.splitOn '-').zip (name.toList.splitOn '-')
  (pairs.takeWhile fun pair => pair.1 = pair.2).length

/-- The tag of the candidate that shares the longest run; a dated one, then the newest, then the
greatest name wins a tie. -/
def bestFit (id : String) (candidates : List Candidate) : Tag :=
  let sharing := candidates.filter fun candidate => 0 < sharedRun id candidate.name
  let winner := lastGreatest
    (fun first second =>
      ((compare (sharedRun id first.name) (sharedRun id second.name)).then
        (compare first.created second.created)).then (compare first.name second.name))
    sharing
  match winner with
  | some candidate => ⟨candidate.tier, candidate.highEffort, .bestFit⟩
  | none => ⟨.balanced, false, .bestFit⟩

/-- One listed id with its tag. -/
structure Added where
  id : String
  tag : Tag

inductive IdChange where
  /-- Listed, and not accepted before. -/
  | new
  /-- Listed, and already accepted. -/
  | unchanged
  /-- Accepted from seed or detection, and no longer listed. -/
  | removed
  deriving DecidableEq

structure ReportRow where
  id : String
  change : IdChange
  tier : Option Tier
  placed : Placement
  deriving DecidableEq

structure Diff where
  /-- Every listed id the owner has not removed, in id order. -/
  added : List Added
  /-- The accepted seed and detected ids the listing lacks, in id order. -/
  removed : List String
  /-- The owner's report. -/
  report : List ReportRow

abbrev Candidates := Std.TreeMap String Candidate

section Diff

variable (entries : Entries) (listing : ProviderListing)

/-- The listed ids the owner has not removed. -/
def listedIds : ProviderListing :=
  listing.filter fun id _ => !(entries[id]?.any Entry.ownerRemoved)

/-- An accepted entry placed by a row or by the owner is a candidate; the listing's tag of an id goes
before its entry's, except the owner's. -/
def withEntry (candidates : Candidates) (entry : Entry) : Candidates :=
  if entry.ownerRemoved then candidates
  else
    match entry.tier with
    | none => candidates
    | some tier =>
        if entry.placed = .bestFit then candidates
        else if entry.source ≠ .owner ∧ candidates.contains entry.id then candidates
        else
          candidates.insert entry.id
            ⟨entry.id, tier, entry.highEffort, (listedIds entries listing)[entry.id]?.join⟩

/-- The ids a listed id may be fitted to, where `tags` are the listed ids' tags. -/
def candidates (tags : List (String × Option Tag)) : List Candidate :=
  let tagged : Candidates := tags.foldl
    (fun candidates (id, tagged) =>
      match tagged with
      | some tagged =>
          candidates.insert id
            ⟨id, tagged.tier, tagged.highEffort, (listedIds entries listing)[id]?.join⟩
      | none => candidates)
    ∅
  (entries.values.foldl (withEntry entries listing) tagged).toList.map Prod.snd

/-- The row of a listed id, from what the document holds at it: an owner entry keeps its own tier and
placement. -/
def listedRow (held : Option Entry) (added : Added) : ReportRow :=
  match held.filter fun entry => !entry.ownerRemoved with
  | some entry =>
      if entry.source = .owner then ⟨added.id, .unchanged, entry.tier, entry.placed⟩
      else ⟨added.id, .unchanged, some added.tag.tier, added.tag.placed⟩
  | none => ⟨added.id, .new, some added.tag.tier, added.tag.placed⟩

/-- Whether an entry lapses: accepted from seed or detection, and not listed. -/
def lapsed (entry : Entry) : Bool :=
  (entry.source = .seed ∨ entry.source = .detected) ∧ entry.ownerRemoved = false ∧
    listing.contains entry.id = false

/-- What the listing does to the catalog as the document holds it. -/
def diff (provider : Provider) (exactRows : List HintRow) (prefixRows : List PrefixRow)
    (document : Option Value) : Diff :=
  let entries := (readEntries document).toOption.getD ∅
  let tags := (listedIds entries listing).toList.map fun (id, _) =>
    (id, tag provider id exactRows prefixRows)
  let candidates := candidates entries listing tags
  let added := tags.map fun (id, tagged) =>
    -- An id never places itself.
    (⟨id, tagged.getD (bestFit id (candidates.filter fun candidate => candidate.name ≠ id))⟩ : Added)
  let gone := entries.values.filter (lapsed listing)
  let rows := (added.map fun added => listedRow entries[added.id]? added) ++
    gone.map fun entry => (⟨entry.id, .removed, entry.tier, entry.placed⟩ : ReportRow)
  { added
    removed := gone.map Entry.id
    report := rows.mergeSort fun first second => compare first.id second.id ≠ .gt }

end Diff

/-! ## What a diff holds -/

theorem tag_placed {provider : Provider} {id : String} {exactRows : List HintRow}
    {prefixRows : List PrefixRow} {tagged : Tag}
    (tagged_eq : tag provider id exactRows prefixRows = some tagged) : tagged.placed ≠ .owner := by
  unfold tag at tagged_eq
  split at tagged_eq
  · obtain rfl := Option.some.inj tagged_eq
    simp
  · obtain ⟨row, -, rfl⟩ := Option.map_eq_some_iff.mp tagged_eq
    simp

theorem bestFit_placed (id : String) (candidates : List Candidate) :
    (bestFit id candidates).placed ≠ .owner := by
  unfold bestFit
  simp only
  split <;> simp

end Baley.Models
