import Baley.Install.Owned

/-!
# What the decision keeps of the owner's settings

The document it would write is the one read with Baley's lists filtered and Baley's entries merged in, so
every part is accounted for by where it lies: apart from those entries, above one, in a list or at a switch.
-/

namespace Baley.Install

open Json

/-! ## Filtering the lists -/

section Filtering

variable {lists : List OwnedList} {document : Value} {names : List String}

theorem retainEach_cons (owned : OwnedList) :
    retainEach (owned :: lists) document =
      retainEach lists (document.alterUnder (retain owned.stays) owned.pointer) := rfl

theorem under_retainEach_of_apart (apart : ∀ owned ∈ lists, Value.Apart owned.pointer names) :
    (retainEach lists document).under names = document.under names := by
  induction lists generalizing document with
  | nil => rfl
  | cons owned lists ih =>
      rw [List.forall_mem_cons] at apart
      rw [retainEach_cons, ih apart.2, Value.under_alterUnder_of_apart apart.1]

theorem under_retainEach_of_mem (apart : lists.Pairwise fun first second => Value.Apart first.pointer second.pointer)
    {owned : OwnedList} (owned_mem : owned ∈ lists) :
    (retainEach lists document).under owned.pointer = (document.under owned.pointer).map (retain owned.stays) := by
  induction lists generalizing document with
  | nil => cases owned_mem
  | cons head lists ih =>
      rw [List.pairwise_cons] at apart
      rw [retainEach_cons]
      rcases List.mem_cons.mp owned_mem with rfl | owned_mem
      · rw [under_retainEach_of_apart fun other other_mem => (apart.1 other other_mem).symm,
          Value.under_alterUnder]
      · rw [ih apart.2 owned_mem, Value.under_alterUnder_of_apart (apart.1 owned owned_mem)]

theorem retain_of_not_array {keeps : Value → Bool} {value : Value} (no_array : value.asArray = none) :
    retain keeps value = value := by
  cases value with
  | array _ => cases no_array
  | _ => rfl

/-- A part that is no list at the pointer is kept, but for what lies below it. -/
theorem under_retain (keeps : Value → Bool) {pointer : List String} {held : Value}
    (found : document.under names = some held) (other : held.asArray = none ∨ names ≠ pointer) :
    ∃ held', (document.alterUnder (retain keeps) pointer).under names = some held' ∧
      (held' = held ∨ ∃ name rest, held' = held.alterUnder (retain keeps) (name :: rest)) := by
  by_cases above : names <+: pointer
  · obtain ⟨rest, rfl⟩ := above
    rw [Value.under_alterUnder_append, found]
    cases rest with
    | nil =>
        have no_array := other.resolve_right (by simp)
        exact ⟨_, rfl, .inl (retain_of_not_array no_array)⟩
    | cons name rest => exact ⟨_, rfl, .inr ⟨name, rest, rfl⟩⟩
  · refine ⟨held, ?_, .inl rfl⟩
    by_cases below : pointer <+: names
    · obtain ⟨_ | ⟨name, rest⟩, rfl⟩ := below
      · rw [List.append_nil] at above
        exact absurd (List.prefix_refl pointer) above
      · obtain ⟨members, members_eq⟩ := under_above found
        rw [Value.under_append, members_eq] at found
        rw [Value.under_append, Value.under_alterUnder, members_eq]
        exact found
    · rw [Value.under_alterUnder_of_apart ⟨below, above⟩, found]

/-- A part that is neither an object nor one of the lists is kept. -/
theorem under_retainEach_of_flat {held : Value} (found : document.under names = some held)
    (flat : held.asObject = none) (other : ∀ owned ∈ lists, names ≠ owned.pointer) :
    (retainEach lists document).under names = some held := by
  induction lists generalizing document with
  | nil => exact found
  | cons owned lists ih =>
      rw [List.forall_mem_cons] at other
      obtain ⟨held', found', rfl | ⟨name, rest, rfl⟩⟩ := under_retain owned.stays found (.inr other.1)
      · exact ih found' other.2
      · refine ih ?_ other.2
        rw [found']
        cases held with
        | object _ => cases flat
        | _ => rfl

/-- An object keeps its names, in order. -/
theorem under_retainEach_of_object (lists : List OwnedList) {members : Members} (found : document.under names = some (.object members)) :
    ∃ members', (retainEach lists document).under names = some (.object members') ∧
      Members.names members' = Members.names members := by
  induction lists generalizing document members with
  | nil => exact ⟨members, found, rfl⟩
  | cons owned lists ih =>
      obtain ⟨held', found', rfl | ⟨name, rest, rfl⟩⟩ := under_retain owned.stays found (.inl rfl)
      · exact ih found'
      · obtain ⟨members', altered, same_names, -⟩ :=
          Value.alterUnder_object (retain owned.stays) name rest members
        rw [altered] at found'
        obtain ⟨members'', found'', names_eq⟩ := ih found'
        exact ⟨members'', found'', names_eq.trans same_names⟩

/-- Whether a value is an object, and whether it is a list. -/
def kind (value : Value) : Bool × Bool := (value.asObject.isSome, value.asArray.isSome)

theorem kind_retain (keeps : Value → Bool) (value : Value) :
    ((retain keeps value).under names).map kind = (value.under names).map kind := by
  cases value with
  | array items => cases names <;> rfl
  | _ => rfl

theorem kind_alterUnder {change : Value → Value}
    (kept : ∀ value names, ((change value).under names).map kind = (value.under names).map kind)
    (pointer : List String) :
    ((document.alterUnder change pointer).under names).map kind = (document.under names).map kind := by
  induction pointer generalizing document names with
  | nil => exact kept document names
  | cons name pointer ih =>
      cases names with
      | nil =>
          cases document with
          | object members =>
              obtain ⟨members', altered, -⟩ := Value.alterUnder_object change name pointer members
              rw [altered]
              rfl
          | _ => rfl
      | cons name' names =>
          rw [Value.under, Value.under, Value.get?_alterUnder]
          split_ifs with same
          · rw [same]
            cases document.get? name with
            | none => rfl
            | some held => exact ih
          · rfl

theorem kind_retainEach (lists : List OwnedList) (document : Value) (names : List String) :
    ((retainEach lists document).under names).map kind = (document.under names).map kind := by
  induction lists generalizing document with
  | nil => rfl
  | cons owned lists ih =>
      rw [retainEach_cons, ih, kind_alterUnder fun value names => kind_retain owned.stays value]

theorem fits_of_kind {held held' : Value} (same : kind held = kind held') (value : Value) :
    fits held value = fits held' value := by
  have objects := congrArg Prod.fst same
  have arrays := congrArg Prod.snd same
  cases value with
  | object _ => exact objects
  | array _ => exact arrays
  | _ => rfl

theorem fits_retainEach (lists : List OwnedList) {ours : Value} : Fits (retainEach lists document) ours ↔ Fits document ours := by
  constructor
  · intro each names held value held_eq value_eq
    have kinds := kind_retainEach lists document names
    rw [held_eq, Option.map_some, Option.map_eq_some_iff] at kinds
    obtain ⟨held', held'_eq, same⟩ := kinds
    exact (fits_of_kind same.symm value).trans (each names held' value held'_eq value_eq)
  · intro each names held value held_eq value_eq
    have kinds := (kind_retainEach lists document names).symm
    rw [held_eq, Option.map_some, Option.map_eq_some_iff] at kinds
    obtain ⟨held', held'_eq, same⟩ := kinds
    exact (fits_of_kind same.symm value).trans (each names held' value held'_eq value_eq)

end Filtering

/-! ## What would be written -/

/-- The document read, filtered, with Baley's entries merged in. -/
def written (input : Input) : Value := (merge (removed input) "" (.object (ourEntries input))).1

section Written

variable {input : Input} {names : List String}

theorem written_apart (apart : ∀ path ∈ entryPaths input.heldBack.isSome, Value.Apart path names) :
    (written input).under names = input.current.document.under names := by
  have lacking := lacks_of_apart (isJson_ourEntries input) fun path path_mem => apart path (ends_ourEntries path_mem)
  rw [written, under_merge_of_lacks (isJson_ourEntries input) (serverless_ourEntries input) lacking, removed_eq]
  exact under_retainEach_of_apart fun owned owned_mem => apart _ (pointer_mem_entryPaths owned_mem)

theorem removed_switch {switch : List String × String × Bool} (switch_mem : switch ∈ switches) :
    (removed input).under switch.1 = input.current.document.under switch.1 := by
  rw [removed_eq]
  exact under_retainEach_of_apart fun owned owned_mem => switch_apart owned_mem switch_mem

theorem written_listed {owned : OwnedList} (owned_mem : owned ∈ ownedLists input) {items : List Value}
    (found : input.current.document.under owned.pointer = some (.array items)) :
    (written input).under owned.pointer =
      some (.array (owned.ours.foldl gains (items.filter owned.stays))) := by
  have filtered : (removed input).under owned.pointer = some (.array (items.filter owned.stays)) := by
    rw [removed_eq, under_retainEach_of_mem (pointers_apart input) owned_mem, found]
    rfl
  rw [written]
  rcases under_owned owned_mem with ours | ⟨empty, lacking⟩
  · rw [under_merge (isJson_ourEntries input) (serverless_ourEntries input) filtered ours, merge]
  · rw [under_merge_of_lacks (isJson_ourEntries input) (serverless_ourEntries input) lacking, filtered, empty]
    rfl

variable (fits : Fits (removed input) (.object (ourEntries input)))

include fits

theorem written_flat {held : Value} (found : input.current.document.under names = some held)
    (flat : held.asObject = none) (no_list : ∀ owned ∈ ownedLists input, names ≠ owned.pointer)
    (no_switch : input.heldBack = none → ∀ switch ∈ switches, ¬switch.1 <+: names) :
    (written input).under names = some held := by
  refine under_merge_of_flat (isJson_ourEntries input) (serverless_ourEntries input) fits ?_ flat
    (fun _ _ => no_leaf_above no_switch) ?_
  · rw [removed_eq]
    exact under_retainEach_of_flat found flat no_list
  · intro items array
    rcases under_ourEntries_flat array rfl with ⟨-, switch, -, -, leaf⟩ | ⟨owned, owned_mem, names_eq, -⟩
    · cases leaf
    · exact no_list owned owned_mem names_eq

theorem written_object {members : Members} (found : input.current.document.under names = some (.object members))
    (no_switch : input.heldBack = none → ∀ switch ∈ switches, ¬switch.1 <+: names) :
    ∃ members', (written input).under names = some (.object members') ∧
      Members.names members' = Members.names members ++
        (namesOf (Value.under names (.object (ourEntries input)))).filter fun name =>
          name ∉ Members.names members := by
  obtain ⟨members', found', same_names⟩ := under_retainEach_of_object (ownedLists input) found
  rw [← removed_eq] at found'
  rw [← same_names]
  exact under_merge_of_object (isJson_ourEntries input) (serverless_ourEntries input) fits found'
    fun _ _ => no_leaf_above no_switch

theorem written_absent (absent : input.current.document.under names = none) :
    (written input).under names = Value.under names (.object (ourEntries input)) := by
  have removed_absent : (removed input).under names = none := by
    rw [← Option.map_eq_none_iff (f := kind), removed_eq, kind_retainEach, absent]
    rfl
  exact under_merge_of_none (isJson_ourEntries input) (serverless_ourEntries input) fits removed_absent

theorem written_switch (composed_in : input.heldBack = none) {switch : List String × String × Bool}
    (switch_mem : switch ∈ switches) : (written input).under switch.1 = some (.bool switch.2.2) := by
  have ours := under_switch composed_in switch_mem
  rw [written]
  cases found : (removed input).under switch.1 with
  | none => rw [under_merge_of_none (isJson_ourEntries input) (serverless_ourEntries input) fits found, ours]
  | some held =>
      rw [under_merge (isJson_ourEntries input) (serverless_ourEntries input) found ours, merge_leaf rfl]
      split_ifs with same
      · rw [Value.same_bool_iff.mp same]
      · rfl

/-- A list of Baley's entries is there afterwards and holds something the same as each of its items. -/
theorem written_owned {owned : OwnedList} (owned_mem : owned ∈ ownedLists input)
    (ours_held : Value.under owned.pointer (.object (ourEntries input)) = some (.array owned.ours)) :
    ∃ items, (written input).under owned.pointer = some (.array items) ∧
      ∀ item ∈ owned.ours, items.any (·.same item) = true := by
  cases found : input.current.document.under owned.pointer with
  | none =>
      refine ⟨owned.ours, (written_absent fits found).trans ours_held, fun item item_mem => ?_⟩
      exact List.any_eq_true.mpr ⟨item, item_mem, Value.same_self (isJson_owned owned_mem item item_mem)⟩
  | some held =>
      have fits' : Fits input.current.document (.object (ourEntries input)) := by
        rw [← fits_retainEach (ownedLists input), ← removed_eq]
        exact fits
      have fitting := fits' owned.pointer held _ found ours_held
      cases held with
      | array items =>
          exact ⟨_, written_listed owned_mem found, fun item item_mem =>
            any_gained (isJson_owned owned_mem item item_mem) item_mem⟩
      | _ => cases fitting

end Written

end Baley.Install
