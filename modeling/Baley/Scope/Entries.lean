import Mathlib.Data.List.InsertIdx
import Mathlib.Data.List.Perm.Basic
import Mathlib.Data.List.Perm.Subperm

/-!
# Lists of entries

The operations a view's document applies to its lists of entries: change or replace the first entry
that satisfies a test, keep entries ascending by their number, and bring some entries to the front.
Each commutes with writing the entries another way.
-/

namespace Baley.Scope

variable {α β : Type}

/-- Change the first entry that satisfies a test, where there is one. -/
def modifyFirst (test : α → Bool) (change : α → α) : List α → Option (List α)
  | [] => none
  | item :: rest =>
      if test item then some (change item :: rest)
      else (modifyFirst test change rest).map fun rest => item :: rest

/-- Put an entry in the place of the first one that satisfies a test, or last; the entry may depend on
the one it replaces. -/
def putFirst (test : α → Bool) (entry : Option α → α) (items : List α) : List α :=
  match items.findIdx? test with
  | some index => items.set index (entry items[index]?)
  | none => items ++ [entry none]

/-- Put an entry in the place of the first one that is the same after those below it, or right after
those below it. -/
def putAscending (below same : α → Bool) (entry : α) : List α → List α
  | [] => [entry]
  | found :: after =>
      if below found then found :: putAscending below same entry after
      else if same found then entry :: after
      else entry :: found :: after

/-- The entries an order names first, in its order, then every other entry as it stood; nothing when
the order names an entry not held. -/
def reprioritized (named : α → Nat → Bool) : List α → List Nat → Option (List α)
  | items, [] => some items
  | items, id :: order => do
      let index ← items.findIdx? fun item => named item id
      let item ← items[index]?
      let rest ← reprioritized named (items.eraseIdx index) order
      some (item :: rest)

/-- A change that leaves each entry as it is leaves the list as it is. -/
theorem map_eq_self {change : α → α} {items : List α}
    (kept : ∀ item ∈ items, change item = item) : items.map change = items :=
  (List.map_congr_left kept).trans (List.map_id items)

/-! ## Entries written another way -/

section Written

variable (write : β → α)

theorem modifyFirst_map (test : α → Bool) (change : α → α) (change' : β → β) (items : List β)
    (commutes : ∀ item ∈ items, change (write item) = write (change' item)) :
    modifyFirst test change (items.map write) =
      (modifyFirst (fun item => test (write item)) change' items).map (List.map write) := by
  induction items with
  | nil => rfl
  | cons item rest ih =>
      rw [List.map_cons, modifyFirst, modifyFirst]
      split_ifs
      · rw [commutes item List.mem_cons_self]
        rfl
      · rw [ih fun item item_mem => commutes item (List.mem_cons_of_mem _ item_mem)]
        cases modifyFirst (fun item => test (write item)) change' rest <;> rfl

theorem putFirst_map (test : α → Bool) (entry : Option α → α) (entry' : Option β → β)
    (commutes : ∀ held, entry (held.map write) = write (entry' held)) (items : List β) :
    putFirst test entry (items.map write) =
      (putFirst (fun item => test (write item)) entry' items).map write := by
  unfold putFirst
  rw [List.findIdx?_map]
  change (match items.findIdx? fun item => test (write item) with
    | some index => _
    | none => _) = _
  cases items.findIdx? fun item => test (write item) with
  | none => simp only [List.map_append, List.map_singleton, ← commutes, Option.map_none]
  | some index => simp only [List.getElem?_map, commutes, List.map_set]

theorem putAscending_map (below same : α → Bool) (entry : β) (items : List β) :
    putAscending below same (write entry) (items.map write) =
      (putAscending (fun item => below (write item)) (fun item => same (write item)) entry
        items).map write := by
  induction items with
  | nil => rfl
  | cons found after ih =>
      rw [List.map_cons, putAscending, putAscending, ih]
      split_ifs <;> rfl

theorem reprioritized_map (named : α → Nat → Bool) (items : List β) (order : List Nat) :
    reprioritized named (items.map write) order =
      (reprioritized (fun item => named (write item)) items order).map (List.map write) := by
  induction order generalizing items with
  | nil => rfl
  | cons id order ih =>
      simp only [reprioritized, List.findIdx?_map, Option.bind_eq_bind]
      change ((items.findIdx? fun item => named (write item) id).bind fun index => _) = _
      cases items.findIdx? fun item => named (write item) id with
      | none => rfl
      | some index =>
          simp only [Option.bind_some, List.getElem?_map]
          cases items[index]? with
          | none => rfl
          | some item =>
              simp only [Option.map_some, Option.bind_some]
              rw [List.eraseIdx_map, ih]
              cases reprioritized (fun item => named (write item)) (items.eraseIdx index) order <;>
                rfl

end Written

theorem reprioritized_congr {named named' : α → Nat → Bool} {order : List Nat}
    (same : ∀ id ∈ order, ∀ item, named item id = named' item id) (items : List α) :
    reprioritized named items order = reprioritized named' items order := by
  induction order generalizing items with
  | nil => rfl
  | cons id order ih =>
      have rest_eq := ih fun other other_mem => same other (List.mem_cons_of_mem _ other_mem)
      simp only [reprioritized, same id List.mem_cons_self, rest_eq]

/-! ## Entries of distinct tests -/

section Distinct

variable {test : α → Bool} {items : List α}

/-- Where one entry at most satisfies the test, changing the first one changes each. -/
theorem modifyFirst_eq_map (change : α → α)
    (distinct : items.Pairwise fun first second => ¬ (test first = true ∧ test second = true))
    {item : α} (item_mem : item ∈ items) (item_test : test item = true) :
    modifyFirst test change items =
      some (items.map fun item => if test item then change item else item) := by
  induction items with
  | nil => cases item_mem
  | cons head rest ih =>
      obtain ⟨head_distinct, rest_distinct⟩ := List.pairwise_cons.mp distinct
      rw [modifyFirst, List.map_cons]
      split_ifs with head_test
      · have rest_eq : (rest.map fun item => if test item then change item else item) = rest := by
          refine map_eq_self fun other other_mem => ?_
          rw [if_neg fun other_test => head_distinct other other_mem ⟨head_test, other_test⟩]
        rw [rest_eq]
      · rcases List.mem_cons.mp item_mem with rfl | item_mem
        · exact absurd item_test head_test
        · rw [ih rest_distinct item_mem]
          rfl

theorem modifyFirst_eq_none (change : α → α) (absent : ∀ item ∈ items, test item = false) :
    modifyFirst test change items = none := by
  induction items with
  | nil => rfl
  | cons head rest ih =>
      rw [modifyFirst, if_neg (by simp [absent head List.mem_cons_self]),
        ih fun item item_mem => absent item (List.mem_cons_of_mem _ item_mem)]
      rfl

theorem putFirst_of_absent (entry : Option α → α) (absent : ∀ item ∈ items, test item = false) :
    putFirst test entry items = items ++ [entry none] := by
  rw [putFirst, List.findIdx?_eq_none_iff.mpr absent]

end Distinct

/-! ## Entries in ascending order -/

section Ascending

variable (numberOf : α → Nat) {number : Nat} {items : List α}

theorem putAscending_of_greatest (entry : α)
    (greatest : ∀ item ∈ items, numberOf item < number) :
    putAscending (fun item => numberOf item < number) (fun item => numberOf item = number) entry
      items = items ++ [entry] := by
  induction items with
  | nil => rfl
  | cons head rest ih =>
      rw [putAscending, if_pos (by simpa using greatest head List.mem_cons_self),
        ih fun item item_mem => greatest item (List.mem_cons_of_mem _ item_mem)]
      rfl

/-- In ascending entries, a number that is held is replaced where it stands. -/
theorem putAscending_of_held (entry : α) (ascending : (items.map numberOf).Pairwise (· < ·))
    (held : number ∈ items.map numberOf) :
    putAscending (fun item => numberOf item < number) (fun item => numberOf item = number) entry
      items = items.map fun item => if numberOf item = number then entry else item := by
  induction items with
  | nil => cases held
  | cons head rest ih =>
      rw [List.map_cons, List.pairwise_cons] at ascending
      obtain ⟨head_least, rest_ascending⟩ := ascending
      have rest_gt {item : α} (item_mem : item ∈ rest) : numberOf head < numberOf item :=
        head_least _ (List.mem_map_of_mem item_mem)
      rw [putAscending, List.map_cons]
      rw [List.map_cons, List.mem_cons] at held
      by_cases same : numberOf head = number
      · have rest_eq : (rest.map fun item => if numberOf item = number then entry else item) =
            rest := by
          refine map_eq_self fun item item_mem => ?_
          have greater := rest_gt item_mem
          rw [if_neg (by omega)]
        rw [if_neg (by simp [same]), if_pos (by simp [same]), if_pos same, rest_eq]
      · have rest_held : number ∈ rest.map numberOf := by
          rcases held with head_eq | rest_held
          · exact absurd head_eq.symm same
          · exact rest_held
        have below := head_least number rest_held
        rw [if_pos (by simpa using below), if_neg same, ih rest_ascending rest_held]

/-- In ascending entries, the entry takes the place of every other one of its number. -/
theorem mem_putAscending (entry : α) (ascending : (items.map numberOf).Pairwise (· < ·))
    (item : α) :
    item ∈ putAscending (fun item => numberOf item < number) (fun item => numberOf item = number)
        entry items ↔ item = entry ∨ item ∈ items ∧ numberOf item ≠ number := by
  induction items with
  | nil => simp [putAscending]
  | cons head rest ih =>
      rw [List.map_cons, List.pairwise_cons] at ascending
      obtain ⟨head_least, rest_ascending⟩ := ascending
      have rest_gt (rest_mem : item ∈ rest) : numberOf head < numberOf item :=
        head_least _ (List.mem_map_of_mem rest_mem)
      rw [putAscending]
      split_ifs with below same
      · simp only [decide_eq_true_eq] at below
        rw [List.mem_cons, ih rest_ascending, List.mem_cons]
        constructor
        · rintro (rfl | rfl | ⟨rest_mem, differs⟩)
          · exact Or.inr ⟨Or.inl rfl, by omega⟩
          · exact Or.inl rfl
          · exact Or.inr ⟨Or.inr rest_mem, differs⟩
        · rintro (rfl | ⟨rfl | rest_mem, differs⟩)
          · exact Or.inr (Or.inl rfl)
          · exact Or.inl rfl
          · exact Or.inr (Or.inr ⟨rest_mem, differs⟩)
      · simp only [decide_eq_true_eq] at same
        rw [List.mem_cons, List.mem_cons]
        refine or_congr_right ⟨fun rest_mem => ?_, ?_⟩
        · have greater := rest_gt rest_mem
          exact ⟨Or.inr rest_mem, by omega⟩
        · rintro ⟨rfl | rest_mem, differs⟩
          · exact absurd same differs
          · exact rest_mem
      · simp only [decide_eq_true_eq] at below same
        rw [List.mem_cons]
        refine or_congr_right ⟨fun held => ⟨held, ?_⟩, And.left⟩
        rcases List.mem_cons.mp held with rfl | rest_mem
        · exact same
        · have greater := rest_gt rest_mem
          omega

theorem ascending_putAscending {entry : α} (entry_eq : numberOf entry = number)
    (ascending : (items.map numberOf).Pairwise (· < ·)) :
    ((putAscending (fun item => numberOf item < number) (fun item => numberOf item = number) entry
      items).map numberOf).Pairwise (· < ·) := by
  induction items with
  | nil => exact List.pairwise_singleton _ _
  | cons head rest ih =>
      rw [List.map_cons, List.pairwise_cons] at ascending
      obtain ⟨head_least, rest_ascending⟩ := ascending
      rw [putAscending]
      split_ifs with below same
      · simp only [decide_eq_true_eq] at below
        rw [List.map_cons, List.pairwise_cons]
        refine ⟨fun other other_mem => ?_, ih rest_ascending⟩
        obtain ⟨item, item_mem, rfl⟩ := List.mem_map.mp other_mem
        rcases (mem_putAscending numberOf entry rest_ascending item).mp item_mem with
          rfl | ⟨item_mem, -⟩
        · omega
        · exact head_least _ (List.mem_map_of_mem item_mem)
      · simp only [decide_eq_true_eq] at same
        rw [List.map_cons, List.pairwise_cons, entry_eq, ← same]
        exact ⟨head_least, rest_ascending⟩
      · simp only [decide_eq_true_eq] at below same
        have before : numberOf entry < numberOf head := by omega
        rw [List.map_cons, List.map_cons, List.pairwise_cons, List.pairwise_cons]
        refine ⟨fun other other_mem => ?_, head_least, rest_ascending⟩
        rcases List.mem_cons.mp other_mem with rfl | rest_mem
        · exact before
        · exact Nat.lt_trans before (head_least other rest_mem)

end Ascending

/-! ## Entries brought to the front -/

theorem perm_of_reprioritized {named : α → Nat → Bool} {items ordered : List α} {order : List Nat}
    (moved : reprioritized named items order = some ordered) : ordered.Perm items := by
  induction order generalizing items ordered with
  | nil =>
      obtain rfl := Option.some.inj moved
      exact List.Perm.refl _
  | cons id order ih =>
      simp only [reprioritized, Option.bind_eq_bind, Option.bind_eq_some_iff, Option.some.injEq]
        at moved
      obtain ⟨index, -, item, item_eq, rest, rest_eq, rfl⟩ := moved
      obtain ⟨inside, rfl⟩ := List.getElem?_eq_some_iff.mp item_eq
      refine (List.Perm.cons _ (ih rest_eq)).trans ?_
      exact List.getElem_cons_eraseIdx_perm inside

/-- An order that names each entry at most once and only entries held brings them to the front. -/
theorem reprioritized_isSome {id : α → Nat} {items : List α} {order : List Nat}
    (distinct : order.Nodup) (held : ∀ number ∈ order, number ∈ items.map id) :
    (reprioritized (fun item number => id item = number) items order).isSome = true := by
  induction order generalizing items with
  | nil => rfl
  | cons number order ih =>
      obtain ⟨fresh, order_distinct⟩ := List.nodup_cons.mp distinct
      obtain ⟨item, item_mem, item_eq⟩ := List.mem_map.mp (held number List.mem_cons_self)
      obtain ⟨index, found⟩ : ∃ index,
          items.findIdx? (fun item => decide (id item = number)) = some index := by
        rw [← Option.isSome_iff_exists, List.findIdx?_isSome, List.any_eq_true]
        exact ⟨item, item_mem, by simpa using item_eq⟩
      obtain ⟨inside, index_eq, -⟩ := List.findIdx?_eq_some_iff_getElem.mp found
      have rest_held : ∀ other ∈ order, other ∈ (items.eraseIdx index).map id := by
        intro other other_mem
        obtain ⟨item, item_mem, rfl⟩ := List.mem_map.mp (held other (List.mem_cons_of_mem _ other_mem))
        apply List.mem_map_of_mem
        have perm := List.getElem_cons_eraseIdx_perm inside
        rcases List.mem_cons.mp (perm.mem_iff.mpr item_mem) with rfl | item_mem
        · exact absurd other_mem (of_decide_eq_true index_eq ▸ fresh)
        · exact item_mem
      obtain ⟨rest, rest_eq⟩ := Option.isSome_iff_exists.mp (ih order_distinct rest_held)
      simp only [reprioritized, found, Option.bind_eq_bind, Option.bind_some,
        List.getElem?_eq_getElem inside, rest_eq, Option.isSome_some]

end Baley.Scope
