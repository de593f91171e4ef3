import Mathlib.Data.List.Basic

/-!
# Ordered maps

What is read back from a map written out as a list, and what a walk over items under distinct keys
leaves at each key.
-/

namespace Std.TreeMap

variable {α β ι : Type} {cmp : α → α → Ordering} [TransCmp cmp] [LawfulEqCmp cmp]

theorem nodup_keys_toList (map : TreeMap α β cmp) : (map.toList.map Prod.fst).Nodup := by
  rw [List.Nodup, List.pairwise_map]
  apply map.distinct_keys_toList.imp
  intro first second distinct same
  rw [same] at distinct
  exact distinct ReflCmp.compare_self

/-- A map written out and read back. -/
theorem getElem?_ofList_toList [DecidableEq α] (map : TreeMap α β cmp) (key : α) :
    (ofList map.toList cmp)[key]? = map[key]? := by
  cases held : map[key]? with
  | some value =>
      have value_mem := mem_toList_iff_getElem?_eq_some.mpr held
      exact getElem?_ofList_of_mem ReflCmp.compare_self map.distinct_keys_toList value_mem
  | none =>
      apply getElem?_ofList_of_contains_eq_false
      rw [← Bool.not_eq_true, List.contains_iff_mem]
      intro key_mem
      obtain ⟨⟨key', value⟩, value_mem, rfl⟩ := List.mem_map.mp key_mem
      rw [mem_toList_iff_getElem?_eq_some.mp value_mem] at held
      exact Option.some_ne_none value held

/-- Maps that hold the same at each key are written out the same. -/
theorem toList_eq_of_getElem? {map map' : TreeMap α β cmp} (same : ∀ key : α, map[key]? = map'[key]?) :
    map.toList = map'.toList :=
  equiv_iff_toList_eq.mp (Equiv.of_forall_constGet?_eq same)

/-- An item made for each key of a map, found by its key. -/
theorem find?_map_toList [DecidableEq α] {γ : Type} {make : α → γ} {keyOf : γ → α}
    (keyed : ∀ key, keyOf (make key) = key) (map : TreeMap α β cmp) (key : α) :
    ((map.toList.map fun pair => make pair.1).find? fun item => keyOf item = key) =
      if map.contains key then some (make key) else none := by
  cases found : (map.toList.map fun pair => make pair.1).find? fun item => keyOf item = key with
  | some item =>
      obtain ⟨pair, pair_mem, rfl⟩ := List.mem_map.mp (List.mem_of_find?_eq_some found)
      have at_key : pair.1 = key := by simpa [keyed] using List.find?_some found
      rw [if_pos, at_key]
      rw [← at_key, contains_eq_isSome_getElem?, mem_toList_iff_getElem?_eq_some.mp pair_mem]
      rfl
  | none =>
      rw [if_neg]
      intro held
      rw [contains_eq_isSome_getElem?, Option.isSome_iff_exists] at held
      obtain ⟨value, held⟩ := held
      have pair_mem := mem_toList_iff_getElem?_eq_some.mpr held
      exact List.find?_eq_none.mp found _ (List.mem_map_of_mem pair_mem) (by simp [keyed])

/-- Change what a map holds at the key of each item. -/
def alterAll (key : ι → α) (change : ι → Option β → Option β) (items : List ι)
    (map : TreeMap α β cmp) : TreeMap α β cmp :=
  items.foldl (fun map item => map.alter (key item) (change item)) map

variable {key : ι → α} {change : ι → Option β → Option β}

theorem getElem?_alterAll_of_notMem {items : List ι} {at_key : α}
    (absent : at_key ∉ items.map key) (map : TreeMap α β cmp) :
    (alterAll key change items map)[at_key]? = map[at_key]? := by
  induction items generalizing map with
  | nil => rfl
  | cons item items ih =>
      rw [List.map_cons, List.mem_cons, not_or] at absent
      have elsewhere : cmp (key item) at_key ≠ .eq := by
        intro same
        exact absent.1 (LawfulEqCmp.eq_of_compare same).symm
      change (alterAll key change items (map.alter (key item) (change item)))[at_key]? = _
      rw [ih absent.2, getElem?_alter, if_neg elsewhere]

/-- Under distinct keys each item changes what was held at its own key, and nothing else. -/
theorem getElem?_alterAll_of_mem {items : List ι} (distinct : (items.map key).Nodup) {item : ι}
    (item_mem : item ∈ items) (map : TreeMap α β cmp) :
    (alterAll key change items map)[key item]? = change item map[key item]? := by
  induction items generalizing map with
  | nil => exact absurd item_mem List.not_mem_nil
  | cons head items ih =>
      rw [List.map_cons, List.nodup_cons] at distinct
      change (alterAll key change items (map.alter (key head) (change head)))[key item]? = _
      rcases List.mem_cons.mp item_mem with rfl | item_mem
      · rw [getElem?_alterAll_of_notMem distinct.1, getElem?_alter_self]
      · have elsewhere : cmp (key head) (key item) ≠ .eq := by
          intro same
          apply distinct.1
          rw [LawfulEqCmp.eq_of_compare same]
          exact List.mem_map_of_mem item_mem
        rw [ih distinct.2 item_mem, getElem?_alter, if_neg elsewhere]

end Std.TreeMap
