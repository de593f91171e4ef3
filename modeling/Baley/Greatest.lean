import Mathlib.Order.Nat
import Mathlib.Data.List.Basic

/-!
# The last of the greatest items

The item a running maximum ends with, where the later of two equal ones wins.
-/

namespace Baley

/-- The last of the greatest items. -/
def lastGreatest {α : Type} (order : α → α → Ordering) : List α → Option α
  | [] => none
  | item :: items => some (items.foldl (fun best next => if order best next = .gt then best else next) item)

section Greatest

variable {α : Type}

section Order

variable {order : α → α → Ordering} [Std.TransCmp order]

theorem foldl_greatest (best : α) (items : List α) :
    let winner := items.foldl (fun best next => if order best next = .gt then best else next) best
    winner ∈ best :: items ∧ ∀ other ∈ best :: items, (order other winner).isLE := by
  have self_le (item : α) : (order item item).isLE := by
    rw [@Std.ReflCmp.compare_self _ order]
    rfl
  induction items generalizing best with
  | nil => simpa using self_le best
  | cons next items ih =>
      rw [List.foldl_cons]
      split_ifs with greater
      · obtain ⟨held, greatest⟩ := ih best
        rw [List.forall_mem_cons] at greatest
        refine ⟨?_, List.forall_mem_cons.mpr ⟨greatest.1, List.forall_mem_cons.mpr ⟨?_, greatest.2⟩⟩⟩
        · exact (List.cons_sublist_cons.mpr (List.sublist_cons_self next items)).subset held
        · have below : order next best = .lt := by rw [@Std.OrientedCmp.eq_swap _ order _ next best, greater]; rfl
          exact Std.TransCmp.isLE_trans (by rw [below]; rfl) greatest.1
      · have below : (order best next).isLE := by
          cases compared : order best next with
          | lt | eq => rfl
          | gt => exact absurd compared greater
        obtain ⟨held, greatest⟩ := ih next
        refine ⟨List.mem_cons_of_mem best held, List.forall_mem_cons.mpr ⟨?_, greatest⟩⟩
        exact Std.TransCmp.isLE_trans below (greatest next List.mem_cons_self)

theorem lastGreatest_greatest {items : List α} {best : α}
    (found : lastGreatest order items = some best) :
    best ∈ items ∧ ∀ other ∈ items, (order other best).isLE := by
  cases items with
  | nil => cases found
  | cons item items =>
      obtain rfl := Option.some.inj found
      exact foldl_greatest item items

end Order

variable {key : α → Nat}

theorem lastGreatest_eq_some {items : List α} {best : α}
    (found : lastGreatest (fun first second => compare (key first) (key second)) items = some best) :
    best ∈ items ∧ ∀ other ∈ items, key other ≤ key best := by
  obtain ⟨best_mem, greatest⟩ :=
    @lastGreatest_greatest _ _ (inferInstanceAs (Std.TransCmp (compareOn key))) _ _ found
  exact ⟨best_mem, fun other other_mem => Std.isLE_compare.mp (greatest other other_mem)⟩

theorem lastGreatest_eq_none {order : α → α → Ordering} {items : List α} :
    lastGreatest order items = none ↔ items = [] := by
  cases items <;> simp [lastGreatest]

/-- What is above every other item is the last of the greatest. -/
theorem lastGreatest_of_greatest {order : α → α → Ordering} [Std.TransCmp order] {items : List α}
    {best : α} (best_mem : best ∈ items)
    (greatest : ∀ other ∈ items, other = best ∨ order other best = .lt) :
    lastGreatest order items = some best := by
  cases found : lastGreatest order items with
  | none =>
      rw [lastGreatest_eq_none.mp found] at best_mem
      cases best_mem
  | some other =>
      obtain ⟨other_mem, above⟩ := lastGreatest_greatest found
      obtain rfl | below := greatest other other_mem
      · rfl
      · have over_best := above best best_mem
        rw [@Std.OrientedCmp.eq_swap _ order _ best other, below] at over_best
        cases over_best

/-- The greatest of items with distinct keys does not depend on their order. -/
theorem lastGreatest_perm {items items' : List α} (same : items.Perm items')
    (distinct : ∀ item ∈ items, ∀ other ∈ items, key item = key other → item = other) :
    lastGreatest (fun first second => compare (key first) (key second)) items =
      lastGreatest (fun first second => compare (key first) (key second)) items' := by
  cases found : lastGreatest (fun first second => compare (key first) (key second)) items with
  | none =>
      rw [lastGreatest_eq_none] at found
      rw [found] at same
      rw [List.nil_perm.mp same]
      rfl
  | some best =>
      obtain ⟨best_mem, greatest⟩ := lastGreatest_eq_some found
      cases found' : lastGreatest (fun first second => compare (key first) (key second)) items' with
      | none =>
          rw [lastGreatest_eq_none] at found'
          rw [found'] at same
          rw [List.perm_nil.mp same] at best_mem
          cases best_mem
      | some best' =>
          obtain ⟨best_mem', greatest'⟩ := lastGreatest_eq_some found'
          have keys_eq : key best = key best' :=
            le_antisymm (greatest' best (same.subset best_mem)) (greatest best' (same.symm.subset best_mem'))
          rw [distinct best best_mem best' (same.symm.subset best_mem') keys_eq]

end Greatest

end Baley
