import Mathlib.Data.List.Lex
import Mathlib.Data.List.Sort

/-!
# Pages of an ordered list

Rows stand in the order of their places.  What is read of them run by run, up to a limit, merged
with others and cut into pages is what a walk over the whole list reads.
-/

namespace Paged

variable {ρ κ : Type} [LinearOrder κ] (place : ρ → κ)

/-- Every row stands strictly after the ones before it. -/
def InOrder (rows : List ρ) : Prop :=
  rows.Pairwise fun first second => place first < place second

/-- The rows in the order of their places. -/
def arranged (rows : List ρ) : List ρ :=
  rows.mergeSort fun first second => decide (place first ≤ place second)

variable {place} {rows others : List ρ}

/-- There is one order to put rows in. -/
theorem InOrder.ext (ordered : InOrder place rows) (ordered' : InOrder place others)
    (same : ∀ row, row ∈ rows ↔ row ∈ others) : rows = others := by
  have asymmetric : ∀ first second : ρ, first ∈ rows → second ∈ others →
      place first < place second → place second < place first → first = second :=
    fun _ _ _ _ lt gt => absurd gt lt.not_gt
  have apart : rows.Nodup := ordered.imp fun lt same => lt.ne (congrArg place same)
  have apart' : others.Nodup := ordered'.imp fun lt same => lt.ne (congrArg place same)
  exact List.Perm.eq_of_pairwise asymmetric ordered ordered'
    ((List.perm_ext_iff_of_nodup apart apart').mpr same)

section

variable (place)

variable {place}

end

theorem InOrder.apart (ordered : InOrder place rows) : (rows.map place).Nodup := by
  rw [List.Nodup, List.pairwise_map]
  exact ordered.imp fun lt => lt.ne

/-- Runs read one after another, up to a limit that counts down. -/
def gather : List (List ρ) → Nat → List ρ
  | [], _ => []
  | run :: runs, limit =>
      if (run.take limit).length = limit then run.take limit
      else run.take limit ++ gather runs (limit - (run.take limit).length)

section

variable {ν : Type} [LinearOrder ν] {values : ρ → List ν} {after : List ν}

end

/-! ## Walking page by page -/

section

variable {γ : Type}

/-- What following cursors from one on reads, when it ends. -/
inductive Walk (page : Option γ → List ρ × Option γ → Prop) : Option γ → List ρ → Prop where
  | last {after : Option γ} {items : List ρ} (reads : page after (items, none)) :
      Walk page after items
  | more {after : Option γ} {items rest : List ρ} {next : γ}
      (reads : page after (items, some next)) (walks : Walk page (some next) rest) :
      Walk page after (items ++ rest)

variable (place)

/-- The rows strictly after a place. -/
def beyond (rows : List ρ) : Option κ → List ρ
  | none => rows
  | some after => rows.filter fun row => decide (after < place row)

variable {place}

/-- The first rows of a list, and the last of them when more follow. -/
def cut (size : Nat) (rows : List ρ) : List ρ × Option ρ :=
  (rows.take size, if size < rows.length then (rows.take size).getLast? else none)

theorem InOrder.beyond (ordered : InOrder place rows) (after : Option κ) :
    InOrder place (beyond place rows after) := by
  cases after with
  | none => exact ordered
  | some after => exact ordered.filter _

theorem Walk.map {ρ' : Type} {change : ρ → ρ'} {page : Option γ → List ρ × Option γ → Prop}
    {page' : Option γ → List ρ' × Option γ → Prop}
    (reads : ∀ after items next, page after (items, next) → page' after (items.map change, next))
    {after : Option γ} {rows : List ρ} (walks : Walk page after rows) :
    Walk page' after (rows.map change) := by
  induction walks with
  | last page_reads => exact .last (reads _ _ _ page_reads)
  | more page_reads _ ih =>
      rw [List.map_append]
      exact .more (reads _ _ _ page_reads) ih

end

end Paged
