import Mathlib.Data.Sum.Order
import Baley.Json.Scan
import Baley.Paged
import Baley.Store.Cursor

/-!
# Pages of a view

A page follows a declared index, then the key.  It is read by index seeks, each an equality prefix
and one range, and a command's own staged changes are laid on top before anything is written.
-/

namespace Baley

open Json

/-! ## The order of values -/

namespace KeyValue

/-- Texts come before integers; texts compare by their bytes. -/
def rank : KeyValue → List Nat ⊕ₗ Int
  | .text value => Sum.inlₗ ((utf8 value.toList).map UInt8.toNat)
  | .integer value => Sum.inrₗ value

theorem rank_injective : Function.Injective rank := by
  intro value value' same
  cases value with
  | text value =>
      cases value' with
      | integer value' => cases same
      | text value' =>
          have bytes_eq := Sum.inl_injective (toLex.injective same)
          have chars_eq :=
            utf8_injective (List.map_injective_iff.mpr (fun _ _ => UInt8.toNat_inj.mp) bytes_eq)
          rw [String.toList_inj.mp chars_eq]
  | integer value =>
      cases value' with
      | text value' => cases same
      | integer value' => rw [Sum.inr_injective (toLex.injective same)]

instance : LinearOrder KeyValue :=
  LinearOrder.lift' rank rank_injective

end KeyValue

/-- Two values in a column's own direction. -/
def Order.compare : Order → KeyValue → KeyValue → Ordering
  | .ascending, left, right => cmp left right
  | .descending, left, right => cmp right left

/-- One statement a page runs: columns held equal, and one column past a value. -/
structure Seek where
  equals : List (ViewTable.OrderColumn × KeyValue)
  past : Option (ViewTable.OrderColumn × KeyValue)

/-- A document a page reads, with its values in the page's order. -/
structure Found where
  document : Document
  position : List KeyValue

namespace ViewTable

variable (table : ViewTable)

/-- The rows of the view in one generation. -/
def storedRows (documents : Documents) (generation : Nat) : List (DocKey × DocumentRow) :=
  (documents.rows.filter fun row =>
      decide (row.1.1 = generation ∧ row.1.2.1 = table.val.name)).map fun row => (row.1.2.2, row.2)

/-- What a row holds in a column of its table. -/
def columnValue (row : DocKey × DocumentRow) : Column → Option KeyValue
  | .index name => row.2.columns.lookup name
  | .key name => ((table.val.key.map FieldSpec.name).zip row.1).lookup name

/-- A row's values in order columns.  No column is null. -/
def position (order : List OrderColumn) (row : DocKey × DocumentRow) : List KeyValue :=
  order.filterMap fun column => table.columnValue row column.column

/-- Whether a row satisfies a seek's conditions. -/
def admits (seek : Seek) (row : DocKey × DocumentRow) : Bool :=
  (seek.equals.all fun held => decide (table.columnValue row held.1.column = some held.2)) &&
    seek.past.all fun held =>
      (table.columnValue row held.1.column).any fun value =>
        held.1.order.compare held.2 value = .lt

/-- Whether a row has the equality values of a query. -/
def matches' (index : IndexSpec) (equals : List KeyValue) (row : DocKey × DocumentRow) : Bool :=
  (index.fields.zip equals).all fun held =>
    decide (table.columnValue row (.index held.1.name) = some held.2)

/-- One row of a seek: the document, and the order columns, whose last values are the key. -/
def found (order : List OrderColumn) (row : DocKey × DocumentRow) : Except StoreError Found := do
  let position := table.position order row
  let key := position.drop (position.length - table.val.key.length)
  let document ← row.2.document key
  .ok { document, position }

/-- A view's staged changes, by key. -/
def changes (staging : Staging) : List (DocKey × Staged) :=
  ((staging.rows.filter fun row => decide (row.1.1 = table.val.name)).map fun row =>
    (row.1.2, row.2)).mergeSort fun left right => decide (left.1 ≤ right.1)

/-- Write a view's staged changes. -/
def writeChanges (generation : Nat) (changes : List (DocKey × Staged)) (documents : Documents) :
    Except StoreError Documents :=
  changes.foldlM (fun documents change =>
    writeChange table.val generation change.1 change.2.body change.2.producedSeq documents) documents

end ViewTable

end Baley
