import Mathlib.Data.List.Forall2
import Baley.Config.Layer

/-!
# A TOML table without its places

What a settings file becomes before a set writes into it.  Values are read and written at paths of names:
writing at one path leaves every path apart from it.
-/

namespace Baley.Config

/-- A 64-bit integer. -/
def Fits (value : Int) : Prop := -2 ^ 63 ≤ value ∧ value < 2 ^ 63

/-- A TOML value, over the library's floats and dates. -/
inductive Plain (Decimal Date : Type) where
  | string (text : String)
  | integer (value : Int) (fits : Fits value)
  | float (value : Decimal)
  | boolean (value : Bool)
  | datetime (value : Date)
  | array (items : List (Plain Decimal Date))
  | table (members : List (String × Plain Decimal Date))

/-- A table, each of its names held by the first member that has it. -/
abbrev Table (Decimal Date : Type) := List (String × Plain Decimal Date)

variable {Decimal Date : Type}

namespace Table

/-- What a table holds under a name. -/
def get (name : String) (table : Table Decimal Date) : Option (Plain Decimal Date) :=
  (table.find? fun member => member.1 = name).map Prod.snd

/-- A table with a name's value replaced, or the name added. -/
def put (name : String) (value : Plain Decimal Date) : Table Decimal Date → Table Decimal Date
  | [] => [(name, value)]
  | member :: members => if member.1 = name then (name, value) :: members else member :: put name value members

@[simp]
theorem get_put_self (name : String) (value : Plain Decimal Date) (table : Table Decimal Date) :
    (table.put name value).get name = some value := by
  induction table with
  | nil => simp [put, get]
  | cons member members ih =>
      rw [put]
      split
      · simp [get]
      · rename_i other
        rw [get, List.find?_cons, decide_eq_false other]
        exact ih

theorem get_put_of_ne {name other : String} (distinct : other ≠ name) (value : Plain Decimal Date)
    (table : Table Decimal Date) : (table.put name value).get other = table.get other := by
  induction table with
  | nil => simp [put, get, Ne.symm distinct]
  | cons member members ih =>
      rw [put]
      split
      · rename_i same
        simp [get, same, Ne.symm distinct]
      · rw [get, get, List.find?_cons, List.find?_cons]
        split
        · rfl
        · exact ih

end Table

/-- What some names lead to from a value. -/
def Plain.under : List String → Plain Decimal Date → Option (Plain Decimal Date)
  | [], value => some value
  | name :: path, .table members => (Table.get name members).bind (Plain.under path)
  | _ :: _, _ => none

namespace Table

/-- What some names lead to from a table. -/
def valueAt (path : List String) (table : Table Decimal Date) : Option (Plain Decimal Date) :=
  match path with
  | [] => none
  | name :: path => (table.get name).bind (Plain.under path)

/-- The table at a name, empty when there is none. -/
def child (name : String) (table : Table Decimal Date) : Table Decimal Date :=
  match table.get name with
  | some (.table inner) => inner
  | _ => []

/-- A table with a value written at a path, the tables on the way made where they are missing. -/
def writeAt : List String → Plain Decimal Date → Table Decimal Date → Table Decimal Date
  | [], _, table => table
  | [name], value, table => table.put name value
  | name :: path, value, table => table.put name (.table (writeAt path value (table.child name)))

/-! ## Reading after a write -/

theorem valueAt_cons (name : String) (path : List String) (table : Table Decimal Date) :
    table.valueAt (name :: path) = (table.get name).bind (Plain.under path) := rfl

theorem under_table {path : List String} (nonempty : path ≠ []) (members : Table Decimal Date) :
    Plain.under path (.table members) = members.valueAt path := by
  cases path with
  | nil => contradiction
  | cons name path => rfl

theorem under_eq_valueAt_child {path : List String} (nonempty : path ≠ []) (name : String)
    (table : Table Decimal Date) :
    (table.get name).bind (Plain.under path) = (table.child name).valueAt path := by
  cases path with
  | nil => contradiction
  | cons next path =>
      rw [child]
      cases held : table.get name with
      | none => rfl
      | some value =>
          cases value with
          | _ => rfl

theorem writeAt_cons {name : String} {path : List String} (nonempty : path ≠ []) (value : Plain Decimal Date)
    (table : Table Decimal Date) :
    table.writeAt (name :: path) value = table.put name (.table ((table.child name).writeAt path value)) := by
  cases path with
  | nil => contradiction
  | cons next path => rfl

/-- A path holds what was written at it. -/
theorem valueAt_writeAt_self {path : List String} (nonempty : path ≠ []) (value : Plain Decimal Date)
    (table : Table Decimal Date) : (table.writeAt path value).valueAt path = some value := by
  induction path generalizing table with
  | nil => contradiction
  | cons name path ih =>
      by_cases last : path = []
      · subst last
        rw [writeAt, valueAt_cons, get_put_self]
        rfl
      · rw [writeAt_cons last, valueAt_cons, get_put_self, Option.bind_some, under_table last, ih last]

/-- The way to a written path is tables. -/
theorem valueAt_writeAt_above {above path : List String} (starts : above <+: path) (shorter : above ≠ path)
    (nonempty : above ≠ []) (value : Plain Decimal Date) (table : Table Decimal Date) :
    ∃ inner, (table.writeAt path value).valueAt above = some (.table inner) := by
  induction above generalizing path table with
  | nil => contradiction
  | cons name above ih =>
      obtain ⟨rest, rfl⟩ := starts
      rw [List.cons_append] at shorter ⊢
      have deeper : above ++ rest ≠ [] :=
        fun empty => shorter (by rw [empty, (List.append_eq_nil_iff.mp empty).1])
      rw [writeAt_cons deeper, valueAt_cons, get_put_self, Option.bind_some]
      by_cases last : above = []
      · subst last
        exact ⟨_, rfl⟩
      · rw [under_table last]
        exact ih (List.prefix_append above rest) (fun same => shorter (congrArg (name :: ·) same)) last _

/-- A write leaves every path apart from it. -/
theorem valueAt_writeAt_of_apart {path other : List String} (not_above : ¬ other <+: path) (not_below : ¬ path <+: other)
    (value : Plain Decimal Date) (table : Table Decimal Date) :
    (table.writeAt path value).valueAt other = table.valueAt other := by
  induction path generalizing other table with
  | nil => exact absurd (List.nil_prefix) not_below
  | cons name path ih =>
      cases other with
      | nil => exact absurd (List.nil_prefix) not_above
      | cons name' other =>
          rw [valueAt_cons, valueAt_cons]
          by_cases same : name' = name
          · subst same
            rw [List.cons_prefix_cons, and_iff_right rfl] at not_above not_below
            have deeper : path ≠ [] := fun empty => not_below (empty ▸ List.nil_prefix)
            have other_deeper : other ≠ [] := fun empty => not_above (empty ▸ List.nil_prefix)
            rw [writeAt_cons deeper, get_put_self, Option.bind_some, under_table other_deeper,
              ih not_above not_below, under_eq_valueAt_child other_deeper]
          · cases path with
            | nil => rw [writeAt, get_put_of_ne same]
            | cons next path => rw [writeAt_cons (List.cons_ne_nil _ _), get_put_of_ne same]

end Table

/-! ## A document read as a table -/

/-- A number of 64 bits in its radix, with an optional sign before its digits. -/
def readI64 (radix : Nat) (digits : String) : Option Int :=
  (match digits.toList with
    | '-' :: digits => (readDigits radix digits).map fun number => -Int.ofNat number
    | '+' :: digits => (readDigits radix digits).map Int.ofNat
    | digits => (readDigits radix digits).map Int.ofNat).filter fun value => -2 ^ 63 ≤ value ∧ value < 2 ^ 63

/-- How a library reads the numbers and dates that have no type of their own here. -/
structure Scalars (Decimal Date : Type) where
  decimal : String → Option Decimal
  date : String → Option Date

/-- A document and a value without places say the same. -/
inductive Denotes (scalars : Scalars Decimal Date) : Toml → Plain Decimal Date → Prop
  | string (text : String) : Denotes scalars (.string text) (.string text)
  | integer {radix : Nat} {digits : String} {value : Int} (reads : readI64 radix digits = some value)
      (fits : Fits value) : Denotes scalars (.integer radix digits) (.integer value fits)
  | float {text : String} {value : Decimal} (reads : scalars.decimal text = some value) :
      Denotes scalars (.float text) (.float value)
  | boolean (value : Bool) : Denotes scalars (.boolean value) (.boolean value)
  | datetime {text : String} {value : Date} (reads : scalars.date text = some value) :
      Denotes scalars (.datetime text) (.datetime value)
  | array {items : List (Nat × Toml)} {values : List (Plain Decimal Date)}
      (each : List.Forall₂ (fun item value => Denotes scalars item.2 value) items values) :
      Denotes scalars (.array items) (.array values)
  | table {entries : List (Key × Toml)} {members : Table Decimal Date}
      (same_names : ∀ name, (entryOf name entries).isSome = (members.get name).isSome)
      (each : ∀ name entry value, entryOf name entries = some entry → members.get name = some value →
        Denotes scalars entry.2 value) :
      Denotes scalars (.table entries) (.table members)

namespace Denotes

variable {scalars : Scalars Decimal Date}

/-- Where a document leads somewhere, a value that says the same does, to what says the same. -/
theorem under (path : List String) (key : Key) {toml : Toml} {value : Plain Decimal Date}
    (same : Denotes scalars toml value) {found : Key × Toml} (leads : entryUnder path (key, toml) = some found) :
    ∃ value', Plain.under path value = some value' ∧ Denotes scalars found.2 value' := by
  induction path generalizing key toml value with
  | nil =>
      cases leads
      exact ⟨value, rfl, same⟩
  | cons name path ih =>
      cases same with
      | table same_names each =>
          obtain ⟨entry, held, leads⟩ := Option.bind_eq_some_iff.mp leads
          have names_same := same_names name
          rw [held, Option.isSome_some, eq_comm, Option.isSome_iff_exists] at names_same
          obtain ⟨value, holds⟩ := names_same
          obtain ⟨value', leads', same⟩ := ih _ (each name entry value held holds) leads
          exact ⟨value', by rw [Plain.under, holds, Option.bind_some, leads'], same⟩
      | _ => cases leads

theorem of_under (path : List String) (key : Key) {toml : Toml} {value : Plain Decimal Date}
    (same : Denotes scalars toml value) {value' : Plain Decimal Date} (leads : Plain.under path value = some value') :
    ∃ found, entryUnder path (key, toml) = some found ∧ Denotes scalars found.2 value' := by
  induction path generalizing key toml value with
  | nil =>
      cases leads
      exact ⟨(key, toml), rfl, same⟩
  | cons name path ih =>
      cases same with
      | table same_names each =>
          obtain ⟨value, holds, leads⟩ := Option.bind_eq_some_iff.mp leads
          have names_same := same_names name
          rw [holds, Option.isSome_some, Option.isSome_iff_exists] at names_same
          obtain ⟨entry, held⟩ := names_same
          obtain ⟨found, leads', same⟩ := ih _ (each name entry value held holds) leads
          exact ⟨found, by rw [entryUnder, held, Option.bind_some, leads'], same⟩
      | _ => cases leads

variable {entries : List (Key × Toml)} {members : Table Decimal Date} {path : List String}

theorem valueAt_of_entryAt (same : Denotes scalars (.table entries) (.table members)) {found : Key × Toml}
    (leads : entryAt path entries = some found) :
    ∃ value, members.valueAt path = some value ∧ Denotes scalars found.2 value := by
  cases path with
  | nil => cases leads
  | cons name path => exact same.under (name :: path) ⟨name, 0, 0⟩ leads

theorem entryAt_of_valueAt (same : Denotes scalars (.table entries) (.table members)) {value : Plain Decimal Date}
    (leads : members.valueAt path = some value) :
    ∃ found, entryAt path entries = some found ∧ Denotes scalars found.2 value := by
  cases path with
  | nil => cases leads
  | cons name path => exact same.of_under (name :: path) ⟨name, 0, 0⟩ leads

theorem table_iff {toml : Toml} {value : Plain Decimal Date} (same : Denotes scalars toml value) :
    (∃ entries, toml = .table entries) ↔ ∃ members, value = .table members := by
  cases same with
  | _ => simp

end Denotes

end Baley.Config
