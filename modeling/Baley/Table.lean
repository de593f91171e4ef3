import Mathlib.Data.List.AList

/-!
# Tables

Rows under a unique key, as a database keeps them: a row is looked up, put in the place of the row
of its key, or erased, and a query walks all of them.
-/

/-- Rows of one type under a unique key. -/
abbrev Table (K V : Type) := AList fun _ : K => V

namespace Table

variable {K V : Type}

/-- Every row with its key. -/
def rows (table : Table K V) : List (K × V) :=
  table.entries.map fun entry => (entry.1, entry.2)

theorem nodup_rows (table : Table K V) : (table.rows.map Prod.fst).Nodup := by
  have keys_eq : table.rows.map Prod.fst = table.entries.keys := by
    rw [rows, List.map_map]
    rfl
  rw [keys_eq]
  exact table.nodupKeys

variable [DecidableEq K]

theorem mem_rows {table : Table K V} {key : K} {row : V} :
    (key, row) ∈ table.rows ↔ table.lookup key = some row := by
  rw [← Option.mem_def, AList.mem_lookup_iff]
  constructor
  · intro row_mem
    obtain ⟨⟨entry_key, entry_row⟩, entry_mem, entry_eq⟩ := List.mem_map.mp row_mem
    obtain ⟨rfl, rfl⟩ := Prod.mk.inj entry_eq
    exact entry_mem
  · intro entry_mem
    exact List.mem_map.mpr ⟨⟨key, row⟩, entry_mem, rfl⟩

theorem lookup_put (table : Table K V) (key key' : K) (row : V) :
    (table.insert key row).lookup key' = if key' = key then some row else table.lookup key' := by
  split_ifs with same
  · rw [same, AList.lookup_insert]
  · exact AList.lookup_insert_ne same

theorem lookup_erase (table : Table K V) (key key' : K) :
    (table.erase key).lookup key' = if key' = key then none else table.lookup key' := by
  split_ifs with same
  · rw [same, AList.lookup_erase]
  · exact AList.lookup_erase_ne same

/-- A row of a key that has none; a key that has one is a conflict. -/
def create (table : Table K V) (key : K) (row : V) : Option (Table K V) :=
  match table.lookup key with
  | some _ => none
  | none => some (table.insert key row)

theorem create_eq_some {table created : Table K V} {key : K} {row : V} :
    table.create key row = some created ↔
      table.lookup key = none ∧ created = table.insert key row := by
  unfold create
  cases table.lookup key <;> simp [eq_comm]

/-- Putting a row in the place of another counts one row out and one row in. -/
theorem countP_put (counts : V → Bool) {table : Table K V} {key : K} {old : V}
    (found : table.lookup key = some old) (row : V) :
    (rows (table.insert key row)).countP (fun entry => counts entry.2) + (counts old).toNat =
      table.rows.countP (fun entry => counts entry.2) + (counts row).toNat := by
  have old_mem : key ∈ table.entries.keys :=
    AList.lookup_isSome.mp (by rw [found]; rfl)
  obtain ⟨value, front, back, key_notMem, entries_eq, kerase_eq⟩ := List.exists_of_kerase old_mem
  have value_eq : value = old := by
    have value_mem : (⟨key, value⟩ : Sigma fun _ : K => V) ∈ table.entries := by
      rw [entries_eq]
      simp
    have := AList.mem_lookup_iff.mpr value_mem
    rw [found] at this
    exact (Option.some.inj this).symm
  unfold rows
  rw [AList.entries_insert, kerase_eq, entries_eq, value_eq]
  simp only [List.map_cons, List.map_append, List.countP_cons, List.countP_append]
  cases counts old <;> cases counts row <;> simp <;> omega

end Table
