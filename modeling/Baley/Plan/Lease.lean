import Baley.Plan.Reading

/-!
# The lease of a plan

The lease is the files and directories that a plan's tasks may touch.  One path rule is read by every
entry and by every check of a path against a lease.
-/

namespace Baley.Plan

open Json

/-- The most declarations one lease holds, files and directories together. -/
def leaseLimit : Nat := 256

/-- The parts of a path. -/
def parts (path : String) : List (List Char) :=
  path.toList.splitOn '/'

/-- Whether a path is a plain relative one. -/
def plainRelativePath (path : String) : Bool :=
  !path.isEmpty && path.toList.head? != some '/' && !path.toList.contains '\x5c' &&
    !(parts path).any fun part => part.isEmpty || part == ['.'] || part == ['.', '.']

/-- Whether a path lies inside the lease; a directory is not inside itself. -/
def insideLease (path : String) (files directories : List String) : Bool :=
  if plainRelativePath path then
    files.any (fun file => file == path) ||
      directories.any fun directory =>
        decide ((parts directory).length < (parts path).length) && (parts directory).isPrefixOf (parts path)
  else false

namespace Lease

/-- The entries of a lease list, each a text passing the path rule. -/
def entries (name : String) (list : List Value) : Except PlanRefusal (List String) :=
  list.zipIdx.mapM fun entry =>
    .ofOption (.typed s!"{name}[{entry.2}]") (entry.1.asStr.filter fun path => plainRelativePath path)

/-- Every declaration with its list and its position there. -/
def declared (files directories : List String) : List (String × Nat × String) :=
  files.zipIdx.map (fun entry => ("files", entry.2, entry.1)) ++
    directories.zipIdx.map fun entry => ("directories", entry.2, entry.1)

/-- The first declaration of a path that an earlier one has. -/
def firstRepeat : List String → List (String × Nat × String) → Option (String × Nat × String)
  | _, [] => none
  | seen, declaration :: rest =>
      if declaration.2.2 ∈ seen then some declaration
      else firstRepeat (declaration.2.2 :: seen) rest

def named (declaration : String × Nat × String) : PlanRefusal :=
  .typed s!"{declaration.1}[{declaration.2.1}]"

/-- Read a lease from its two lists. -/
def read (files directories : List Value) : Except PlanRefusal (List String × List String) := do
  let files ← entries "files" files
  let directories ← entries "directories" directories
  let declared := declared files directories
  match firstRepeat [] declared, declared[leaseLimit]? with
  | some repeated, _ => .error (named repeated)
  | none, some beyond => .error (named beyond)
  | none, none => if declared.isEmpty then .error (.typed "files") else .ok (files, directories)

end Lease

/-! ## What a lease is -/

/-- No part of the path is empty or a step to where it stands or up. -/
structure PlainRelative (path : String) : Prop where
  no_backslash : '\x5c' ∉ path.toList
  plain : ∀ part ∈ parts path, part ≠ [] ∧ part ≠ ['.'] ∧ part ≠ ['.', '.']

/-- A path inside a lease is a declared file or lies below a declared directory. -/
def InsideLease (files directories : List String) (path : String) : Prop :=
  PlainRelative path ∧ (path ∈ files ∨ ∃ directory ∈ directories, ∃ below ≠ [],
    parts path = parts directory ++ below)

/-- A lease declares some path and not too many, each once and each plain. -/
structure IsLease (files directories : List String) : Prop where
  plain : ∀ path ∈ files ++ directories, PlainRelative path
  nodup : (files ++ directories).Nodup
  some_path : files ++ directories ≠ []
  bounded : (files ++ directories).length ≤ leaseLimit

theorem nil_mem_parts {path : String} (opens : path.toList = [] ∨ path.toList.head? = some '/') :
    [] ∈ parts path := by
  unfold parts
  rcases opens with empty | slash
  · simp [empty]
  · obtain ⟨rest, chars_eq⟩ := List.head?_eq_some_iff.mp slash
    rw [chars_eq, List.splitOn, List.splitOnP_cons_eq_if_modifyHead]
    simp

theorem plainRelativePath_iff {path : String} : plainRelativePath path = true ↔ PlainRelative path := by
  have empty_iff : path.isEmpty = true ↔ path.toList = [] := by
    rw [String.isEmpty_iff, ← String.toList_eq_nil_iff]
  constructor
  · intro plain
    simp only [plainRelativePath, Bool.and_eq_true, Bool.not_eq_true', List.any_eq_false, Bool.or_eq_true,
      List.isEmpty_iff, beq_iff_eq, not_or, List.contains_eq_mem, decide_eq_false_iff_not] at plain
    obtain ⟨⟨-, no_backslash⟩, parts_plain⟩ := plain
    exact ⟨no_backslash, fun part part_mem =>
      ⟨(parts_plain part part_mem).1.1, (parts_plain part part_mem).1.2, (parts_plain part part_mem).2⟩⟩
  · rintro ⟨no_backslash, parts_plain⟩
    have not_open : ¬(path.toList = [] ∨ path.toList.head? = some '/') :=
      fun opens => (parts_plain [] (nil_mem_parts opens)).1 rfl
    rw [not_or] at not_open
    simp only [plainRelativePath, Bool.and_eq_true, Bool.not_eq_true', List.any_eq_false, Bool.or_eq_true,
      List.isEmpty_iff, beq_iff_eq, not_or, List.contains_eq_mem, decide_eq_false_iff_not, bne_iff_ne]
    refine ⟨⟨⟨?_, not_open.2⟩, no_backslash⟩, fun part part_mem => ?_⟩
    · exact Bool.eq_false_iff.mpr fun empty => not_open.1 (empty_iff.mp empty)
    · obtain ⟨not_empty, not_here, not_up⟩ := parts_plain part part_mem
      exact ⟨⟨not_empty, not_here⟩, not_up⟩

theorem insideLease_iff {path : String} {files directories : List String} :
    insideLease path files directories = true ↔ InsideLease files directories path := by
  have below_iff (directory : String) :
      ((parts directory).length < (parts path).length ∧ parts directory <+: parts path) ↔
        ∃ below ≠ [], parts path = parts directory ++ below := by
    constructor
    · rintro ⟨shorter, below, parts_eq⟩
      refine ⟨below, ?_, parts_eq.symm⟩
      rintro rfl
      rw [← parts_eq, List.append_nil] at shorter
      exact absurd shorter (lt_irrefl _)
    · rintro ⟨below, some_below, parts_eq⟩
      refine ⟨?_, below, parts_eq.symm⟩
      have longer := List.length_pos_iff.mpr some_below
      rw [parts_eq, List.length_append]
      omega
  unfold insideLease InsideLease
  rw [← plainRelativePath_iff]
  split_ifs with plain
  · simp only [plain, Bool.or_eq_true, List.any_eq_true, beq_iff_eq, exists_eq_right, Bool.and_eq_true,
      decide_eq_true_eq, List.isPrefixOf_iff_prefix, below_iff, true_and]
  · simp [plain]

/-! ## Reading a lease -/

namespace Lease

theorem entries_eq_ok {name : String} {list : List Value} {paths : List String} :
    entries name list = .ok paths ↔
      list = paths.map Value.string ∧ ∀ path ∈ paths, PlainRelative path := by
  have each := @mapM_zipIdx_eq_ok String PlanRefusal
    (fun value => value.asStr.filter fun path => plainRelativePath path)
    (fun position => .typed s!"{name}[{position}]") list 0 paths
  have reads_iff (entry : Value) (path : String) :
      (entry.asStr.filter fun path => plainRelativePath path) = some path ↔
        entry = .string path ∧ PlainRelative path := by
    rw [Option.filter_eq_some_iff, asStr_eq_some, plainRelativePath_iff]
  simp only [reads_iff] at each
  refine each.trans ?_
  clear each
  induction paths generalizing list with
  | nil => simp
  | cons path paths ih =>
      rw [List.forall₂_cons_right_iff]
      simp only [ih, List.map_cons, List.forall_mem_cons]
      constructor
      · rintro ⟨entry, rest, ⟨rfl, plain⟩, ⟨rfl, all_plain⟩, rfl⟩
        exact ⟨rfl, plain, all_plain⟩
      · rintro ⟨rfl, plain, all_plain⟩
        exact ⟨_, _, ⟨rfl, plain⟩, ⟨rfl, all_plain⟩, rfl⟩

theorem paths_declared (files directories : List String) :
    (declared files directories).map (fun declaration => declaration.2.2) = files ++ directories := by
  have zipIdx_fst (list : List String) : list.zipIdx.map (fun entry => entry.1) = list :=
    List.zipIdx_map_fst 0 list
  simp [declared, Function.comp_def, zipIdx_fst]

theorem firstRepeat_eq_none {seen : List String} {declarations : List (String × Nat × String)} :
    firstRepeat seen declarations = none ↔
      (declarations.map fun declaration => declaration.2.2).Nodup ∧
        ∀ declaration ∈ declarations, declaration.2.2 ∉ seen := by
  induction declarations generalizing seen with
  | nil => simp [firstRepeat]
  | cons declaration rest ih =>
      rw [firstRepeat]
      split_ifs with repeated
      · simp [repeated]
      · rw [ih, List.map_cons, List.nodup_cons, List.forall_mem_cons]
        constructor
        · rintro ⟨nodup, apart⟩
          refine ⟨⟨fun again => ?_, nodup⟩, repeated, fun other other_mem => ?_⟩
          · obtain ⟨other, other_mem, same⟩ := List.mem_map.mp again
            exact apart other other_mem (same ▸ List.mem_cons_self)
          · exact fun seen_mem => apart other other_mem (List.mem_cons_of_mem _ seen_mem)
        · rintro ⟨⟨fresh, nodup⟩, -, apart⟩
          refine ⟨nodup, fun other other_mem => ?_⟩
          rw [List.mem_cons, not_or]
          refine ⟨fun same => fresh ?_, apart other other_mem⟩
          exact same ▸ List.mem_map_of_mem other_mem

/-- The lists that are read are those of a lease. -/
theorem read_eq_ok {file_list directory_list : List Value} {files directories : List String} :
    read file_list directory_list = .ok (files, directories) ↔
      file_list = files.map Value.string ∧ directory_list = directories.map Value.string ∧
        IsLease files directories := by
  have repeat_iff (files directories : List String) :
      firstRepeat [] (declared files directories) = none ↔ (files ++ directories).Nodup := by
    rw [firstRepeat_eq_none, paths_declared]
    simp
  have length_eq (files directories : List String) :
      (declared files directories).length = (files ++ directories).length := by
    rw [← paths_declared, List.length_map]
  have over_iff (files directories : List String) : (declared files directories)[leaseLimit]? = none ↔
      (files ++ directories).length ≤ leaseLimit := by
    rw [List.getElem?_eq_none_iff, length_eq]
  have empty_iff (files directories : List String) :
      (declared files directories).isEmpty = true ↔ files ++ directories = [] := by
    rw [List.isEmpty_iff_length_eq_zero, length_eq, List.length_eq_zero_iff]
  unfold read
  simp only [Except.bind_eq_ok, entries_eq_ok]
  constructor
  · rintro ⟨files', ⟨rfl, files_plain⟩, directories', ⟨rfl, directories_plain⟩, judged⟩
    split at judged
    · cases judged
    · cases judged
    · rename_i no_repeat not_over
      split_ifs at judged with nothing
      cases judged
      exact ⟨rfl, rfl, List.forall_mem_append.mpr ⟨files_plain, directories_plain⟩,
        (repeat_iff _ _).mp no_repeat, fun empty => nothing ((empty_iff _ _).mpr empty),
        (over_iff _ _).mp not_over⟩
  · rintro ⟨rfl, rfl, plain, nodup, some_path, bounded⟩
    obtain ⟨files_plain, directories_plain⟩ := List.forall_mem_append.mp plain
    refine ⟨files, ⟨rfl, files_plain⟩, directories, ⟨rfl, directories_plain⟩, ?_⟩
    rw [(repeat_iff _ _).mpr nodup, (over_iff _ _).mpr bounded]
    exact if_neg fun nothing => some_path ((empty_iff _ _).mp nothing)

theorem refusedAt_read (files directories : List Value) : RefusedAt 1 (read files directories) := by
  have at_entries (name : String) (list : List Value) : RefusedAt 1 (entries name list) :=
    refusedAt_mapM (fun entry => @refusedAt_ofOption _ 1 _ rfl _) _
  refine (at_entries _ _).bind fun files => (at_entries _ _).bind fun directories => ?_
  simp only
  split
  · exact refusedAt_error rfl
  · exact refusedAt_error rfl
  · split_ifs
    · exact refusedAt_error rfl
    · exact refusedAt_ok _

end Lease

end Baley.Plan
