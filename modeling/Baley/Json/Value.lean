import Mathlib.Data.String.Basic
import Mathlib.Data.List.Sort

/-!
# JSON values over sorted objects

A value keeps the source text of every number and the members of every object.  An object built by
the operations of this file is a map: its keys are distinct and stand in code point order, which is
also the byte order of their UTF-8 form.
-/

namespace Json

/-- A JSON value; a number is its source text. -/
inductive Value where
  | null
  | bool (flag : Bool)
  | number (text : String)
  | string (text : String)
  | array (items : List Value)
  | object (members : List (String × Value))
  deriving Repr, Inhabited

mutual

/-- Whether two values are the same, numbers by their text. -/
def Value.beq : Value → Value → Bool
  | .null, .null => true
  | .bool flag, .bool flag' => flag == flag'
  | .number text, .number text' => text == text'
  | .string text, .string text' => text == text'
  | .array items, .array items' => Value.beqItems items items'
  | .object members, .object members' => Value.beqMembers members members'
  | _, _ => false
  termination_by structural value => value

def Value.beqItems : List Value → List Value → Bool
  | [], [] => true
  | item :: items, item' :: items' => item.beq item' && Value.beqItems items items'
  | _, _ => false
  termination_by structural items => items

def Value.beqMembers : List (String × Value) → List (String × Value) → Bool
  | [], [] => true
  | member :: members, member' :: members' =>
      member.1 == member'.1 && member.2.beq member'.2 && Value.beqMembers members members'
  | _, _ => false
  termination_by structural members => members

end

instance : BEq Value := ⟨Value.beq⟩

/-- The members of an object, in the order they are stored. -/
abbrev Members := List (String × Value)

namespace Value

/-- Induction over a value with one hypothesis for each item and each member. -/
theorem induction {motive : Value → Prop} (null : motive .null)
    (bool : ∀ flag, motive (.bool flag)) (number : ∀ text, motive (.number text))
    (string : ∀ text, motive (.string text))
    (array : ∀ items, (∀ item ∈ items, motive item) → motive (.array items))
    (object : ∀ members : Members, (∀ member ∈ members, motive member.2) →
      motive (.object members)) (value : Value) : motive value := by
  refine @Value.rec motive (fun items => ∀ item ∈ items, motive item)
    (fun members => ∀ member ∈ members, motive member.2) (fun member => motive member.2) null bool
    number string array object ?_ ?_ ?_ ?_ ?_ value
  · simp
  · intro head tail head_holds tail_holds item item_mem
    rcases List.mem_cons.mp item_mem with rfl | item_mem
    · exact head_holds
    · exact tail_holds item item_mem
  · simp
  · intro head tail head_holds tail_holds member member_mem
    rcases List.mem_cons.mp member_mem with rfl | member_mem
    · exact head_holds
    · exact tail_holds member member_mem
  · intro key value value_holds
    exact value_holds

theorem eq_of_beqItems {items others : List Value}
    (eq_of_beq : ∀ item ∈ items, ∀ other, item.beq other = true → item = other)
    (same : beqItems items others = true) : items = others := by
  induction items generalizing others with
  | nil =>
      cases others with
      | nil => rfl
      | cons other others => exact absurd same Bool.false_ne_true
  | cons item items ih =>
      cases others with
      | nil => exact absurd same Bool.false_ne_true
      | cons other others =>
          rw [beqItems, Bool.and_eq_true] at same
          rw [eq_of_beq item List.mem_cons_self other same.1,
            ih (fun item item_mem => eq_of_beq item (List.mem_cons_of_mem _ item_mem)) same.2]

theorem eq_of_beqMembers {members others : Members}
    (eq_of_beq : ∀ member ∈ members, ∀ other, member.2.beq other = true → member.2 = other)
    (same : beqMembers members others = true) : members = others := by
  induction members generalizing others with
  | nil =>
      cases others with
      | nil => rfl
      | cons other others => exact absurd same Bool.false_ne_true
  | cons member members ih =>
      cases others with
      | nil => exact absurd same Bool.false_ne_true
      | cons other others =>
          rw [beqMembers, Bool.and_eq_true, Bool.and_eq_true] at same
          obtain ⟨⟨key_same, value_same⟩, rest_same⟩ := same
          have member_eq : member = other :=
            Prod.ext (beq_iff_eq.mp key_same)
              (eq_of_beq member List.mem_cons_self other.2 value_same)
          rw [member_eq,
            ih (fun member member_mem => eq_of_beq member (List.mem_cons_of_mem _ member_mem))
              rest_same]

/-- Values that compare as the same are the same. -/
theorem eq_of_beq {value other : Value} (same : (value == other) = true) : value = other := by
  induction value using induction generalizing other with
  | null =>
      cases other with
      | null => rfl
      | _ => exact absurd same Bool.false_ne_true
  | bool flag =>
      cases other with
      | bool _ => exact congrArg Value.bool (beq_iff_eq.mp same)
      | _ => exact absurd same Bool.false_ne_true
  | number text =>
      cases other with
      | number _ => exact congrArg Value.number (beq_iff_eq.mp same)
      | _ => exact absurd same Bool.false_ne_true
  | string text =>
      cases other with
      | string _ => exact congrArg Value.string (beq_iff_eq.mp same)
      | _ => exact absurd same Bool.false_ne_true
  | array items items_eq =>
      cases other with
      | array others =>
          exact congrArg Value.array
            (eq_of_beqItems (fun item item_mem other => items_eq item item_mem) same)
      | _ => exact absurd same Bool.false_ne_true
  | object members members_eq =>
      cases other with
      | object others =>
          exact congrArg Value.object
            (eq_of_beqMembers (fun member member_mem other => members_eq member member_mem) same)
      | _ => exact absurd same Bool.false_ne_true

theorem beqItems_self {items : List Value} (same : ∀ item ∈ items, item.beq item = true) :
    beqItems items items = true := by
  induction items with
  | nil => rfl
  | cons item items ih =>
      rw [beqItems, same item List.mem_cons_self, Bool.true_and]
      exact ih fun other other_mem => same other (List.mem_cons_of_mem _ other_mem)

theorem beqMembers_self {members : List (String × Value)}
    (same : ∀ member ∈ members, member.2.beq member.2 = true) :
    beqMembers members members = true := by
  induction members with
  | nil => rfl
  | cons member members ih =>
      rw [beqMembers, same member List.mem_cons_self, beq_self_eq_true, Bool.true_and, Bool.true_and]
      exact ih fun other other_mem => same other (List.mem_cons_of_mem _ other_mem)

theorem beq_self (value : Value) : (value == value) = true := by
  induction value using induction with
  | null => rfl
  | bool flag => exact beq_self_eq_true flag
  | number text => exact beq_self_eq_true text
  | string text => exact beq_self_eq_true text
  | array items items_same => exact beqItems_self items_same
  | object members members_same => exact beqMembers_self members_same

/-! ## Objects as maps -/

end Value

namespace Members

/-- Every key stands strictly before the keys after it. -/
def Sorted (members : Members) : Prop :=
  members.Pairwise fun first second => first.1 < second.1

/-- Insert a member at its place, replacing the value of a key that is there. -/
def insert (key : String) (value : Value) : Members → Members
  | [] => [(key, value)]
  | head :: tail =>
      if key < head.1 then (key, value) :: head :: tail
      else if key = head.1 then (key, value) :: tail
      else head :: insert key value tail

/-- The map holding the entries, a later entry replacing an earlier one of its key. -/
def ofEntries (entries : List (String × Value)) : Members :=
  entries.foldl (fun members entry => insert entry.1 entry.2 members) []

/-- The value of the first member that has the key. -/
def lookup (key : String) : Members → Option Value
  | [] => none
  | head :: tail => if key = head.1 then some head.2 else lookup key tail

@[simp]
theorem lookup_nil (key : String) : lookup key [] = none := rfl

@[simp]
theorem lookup_cons (key : String) (head : String × Value) (tail : Members) :
    lookup key (head :: tail) = if key = head.1 then some head.2 else lookup key tail := rfl

theorem mem_of_lookup {members : Members} {key : String} {value : Value}
    (found : lookup key members = some value) : (key, value) ∈ members := by
  induction members with
  | nil => simp at found
  | cons head tail ih =>
      rw [lookup_cons] at found
      split_ifs at found with at_head
      · obtain rfl := Option.some.inj found
        simp [at_head]
      · exact List.mem_cons_of_mem _ (ih found)

@[simp]
theorem lookup_insert (key key' : String) (value : Value) (members : Members) :
    lookup key' (insert key value members) =
      if key' = key then some value else lookup key' members := by
  induction members with
  | nil => simp [insert, lookup]
  | cons head tail ih =>
      unfold insert
      split_ifs <;> simp_all [lookup]

theorem mem_insert {key : String} {value : Value} {members : Members} {member : String × Value}
    (member_mem : member ∈ insert key value members) :
    member = (key, value) ∨ member ∈ members := by
  induction members with
  | nil => simpa [insert] using member_mem
  | cons head tail ih =>
      unfold insert at member_mem
      split_ifs at member_mem with before at_head
      · simpa using member_mem
      · rcases List.mem_cons.mp member_mem with rfl | member_mem
        · exact Or.inl rfl
        · exact Or.inr (List.mem_cons_of_mem _ member_mem)
      · rcases List.mem_cons.mp member_mem with rfl | member_mem
        · exact Or.inr (by simp)
        · rcases ih member_mem with member_eq | member_mem
          · exact Or.inl member_eq
          · exact Or.inr (List.mem_cons_of_mem _ member_mem)

theorem sorted_insert {members : Members} (sorted : Sorted members) (key : String)
    (value : Value) : Sorted (insert key value members) := by
  induction members with
  | nil => simp [insert, Sorted]
  | cons head tail ih =>
      obtain ⟨head_before, tail_sorted⟩ := List.pairwise_cons.mp sorted
      unfold insert
      split_ifs with before at_head
      · refine List.pairwise_cons.mpr ⟨?_, sorted⟩
        intro member member_mem
        rcases List.mem_cons.mp member_mem with rfl | member_mem
        · exact before
        · exact before.trans (head_before member member_mem)
      · refine List.pairwise_cons.mpr ⟨?_, tail_sorted⟩
        intro member member_mem
        rw [at_head]
        exact head_before member member_mem
      · refine List.pairwise_cons.mpr ⟨?_, ih tail_sorted⟩
        intro member member_mem
        rcases mem_insert member_mem with rfl | member_mem
        · exact lt_of_le_of_ne (not_lt.mp before) (Ne.symm at_head)
        · exact head_before member member_mem

theorem sorted_foldl_insert (entries : List (String × Value)) {members : Members}
    (sorted : Sorted members) :
    Sorted (entries.foldl (fun members entry => insert entry.1 entry.2 members) members) := by
  induction entries generalizing members with
  | nil => exact sorted
  | cons entry entries ih => exact ih (sorted_insert sorted entry.1 entry.2)

theorem sorted_ofEntries (entries : List (String × Value)) : Sorted (ofEntries entries) :=
  sorted_foldl_insert entries List.Pairwise.nil

theorem mem_foldl_insert {entries : List (String × Value)} {members : Members}
    {member : String × Value}
    (member_mem : member ∈
      entries.foldl (fun members entry => insert entry.1 entry.2 members) members) :
    member ∈ members ∨ member ∈ entries := by
  induction entries generalizing members with
  | nil => exact Or.inl member_mem
  | cons entry entries ih =>
      rcases ih member_mem with member_mem | member_mem
      · rcases mem_insert member_mem with rfl | member_mem
        · exact Or.inr (by simp)
        · exact Or.inl member_mem
      · exact Or.inr (List.mem_cons_of_mem _ member_mem)

theorem mem_ofEntries {entries : List (String × Value)} {member : String × Value}
    (member_mem : member ∈ ofEntries entries) : member ∈ entries := by
  rcases mem_foldl_insert member_mem with member_mem | member_mem
  · simp at member_mem
  · exact member_mem

@[simp]
theorem lookup_append (key : String) (front back : Members) :
    lookup key (front ++ back) = (lookup key front).or (lookup key back) := by
  induction front with
  | nil => simp
  | cons head tail ih =>
      rw [List.cons_append, lookup_cons, lookup_cons, ih]
      split_ifs <;> simp

theorem lookup_foldl_insert (key : String) (entries : List (String × Value)) (members : Members) :
    lookup key (entries.foldl (fun members entry => insert entry.1 entry.2 members) members) =
      (lookup key entries.reverse).or (lookup key members) := by
  induction entries generalizing members with
  | nil => simp
  | cons entry entries ih =>
      rw [List.foldl_cons, ih, lookup_insert, List.reverse_cons, lookup_append, Option.or_assoc]
      congr 1
      rw [lookup_cons]
      split_ifs <;> simp

/-- The last entry of a key is the one the map holds. -/
@[simp]
theorem lookup_ofEntries (key : String) (entries : List (String × Value)) :
    lookup key (ofEntries entries) = lookup key entries.reverse := by
  rw [ofEntries, lookup_foldl_insert]
  simp

/-- The entry of an optional value: none without it. -/
def optional (key : String) (value : Option Value) : List (String × Value) :=
  (value.map fun value => (key, value)).toList

theorem mem_optional {key : String} {value : Option Value} {entry : String × Value} :
    entry ∈ optional key value ↔ entry.1 = key ∧ value = some entry.2 := by
  cases value with
  | none => simp [optional]
  | some value =>
      simp only [optional, Option.map_some, Option.toList_some, List.mem_singleton,
        Option.some.injEq]
      constructor
      · rintro rfl
        exact ⟨rfl, rfl⟩
      · rintro ⟨key_eq, value_eq⟩
        rw [← key_eq, value_eq]

@[simp]
theorem reverse_optional (key : String) (value : Option Value) :
    (optional key value).reverse = optional key value := by
  cases value <;> rfl

@[simp]
theorem lookup_optional (key key' : String) (value : Option Value) :
    lookup key' (optional key value) = if key' = key then value else none := by
  cases value <;> simp [optional, lookup]

/-- Inserting a fresh key adds one member and removes none. -/
theorem perm_insert {members : Members} {key : String} (fresh : ∀ member ∈ members, member.1 ≠ key)
    (value : Value) : (insert key value members).Perm ((key, value) :: members) := by
  induction members with
  | nil => simp [insert]
  | cons head tail ih =>
      unfold insert
      split_ifs with before at_head
      · exact List.Perm.refl _
      · exact absurd at_head.symm (fresh head (by simp))
      · have tail_perm := ih fun member member_mem => fresh member (List.mem_cons_of_mem _ member_mem)
        exact (tail_perm.cons head).trans (List.Perm.swap _ _ _)

theorem perm_foldl_insert {entries : List (String × Value)} {members : Members}
    (distinct : (entries.map Prod.fst).Nodup)
    (fresh : ∀ entry ∈ entries, ∀ member ∈ members, member.1 ≠ entry.1) :
    (entries.foldl (fun members entry => insert entry.1 entry.2 members) members).Perm
      (entries ++ members) := by
  induction entries generalizing members with
  | nil => exact List.Perm.refl _
  | cons entry entries ih =>
      rw [List.map_cons, List.nodup_cons] at distinct
      obtain ⟨entry_fresh, distinct⟩ := distinct
      have head_perm : (insert entry.1 entry.2 members).Perm (entry :: members) :=
        perm_insert (fresh entry (by simp)) entry.2
      have rest_fresh : ∀ other ∈ entries, ∀ member ∈ insert entry.1 entry.2 members,
          member.1 ≠ other.1 := by
        intro other other_mem member member_mem
        rcases mem_insert member_mem with rfl | member_mem
        · intro key_eq
          exact entry_fresh (List.mem_map.mpr ⟨other, other_mem, key_eq.symm⟩)
        · exact fresh other (List.mem_cons_of_mem _ other_mem) member member_mem
      calc
        _ = entries.foldl (fun members entry => insert entry.1 entry.2 members)
              (insert entry.1 entry.2 members) := rfl
        List.Perm _ (entries ++ insert entry.1 entry.2 members) := ih distinct rest_fresh
        List.Perm _ (entries ++ entry :: members) := head_perm.append_left entries
        List.Perm _ (entry :: entries ++ members) := List.perm_middle

theorem Sorted.nodup_keys {members : Members} (sorted : Sorted members) :
    (members.map Prod.fst).Nodup := by
  refine List.Pairwise.map _ ?_ sorted
  intro first second before
  exact ne_of_lt before

/-- A map is what it holds under each key. -/
theorem Sorted.ext {first second : Members} (first_sorted : Sorted first)
    (second_sorted : Sorted second)
    (same : ∀ key, lookup key first = lookup key second) : first = second := by
  induction first generalizing second with
  | nil =>
      cases second with
      | nil => rfl
      | cons head tail =>
          have missing := same head.1
          simp at missing
  | cons head tail ih =>
      cases second with
      | nil =>
          have missing := same head.1
          simp at missing
      | cons head' tail' =>
          obtain ⟨head_before, tail_sorted⟩ := List.pairwise_cons.mp first_sorted
          obtain ⟨head'_before, tail'_sorted⟩ := List.pairwise_cons.mp second_sorted
          have absent {key : String} {members : Members}
              (after : ∀ member ∈ members, key < member.1) : lookup key members = none := by
            rw [Option.eq_none_iff_forall_ne_some]
            intro value found
            exact lt_irrefl _ (after _ (mem_of_lookup found))
          have heads_eq : head.1 = head'.1 := by
            by_contra differs
            rcases lt_or_gt_of_ne differs with before | before
            · have found := same head.1
              rw [lookup_cons, if_pos rfl, lookup_cons, if_neg differs,
                absent fun member member_mem => before.trans (head'_before member member_mem)] at found
              cases found
            · have found := same head'.1
              rw [lookup_cons, if_neg (Ne.symm differs), lookup_cons, if_pos rfl,
                absent fun member member_mem => before.trans (head_before member member_mem)] at found
              cases found
          have values_eq : head.2 = head'.2 := by
            have found := same head.1
            rw [lookup_cons, if_pos rfl, lookup_cons, if_pos heads_eq] at found
            exact Option.some.inj found
          have tails_eq : tail = tail' := by
            refine ih tail_sorted tail'_sorted fun key => ?_
            by_cases at_head : key = head.1
            · rw [at_head, absent head_before, heads_eq, absent head'_before]
            · have found := same key
              rwa [lookup_cons, if_neg at_head, lookup_cons, if_neg (heads_eq ▸ at_head)] at found
          rw [tails_eq, Prod.ext heads_eq values_eq]

theorem lookup_reverse_set {entries : List (String × Value)} {index : Nat} {key : String}
    (value : Value) (named : (entries.map Prod.fst)[index]? = some key)
    (last : key ∉ (entries.map Prod.fst).drop (index + 1)) (other : String) :
    lookup other (entries.set index (key, value)).reverse =
      if other = key then some value else lookup other entries.reverse := by
  induction entries generalizing index with
  | nil => simp at named
  | cons entry entries ih =>
      cases index with
      | zero =>
          simp only [List.map_cons, List.getElem?_cons_zero, Option.some.injEq] at named
          have absent : lookup key entries.reverse = none := by
            rw [Option.eq_none_iff_forall_ne_some]
            intro found found_eq
            apply last
            simpa using ⟨_, List.mem_reverse.mp (mem_of_lookup found_eq)⟩
          rw [List.set_cons_zero, List.reverse_cons, List.reverse_cons, lookup_append, lookup_append,
            lookup_cons, lookup_cons, named]
          split_ifs with same
          · rw [same, absent]
            rfl
          · rfl
      | succ index =>
          simp only [List.map_cons, List.getElem?_cons_succ, List.drop_succ_cons] at named last
          rw [List.set_cons_succ, List.reverse_cons, List.reverse_cons, lookup_append, lookup_append,
            ih named last]
          split_ifs
          · rfl
          · rfl

/-- Inserting under a key that the entries hold is writing the changed entry in its place. -/
theorem insert_ofEntries {entries : List (String × Value)} (index : Nat) {key : String}
    (value : Value) (named : (entries.map Prod.fst)[index]? = some key)
    (last : key ∉ (entries.map Prod.fst).drop (index + 1)) :
    insert key value (ofEntries entries) = ofEntries (entries.set index (key, value)) := by
  refine Sorted.ext (sorted_insert (sorted_ofEntries entries) key value)
    (sorted_ofEntries _) fun other => ?_
  rw [lookup_insert, lookup_ofEntries, lookup_ofEntries, lookup_reverse_set value named last]

/-- A map is rebuilt from its members taken in any order. -/
theorem ofEntries_eq_of_perm {members entries : Members} (sorted : Sorted members)
    (perm : entries.Perm members) : ofEntries entries = members := by
  have distinct : (entries.map Prod.fst).Nodup :=
    (perm.map Prod.fst).nodup_iff.mpr sorted.nodup_keys
  have rebuilt : (ofEntries entries).Perm members := by
    have folded : (ofEntries entries).Perm (entries ++ []) :=
      perm_foldl_insert distinct (by simp)
    rw [List.append_nil] at folded
    exact folded.trans perm
  refine List.Perm.eq_of_pairwise ?_ (sorted_ofEntries entries) sorted rebuilt
  intro first second _ _ before after
  exact absurd (before.trans after) (lt_irrefl _)

end Members

namespace Value

/-- Every object of the value is a map. -/
inductive WellFormed : Value → Prop
  | null : WellFormed .null
  | bool (flag : Bool) : WellFormed (.bool flag)
  | number (text : String) : WellFormed (.number text)
  | string (text : String) : WellFormed (.string text)
  | array {items : List Value} (items_wellFormed : ∀ item ∈ items, WellFormed item) :
      WellFormed (.array items)
  | object {members : Members} (sorted : Members.Sorted members)
      (members_wellFormed : ∀ member ∈ members, WellFormed member.2) : WellFormed (.object members)

/-- The object holding the entries. -/
def ofEntries (entries : List (String × Value)) : Value :=
  .object (Members.ofEntries entries)

theorem wellFormed_ofEntries {entries : List (String × Value)}
    (entries_wellFormed : ∀ entry ∈ entries, WellFormed entry.2) :
    WellFormed (ofEntries entries) :=
  .object (Members.sorted_ofEntries entries) fun member member_mem =>
    entries_wellFormed member (Members.mem_ofEntries member_mem)

@[simp]
theorem wellFormed_null : WellFormed .null := .null

@[simp]
theorem wellFormed_string (text : String) : WellFormed (.string text) := .string text

@[simp]
theorem wellFormed_number (text : String) : WellFormed (.number text) := .number text

@[simp]
theorem wellFormed_array_iff {items : List Value} :
    WellFormed (.array items) ↔ ∀ item ∈ items, WellFormed item := by
  constructor
  · intro wellFormed
    cases wellFormed with
    | array items_wellFormed => exact items_wellFormed
  · exact .array

/-- The value of a key, when the value is an object that has it. -/
def get? : Value → String → Option Value
  | .object members, key => Members.lookup key members
  | _, _ => none

/-- Replace or add the value of a key of an object. -/
def set : Value → String → Value → Value
  | .object members, key, value => .object (Members.insert key value members)
  | other, _, _ => other

def asStr : Value → Option String
  | .string text => some text
  | _ => none

def asArray : Value → Option (List Value)
  | .array items => some items
  | _ => none

def asObject : Value → Option Members
  | .object members => some members
  | _ => none

@[simp]
theorem get?_object (members : Members) (key : String) :
    (Value.object members).get? key = Members.lookup key members := rfl

@[simp]
theorem get?_ofEntries (entries : List (String × Value)) (key : String) :
    (ofEntries entries).get? key = Members.lookup key (Members.ofEntries entries) := rfl

theorem set_ofEntries {entries : List (String × Value)} (index : Nat) {key : String}
    (value : Value) (named : (entries.map Prod.fst)[index]? = some key)
    (last : key ∉ (entries.map Prod.fst).drop (index + 1)) :
    (ofEntries entries).set key value = ofEntries (entries.set index (key, value)) :=
  congrArg Value.object (Members.insert_ofEntries index value named last)

@[simp]
theorem asStr_string (text : String) : (Value.string text).asStr = some text := rfl

@[simp]
theorem asArray_array (items : List Value) : (Value.array items).asArray = some items := rfl

@[simp]
theorem asObject_object (members : Members) : (Value.object members).asObject = some members := rfl

theorem WellFormed.get? {value item : Value} {key : String} (wellFormed : WellFormed value)
    (found : value.get? key = some item) : WellFormed item := by
  cases wellFormed with
  | object sorted members_wellFormed =>
      exact members_wellFormed (key, item) (Members.mem_of_lookup found)
  | _ => simp [Value.get?] at found

/-! ## Integers -/

/-- The number written by a nonempty run of decimal digits. -/
def readDigits (digits : List Char) : Option Nat :=
  if digits ≠ [] ∧ digits.all Char.isDigit then some (Nat.ofDigitChars 10 digits 0) else none

/-- The integer a text with an optional sign writes. -/
def readInteger (text : String) : Option Int :=
  match text.toList with
  | '-' :: digits => (readDigits digits).map fun n => -(n : Int)
  | '+' :: digits => (readDigits digits).map fun n => (n : Int)
  | digits => (readDigits digits).map fun n => (n : Int)

/-- The number a text without a minus sign writes. -/
def readNatural (text : String) : Option Nat :=
  match text.toList with
  | '+' :: digits => readDigits digits
  | digits => readDigits digits

def readI64 (text : String) : Option Int :=
  (readInteger text).filter fun i => -9223372036854775808 ≤ i ∧ i < 9223372036854775808

def readU64 (text : String) : Option Nat :=
  (readNatural text).filter fun n => n < 2 ^ 64

def asI64 : Value → Option Int
  | .number text => readI64 text
  | _ => none

def asU64 : Value → Option Nat
  | .number text => readU64 text
  | _ => none

/-- The number value of a natural number. -/
def ofNat (n : Nat) : Value :=
  .number n.repr

@[simp]
theorem wellFormed_ofNat (n : Nat) : WellFormed (ofNat n) := .number n.repr

theorem readDigits_toDigits (n : Nat) : readDigits (Nat.toDigits 10 n) = some n := by
  have all_digits : (Nat.toDigits 10 n).all Char.isDigit = true :=
    List.all_eq_true.mpr fun c c_mem => Nat.isDigit_of_mem_toDigits (by decide) (by decide) c_mem
  rw [readDigits, if_pos ⟨Nat.toDigits_ne_nil, all_digits⟩, Nat.ofDigitChars_ten_toDigits]

theorem readInteger_repr (i : Int) : readInteger i.repr = some i := by
  rw [Int.repr_eq_if]
  split_ifs with nonneg
  · unfold readInteger
    split
    · next digits text_eq =>
        have minus_mem : '-' ∈ Nat.toDigits 10 i.toNat := by
          rw [← Nat.toList_repr, text_eq]
          simp
        simpa using Nat.isDigit_of_mem_toDigits (by decide) (by decide) minus_mem
    · next digits text_eq =>
        have plus_mem : '+' ∈ Nat.toDigits 10 i.toNat := by
          rw [← Nat.toList_repr, text_eq]
          simp
        simpa using Nat.isDigit_of_mem_toDigits (by decide) (by decide) plus_mem
    · simp [readDigits_toDigits, nonneg]
  · simp only [readInteger, String.toList_append, Nat.toList_repr]
    simp [readDigits_toDigits]
    omega

theorem readI64_repr {i : Int} (fits : -9223372036854775808 ≤ i ∧ i < 9223372036854775808) : readI64 i.repr = some i := by
  rw [readI64, readInteger_repr, Option.filter_some, if_pos (by simpa using fits)]

theorem readNatural_repr (n : Nat) : readNatural n.repr = some n := by
  unfold readNatural
  split
  · next digits text_eq =>
      have plus_mem : '+' ∈ Nat.toDigits 10 n := by
        rw [← Nat.toList_repr, text_eq]
        simp
      simpa using Nat.isDigit_of_mem_toDigits (by decide) (by decide) plus_mem
  · simp [readDigits_toDigits]

@[simp]
theorem asU64_ofNat {n : Nat} (fits : n < 2 ^ 64) : (ofNat n).asU64 = some n := by
  simp only [ofNat, asU64, readU64, readNatural_repr]
  rw [Option.filter_some, if_pos (by simpa using fits)]

theorem repr_injective : Function.Injective Nat.repr := by
  intro first second repr_eq
  have read_eq := congrArg readNatural repr_eq
  rw [readNatural_repr, readNatural_repr] at read_eq
  exact Option.some.inj read_eq

theorem ofNat_injective : Function.Injective ofNat := by
  intro first second value_eq
  exact repr_injective (Value.number.inj value_eq)

/-! ## Nesting -/

mutual

/-- How many arrays and objects are open around the deepest bracket of the value. -/
def nesting : Value → Nat
  | .array items => nestingItems items + 1
  | .object members => nestingMembers members + 1
  | _ => 0
  termination_by structural value => value

def nestingItems : List Value → Nat
  | [] => 0
  | item :: items => max (nesting item) (nestingItems items)
  termination_by structural items => items

def nestingMembers : List (String × Value) → Nat
  | [] => 0
  | member :: members => max (nesting member.2) (nestingMembers members)
  termination_by structural members => members

end

theorem nestingItems_le_iff {items : List Value} {bound : Nat} :
    nestingItems items ≤ bound ↔ ∀ item ∈ items, nesting item ≤ bound := by
  induction items with
  | nil => simp [nestingItems]
  | cons item items ih => simp [nestingItems, ih]

theorem nestingMembers_le_iff {members : Members} {bound : Nat} :
    nestingMembers members ≤ bound ↔ ∀ member ∈ members, nesting member.2 ≤ bound := by
  induction members with
  | nil => simp [nestingMembers]
  | cons member members ih => simp [nestingMembers, ih]

theorem exists_nesting_of_le_nestingItems {items : List Value} {bound : Nat} (positive : 0 < bound)
    (reaches : bound ≤ nestingItems items) : ∃ item ∈ items, bound ≤ item.nesting := by
  by_contra shallow
  simp only [not_exists, not_and, not_le] at shallow
  have below : nestingItems items ≤ bound - 1 :=
    nestingItems_le_iff.mpr fun item item_mem => Nat.le_sub_one_of_lt (shallow item item_mem)
  omega

theorem exists_nesting_of_le_nestingMembers {members : Members} {bound : Nat}
    (positive : 0 < bound) (reaches : bound ≤ nestingMembers members) :
    ∃ member ∈ members, bound ≤ member.2.nesting := by
  by_contra shallow
  simp only [not_exists, not_and, not_le] at shallow
  have below : nestingMembers members ≤ bound - 1 :=
    nestingMembers_le_iff.mpr fun member member_mem =>
      Nat.le_sub_one_of_lt (shallow member member_mem)
  omega

@[simp]
theorem nesting_string (text : String) : nesting (.string text) = 0 := rfl

@[simp]
theorem nesting_ofNat (n : Nat) : nesting (ofNat n) = 0 := rfl

theorem nesting_array_le {items : List Value} {bound : Nat}
    (items_nesting : ∀ item ∈ items, nesting item ≤ bound) :
    nesting (.array items) ≤ bound + 1 := by
  rw [nesting, Nat.add_le_add_iff_right, nestingItems_le_iff]
  exact items_nesting

theorem nesting_ofEntries_le {entries : List (String × Value)} {bound : Nat}
    (entries_nesting : ∀ entry ∈ entries, nesting entry.2 ≤ bound) :
    nesting (ofEntries entries) ≤ bound + 1 := by
  simp only [ofEntries, nesting, Nat.add_le_add_iff_right, nestingMembers_le_iff]
  intro member member_mem
  exact entries_nesting member (Members.mem_ofEntries member_mem)

end Value

end Json
