import Baley.Json.Alike
import Baley.Canonical

/-!
# Objects that keep their members in order

An object lists its members in the order they came, each name once.  A member that is written anew keeps
its place, a new one goes last, and two values are the same whatever the order of their members.  Objects
within objects are a tree, and a list of names leads down it to at most one part.
-/

namespace Json

namespace Members

/-- Write a member: in its place, or last. -/
def put (name : String) (value : Value) : Members → Members
  | [] => [(name, value)]
  | member :: members =>
      if member.1 = name then (name, value) :: members else member :: put name value members

variable {members : Members} {name : String} {value : Value}

theorem lookup_put (other : String) :
    (put name value members).lookup other = if other = name then some value else members.lookup other := by
  induction members with
  | nil => rw [put, lookup_cons]
  | cons member members ih =>
      rw [put]
      split_ifs with at_name is_name is_name
      · rw [is_name, lookup_cons, if_pos rfl]
      · rw [lookup_cons, lookup_cons, if_neg is_name, at_name, if_neg is_name]
      · rw [lookup_cons, ih, if_pos is_name, if_neg]
        rw [is_name]
        exact fun same => at_name same.symm
      · rw [lookup_cons, lookup_cons, ih, if_neg is_name]

/-- The names of the members, in order. -/
def names (members : Members) : List String := members.map Prod.fst

theorem names_put_of_mem (held : name ∈ members.names) : (put name value members).names = members.names := by
  induction members with
  | nil => cases held
  | cons member members ih =>
      rw [put]
      split_ifs with at_name
      · rw [names, names, List.map_cons, List.map_cons, at_name]
      · have held_rest : name ∈ names members := (List.mem_cons.mp held).resolve_left fun same => at_name same.symm
        have rest := ih held_rest
        rw [names, names] at rest ⊢
        rw [List.map_cons, List.map_cons, rest]

theorem names_put_of_notMem (absent : name ∉ members.names) :
    (put name value members).names = members.names ++ [name] := by
  induction members with
  | nil => rfl
  | cons member members ih =>
      rw [names, List.map_cons, List.mem_cons, not_or] at absent
      have rest := ih absent.2
      rw [put, if_neg fun same => absent.1 same.symm]
      rw [names, names] at rest ⊢
      rw [List.map_cons, List.map_cons, rest, List.cons_append]

/-- Writing what a member already holds changes nothing. -/
theorem put_of_lookup (held : members.lookup name = some value) : put name value members = members := by
  induction members with
  | nil => cases held
  | cons member members ih =>
      rw [lookup_cons] at held
      rw [put]
      split_ifs with at_name
      · rw [if_pos at_name.symm] at held
        rw [← at_name, ← Option.some.inj held]
      · rw [if_neg fun same => at_name same.symm] at held
        rw [ih held]

end Members

/-! ## Equality whatever the order -/

mutual

/-- Whether two values are equal, objects whatever the order of their members. -/
def Value.same : Value → Value → Bool
  | .null, .null => true
  | .bool flag, .bool flag' => flag == flag'
  | .number text, .number text' => text == text'
  | .string text, .string text' => text == text'
  | .array items, .array items' => Value.sameItems items items'
  | .object members, .object members' =>
      members.length == members'.length && Value.sameMembers members members'
  | _, _ => false
  termination_by structural value => value

def Value.sameItems : List Value → List Value → Bool
  | [], [] => true
  | item :: items, item' :: items' => item.same item' && Value.sameItems items items'
  | _, _ => false
  termination_by structural items => items

def Value.sameMembers : List (String × Value) → List (String × Value) → Bool
  | [], _ => true
  | member :: members, members' =>
      (match Members.lookup member.1 members' with
        | some value => member.2.same value
        | none => false) && Value.sameMembers members members'
  termination_by structural members => members

end

namespace Value

theorem same_bool_iff {value : Value} {flag : Bool} : value.same (.bool flag) = true ↔ value = .bool flag := by
  cases value <;> simp [same]

theorem same_string_iff {value : Value} {text : String} : value.same (.string text) = true ↔ value = .string text := by
  cases value <;> simp [same]

theorem same_number_iff {value : Value} {text : String} : value.same (.number text) = true ↔ value = .number text := by
  cases value <;> simp [same]

/-- A value the same as a list of one item is a list of one, the same as it. -/
theorem same_single {value item : Value} (alike : value.same (.array [item]) = true) :
    ∃ held, value = .array [held] ∧ held.same item = true := by
  cases value with
  | array items =>
      rw [same] at alike
      cases items with
      | nil => simp [sameItems] at alike
      | cons held rest =>
          cases rest with
          | nil =>
              rw [sameItems, sameItems, Bool.and_true] at alike
              exact ⟨held, rfl, alike⟩
          | cons _ _ => simp [sameItems] at alike
  | _ => simp [same] at alike

theorem lookup_of_sameMembers {members members' : Members} (alike : sameMembers members members' = true)
    {member : String × Value} (member_mem : member ∈ members) :
    ∃ held, members'.lookup member.1 = some held ∧ member.2.same held = true := by
  induction members with
  | nil => cases member_mem
  | cons head members ih =>
      rw [sameMembers, Bool.and_eq_true] at alike
      rcases List.mem_cons.mp member_mem with rfl | member_mem
      · cases found : Members.lookup member.1 members' with
        | none => simp [found] at alike
        | some held =>
            rw [found] at alike
            exact ⟨held, rfl, alike.1⟩
      · exact ih alike.2 member_mem

theorem sameItems_self {items : List Value} (each : ∀ item ∈ items, item.same item = true) :
    sameItems items items = true := by
  induction items with
  | nil => rfl
  | cons item items ih =>
      rw [List.forall_mem_cons] at each
      rw [sameItems, each.1, ih each.2, Bool.and_self]

theorem sameMembers_of_lookup {members members' : Members}
    (each : ∀ member ∈ members, members'.lookup member.1 = some member.2 ∧ member.2.same member.2 = true) :
    sameMembers members members' = true := by
  induction members with
  | nil => rfl
  | cons member members ih =>
      rw [List.forall_mem_cons] at each
      rw [sameMembers, each.1.1, ih each.2]
      simp [each.1.2]

/-- A value whose objects name each member once is the same as itself. -/
theorem same_self {value : Value} (json : IsJson value) : value.same value = true := by
  induction json with
  | null => rfl
  | bool flag => simp [same]
  | number token => simp [same]
  | string text => simp [same]
  | array _ ih =>
      rw [same]
      exact sameItems_self ih
  | object named_once _ ih =>
      rw [same, Bool.and_eq_true, beq_self_eq_true]
      refine ⟨rfl, sameMembers_of_lookup fun member member_mem => ⟨?_, ih member member_mem⟩⟩
      exact (Members.lookup_eq_some_iff named_once).mpr member_mem

/-- A value the same as an object is an object of the same names, and each name holds the same. -/
theorem same_object {value : Value} {members : Members} (json : IsJson value)
    (alike : value.same (.object members) = true) :
    ∃ members', value = .object members' ∧ (Members.names members').Perm (Members.names members) ∧
      ∀ name held, members.lookup name = some held →
        ∃ held', Members.lookup name members' = some held' ∧ held'.same held = true := by
  cases json with
  | @object members' named_once' _ =>
      rw [same, Bool.and_eq_true, beq_iff_eq] at alike
      have subset : Members.names members' ⊆ Members.names members := by
        intro name name_mem
        obtain ⟨member, member_mem, rfl⟩ := List.mem_map.mp name_mem
        obtain ⟨held, found, -⟩ := lookup_of_sameMembers alike.2 member_mem
        exact List.mem_map.mpr ⟨_, Members.mem_of_lookup found, rfl⟩
      have perm : (Members.names members').Perm (Members.names members) := by
        refine (List.subperm_of_subset named_once' subset).perm_of_length_le ?_
        exact (List.length_map _).trans_le (alike.1.symm.trans (List.length_map _).symm).le
      refine ⟨members', rfl, perm, fun name held found => ?_⟩
      have name_mem := perm.mem_iff.mpr (List.mem_map.mpr ⟨_, Members.mem_of_lookup found, rfl⟩)
      obtain ⟨member, member_mem, rfl⟩ := List.mem_map.mp name_mem
      obtain ⟨held', found', same_held⟩ := lookup_of_sameMembers alike.2 member_mem
      rw [found] at found'
      refine ⟨member.2, (Members.lookup_eq_some_iff named_once').mpr member_mem, ?_⟩
      rw [Option.some.inj found']
      exact same_held
  | _ => simp [same] at alike

end Value

/-! ## The part under some names -/

namespace Value

/-- The part under some names, each of a member of the one before. -/
def under : List String → Value → Option Value
  | [], value => some value
  | name :: names, value => (value.get? name).bind (under names)

/-- Change the part under some names; nothing where there is none. -/
def alterUnder (change : Value → Value) : List String → Value → Value
  | [], value => change value
  | name :: names, .object members =>
      match Members.lookup name members with
      | some held => .object (Members.put name (alterUnder change names held) members)
      | none => .object members
  | _, value => value

/-- Neither list of names leads through the other's end. -/
def Apart (names other : List String) : Prop := ¬names <+: other ∧ ¬other <+: names

theorem Apart.symm {names other : List String} (apart : Apart names other) : Apart other names :=
  And.symm apart

theorem apart_cons {name name' : String} {names other : List String} :
    Apart (name :: names) (name' :: other) ↔ name = name' → Apart names other := by
  by_cases same : name = name'
  · simp [Apart, List.cons_prefix_cons, same]
  · have other_way : ¬name' = name := fun eq => same eq.symm
    simp [Apart, List.cons_prefix_cons, same, other_way]

variable {value : Value} {change : Value → Value}

theorem under_append (names other : List String) :
    value.under (names ++ other) = (value.under names).bind (under other) := by
  induction names generalizing value with
  | nil => rfl
  | cons name names ih =>
      rw [List.cons_append, under, under, Option.bind_assoc]
      exact congrArg _ (funext fun held => ih)

/-- Changing the part under a name changes that member of an object and keeps its names. -/
theorem alterUnder_object (change : Value → Value) (name : String) (names : List String) (members : Members) :
    ∃ members' : Members, alterUnder change (name :: names) (.object members) = .object members' ∧
      Members.names members' = Members.names members ∧
      ∀ other, Members.lookup other members' =
        if other = name then (Members.lookup name members).map (alterUnder change names)
        else Members.lookup other members := by
  rw [alterUnder]
  cases found : Members.lookup name members with
  | none =>
      refine ⟨members, rfl, rfl, fun other => ?_⟩
      split_ifs with same
      · rw [same, found, Option.map_none]
      · rfl
  | some held =>
      have mem : name ∈ Members.names members := List.mem_map.mpr ⟨_, Members.mem_of_lookup found, rfl⟩
      exact ⟨_, rfl, Members.names_put_of_mem mem, fun other => by rw [Members.lookup_put, Option.map_some]⟩

theorem get?_alterUnder (name other : String) (names : List String) :
    (alterUnder change (name :: names) value).get? other =
      if other = name then (value.get? name).map (alterUnder change names) else value.get? other := by
  cases value with
  | object members =>
      obtain ⟨members', altered, -, lookup⟩ := alterUnder_object change name names members
      rw [altered, get?_object, get?_object, get?_object, lookup]
  | _ => simp [alterUnder, get?]

/-- What the change leads to holds the changed part. -/
theorem under_alterUnder (names : List String) :
    (alterUnder change names value).under names = (value.under names).map change := by
  induction names generalizing value with
  | nil => rfl
  | cons name names ih =>
      rw [under, under, get?_alterUnder, if_pos rfl]
      cases value.get? name with
      | none => rfl
      | some held => exact ih

/-- A part above the changed one changes below. -/
theorem under_alterUnder_append (names rest : List String) :
    (alterUnder change (names ++ rest) value).under names = (value.under names).map (alterUnder change rest) := by
  induction names generalizing value with
  | nil => rfl
  | cons name names ih =>
      rw [List.cons_append, under, under, get?_alterUnder, if_pos rfl]
      cases value.get? name with
      | none => rfl
      | some held => exact ih

theorem under_alterUnder_of_apart {names other : List String} (apart : Apart names other) :
    (alterUnder change names value).under other = value.under other := by
  induction names generalizing value other with
  | nil => exact absurd List.nil_prefix apart.1
  | cons name names ih =>
      cases other with
      | nil => exact absurd List.nil_prefix apart.2
      | cons name' other =>
          rw [under, under, get?_alterUnder]
          split_ifs with same
          · rw [same]
            cases value.get? name with
            | none => rfl
            | some held => exact ih (apart_cons.mp apart same.symm)
          · rfl

/-- A change that fixes the part changes nothing. -/
theorem alterUnder_eq_self {names : List String}
    (fixed : ∀ held, value.under names = some held → change held = held) :
    alterUnder change names value = value := by
  induction names generalizing value with
  | nil => exact fixed value rfl
  | cons name names ih =>
      cases value with
      | object members =>
          rw [alterUnder]
          cases found : Members.lookup name members with
          | none => rfl
          | some held =>
              have kept : alterUnder change names held = held :=
                ih fun part part_eq => fixed part (by rw [under, get?_object, found]; exact part_eq)
              dsimp only
              rw [kept, Members.put_of_lookup found]
      | _ => rfl

end Value

/-! ## Values whose objects name a member once -/

theorem IsJson.get? {value held : Value} {name : String} (json : IsJson value)
    (found : value.get? name = some held) : IsJson held := by
  cases json with
  | object _ members_json => exact members_json _ (Members.mem_of_lookup found)
  | _ => cases found

theorem IsJson.under {value held : Value} {names : List String} (json : IsJson value)
    (found : value.under names = some held) : IsJson held := by
  induction names generalizing value with
  | nil => exact Option.some.inj found ▸ json
  | cons name names ih =>
      rw [Value.under, Option.bind_eq_some_iff] at found
      obtain ⟨part, part_eq, found⟩ := found
      exact ih (json.get? part_eq) found

theorem isJson_put {members : Members} {name : String} {value : Value} (json : IsJson (.object members))
    (value_json : IsJson value) : IsJson (.object (Members.put name value members)) := by
  obtain ⟨named_once, members_json⟩ : (Members.names members).Nodup ∧ ∀ member ∈ members, IsJson member.2 := by
    cases json with
    | object named_once members_json => exact ⟨named_once, members_json⟩
  have put_once : (Members.names (Members.put name value members)).Nodup := by
    by_cases held : name ∈ Members.names members
    · rwa [Members.names_put_of_mem held]
    · rw [Members.names_put_of_notMem held]
      exact List.nodup_append.mpr ⟨named_once, by simp, fun _ => by grind⟩
  refine .object put_once fun member member_mem => ?_
  have found := (Members.lookup_eq_some_iff put_once).mpr member_mem
  rw [Members.lookup_put] at found
  split_ifs at found with at_name
  · exact Option.some.inj found ▸ value_json
  · exact members_json _ (Members.mem_of_lookup found)

theorem isJson_alterUnder {value : Value} {change : Value → Value} {names : List String}
    (json : IsJson value) (change_json : ∀ held, IsJson held → IsJson (change held)) :
    IsJson (Value.alterUnder change names value) := by
  induction names generalizing value with
  | nil => exact change_json _ json
  | cons name names ih =>
      cases value with
      | object members =>
          rw [Value.alterUnder]
          cases found : Members.lookup name members with
          | none => exact json
          | some held =>
              exact isJson_put json (ih (json.get? (by rw [Value.get?_object, found])))
      | _ => exact json

/-! ## Text -/

open Baley

mutual

/-- The text of a value on one line. -/
def lineText : Value → Text
  | .null => ['n', 'u', 'l', 'l']
  | .bool true => ['t', 'r', 'u', 'e']
  | .bool false => ['f', 'a', 'l', 's', 'e']
  | .number text => text.toList
  | .string string => writeString string
  | .array items => '[' :: (joined (lineItems items) ++ [']'])
  | .object members => '{' :: (joined (lineMembers members) ++ ['}'])
  termination_by structural value => value

def lineItems : List Value → List Text
  | [] => []
  | item :: items => lineText item :: lineItems items
  termination_by structural items => items

def lineMembers : List (String × Value) → List Text
  | [] => []
  | member :: members => (writeString member.1 ++ ':' :: lineText member.2) :: lineMembers members
  termination_by structural members => members

end

/-- A new line, indented. -/
def newLine (depth : Nat) : Text := '\n' :: List.replicate (2 * depth) ' '

/-- Pieces between two brackets, each on a line of its own. -/
def bracketed (depth : Nat) (opening closing : Char) (pieces : List Text) : Text :=
  opening :: (joined (pieces.map (newLine (depth + 1) ++ ·)) ++
    (if pieces = [] then [] else newLine depth) ++ [closing])

mutual

/-- The text of a value over several lines, at a depth. -/
def prettyText (depth : Nat) : Value → Text
  | .array items => bracketed depth '[' ']' (prettyItems (depth + 1) items)
  | .object members => bracketed depth '{' '}' (prettyMembers (depth + 1) members)
  | value => lineText value
  termination_by structural value => value

def prettyItems (depth : Nat) : List Value → List Text
  | [] => []
  | item :: items => prettyText depth item :: prettyItems depth items
  termination_by structural items => items

def prettyMembers (depth : Nat) : List (String × Value) → List Text
  | [] => []
  | member :: members =>
      (writeString member.1 ++ ':' :: ' ' :: prettyText depth member.2) :: prettyMembers depth members
  termination_by structural members => members

end

end Json
