import Baley.CanonicalForm
import Baley.Json.Alike
import Mathlib.Algebra.Group.Int.Defs

/-!
# Canonical JSON is a normal form

Values have one canonical text exactly when they are alike, whatever order their objects name their
keys in.  The text is that of the value with its keys in UTF-16 order, reading it gives a value
alike to the one written, and only a number's text can go on to be another's.
-/

namespace Baley

open Json

/-! ## Keys in UTF-16 order -/

/-- The UTF-16 code units of a character. -/
def utf16Units (c : Char) : List Nat :=
  if c.toNat < 0x10000 then [c.toNat]
  else [0xD800 + (c.toNat - 0x10000) / 0x400, 0xDC00 + (c.toNat - 0x10000) % 0x400]

theorem encodeUtf16_eq (string : String) : encodeUtf16 string = string.toList.flatMap utf16Units :=
  rfl

/-- The units of a character are told apart from any other character's, whatever follows. -/
theorem utf16Units_inj {first second : Char} {rest rest' : List Nat}
    (same : utf16Units first ++ rest = utf16Units second ++ rest') :
    first = second ∧ rest = rest' := by
  have first_valid : first.toNat < 0xD800 ∨ 0xDFFF < first.toNat ∧ first.toNat < 0x110000 :=
    first.valid
  have second_valid : second.toNat < 0xD800 ∨ 0xDFFF < second.toNat ∧ second.toNat < 0x110000 :=
    second.valid
  unfold utf16Units at same
  split_ifs at same with narrow narrow' narrow'
  · obtain ⟨unit_eq, rest_eq⟩ := List.cons.inj same
    exact ⟨Char.toNat_inj.mp unit_eq, rest_eq⟩
  · obtain ⟨unit_eq, -⟩ := List.cons.inj same
    omega
  · obtain ⟨unit_eq, -⟩ := List.cons.inj same
    omega
  · obtain ⟨high_eq, low_rest_eq⟩ := List.cons.inj same
    obtain ⟨low_eq, rest_eq⟩ := List.cons.inj low_rest_eq
    exact ⟨Char.toNat_inj.mp (by omega), rest_eq⟩

theorem utf16Units_ne_nil (c : Char) : utf16Units c ≠ [] := by
  unfold utf16Units
  split_ifs <;> exact List.cons_ne_nil _ _

theorem encodeUtf16_injective : Function.Injective encodeUtf16 := by
  have flat (first second : List Char)
      (same : first.flatMap utf16Units = second.flatMap utf16Units) : first = second := by
    induction first generalizing second with
    | nil =>
        cases second with
        | nil => rfl
        | cons c tail =>
            rw [List.flatMap_nil, List.flatMap_cons] at same
            exact absurd (List.append_eq_nil_iff.mp same.symm).1 (utf16Units_ne_nil c)
    | cons c tail ih =>
        cases second with
        | nil =>
            rw [List.flatMap_nil, List.flatMap_cons] at same
            exact absurd (List.append_eq_nil_iff.mp same).1 (utf16Units_ne_nil c)
        | cons c' tail' =>
            rw [List.flatMap_cons, List.flatMap_cons] at same
            obtain ⟨rfl, tail_eq⟩ := utf16Units_inj same
            rw [ih tail' tail_eq]
  intro first second same
  exact String.toList_injective (flat _ _ same)

/-- Sorting forgets the order entries of different keys came in. -/
theorem sortEntries_eq_of_perm {α : Type} {entries others : List (String × α)}
    (named_once : (entries.map Prod.fst).Nodup) (perm : entries.Perm others) :
    sortEntries entries = sortEntries others := by
  refine List.Perm.eq_of_pairwise ?_ (sortEntries_pairwise entries) (sortEntries_pairwise others)
    ((sortEntries_perm entries).trans (perm.trans (sortEntries_perm others).symm))
  intro first second first_mem second_mem before after
  have key_eq : first.1 = second.1 := encodeUtf16_injective (le_antisymm before after)
  have first_held := mem_sortEntries.mp first_mem
  have second_held := perm.mem_iff.mpr (mem_sortEntries.mp second_mem)
  exact List.inj_on_of_nodup_map named_once first_held second_held key_eq

/-- Every object names its keys in strictly increasing order of their UTF-16 code units. -/
inductive KeysIncrease : Value → Prop
  | null : KeysIncrease .null
  | bool (flag : Bool) : KeysIncrease (.bool flag)
  | number (text : String) : KeysIncrease (.number text)
  | string (text : String) : KeysIncrease (.string text)
  | array {items : List Value} (items_increase : ∀ item ∈ items, KeysIncrease item) :
      KeysIncrease (.array items)
  | object {members : Members}
      (increase : members.Pairwise fun first second => encodeUtf16 first.1 < encodeUtf16 second.1)
      (members_increase : ∀ member ∈ members, KeysIncrease member.2) :
      KeysIncrease (.object members)

mutual

/-- The text of a value as it stands: members in their order, numbers by their text. -/
def plainText : Value → Text
  | .null => ['n', 'u', 'l', 'l']
  | .bool true => ['t', 'r', 'u', 'e']
  | .bool false => ['f', 'a', 'l', 's', 'e']
  | .number text => text.toList
  | .string string => writeString string
  | .array items => '[' :: (joined (plainItems items) ++ [']'])
  | .object members => '{' :: (joined (plainMembers members) ++ ['}'])
  termination_by structural value => value

def plainItems : List Value → List Text
  | [] => []
  | item :: items => plainText item :: plainItems items
  termination_by structural items => items

def plainMembers : List (String × Value) → List Text
  | [] => []
  | member :: members =>
      (writeString member.1 ++ ':' :: plainText member.2) :: plainMembers members
  termination_by structural members => members

end

mutual

/-- The value with its keys in UTF-16 order and its numbers rewritten. -/
def arranged : Value → Value
  | .null => .null
  | .bool flag => .bool flag
  | .number text => .number ((safeInteger text).getD 0).repr
  | .string text => .string text
  | .array items => .array (arrangedItems items)
  | .object members => .object (sortEntries (arrangedMembers members))
  termination_by structural value => value

def arrangedItems : List Value → List Value
  | [] => []
  | item :: items => arranged item :: arrangedItems items
  termination_by structural items => items

def arrangedMembers : List (String × Value) → List (String × Value)
  | [] => []
  | member :: members => (member.1, arranged member.2) :: arrangedMembers members
  termination_by structural members => members

end

theorem plainItems_eq_map (items : List Value) : plainItems items = items.map plainText := by
  induction items with
  | nil => rfl
  | cons item items ih => rw [plainItems, ih, List.map_cons]

theorem plainMembers_eq_map (members : Members) :
    plainMembers members =
      members.map fun member => writeString member.1 ++ ':' :: plainText member.2 := by
  induction members with
  | nil => rfl
  | cons member members ih => rw [plainMembers, ih, List.map_cons]

theorem arrangedItems_eq_map (items : List Value) : arrangedItems items = items.map arranged := by
  induction items with
  | nil => rfl
  | cons item items ih => rw [arrangedItems, ih, List.map_cons]

theorem arrangedMembers_eq_map (members : Members) :
    arrangedMembers members = members.map fun member => (member.1, arranged member.2) := by
  induction members with
  | nil => rfl
  | cons member members ih => rw [arrangedMembers, ih, List.map_cons]

/-- The canonical text is the text of the arranged value as it stands. -/
theorem plainText_arranged (value : Value) : plainText (arranged value) = compact value := by
  induction value using Value.induction with
  | null => rfl
  | bool flag => cases flag <;> rfl
  | number text => rfl
  | string text => rfl
  | array items ih =>
      rw [arranged, plainText, compact, arrangedItems_eq_map, plainItems_eq_map,
        compactItems_eq_map, List.map_map]
      congr 2
      exact congrArg joined (List.map_congr_left ih)
  | object members ih =>
      rw [arranged, plainText, compact, arrangedMembers_eq_map, plainMembers_eq_map,
        compactMembers_eq_map, sortEntries_map, sortEntries_map, List.map_map, List.map_map]
      congr 3
      refine List.map_congr_left fun member member_mem => ?_
      rw [Function.comp_apply, Function.comp_apply, ih member (mem_sortEntries.mp member_mem)]

/-- An arranged object has the keys it had. -/
theorem perm_arrangedMembers (members : Members) :
    ((sortEntries (arrangedMembers members)).map Prod.fst).Perm (members.map Prod.fst) := by
  refine ((sortEntries_perm _).map Prod.fst).trans ?_
  rw [arrangedMembers_eq_map, List.map_map]
  exact List.Perm.refl _

theorem keysIncrease_arranged {value : Value} (json : IsJson value) :
    KeysIncrease (arranged value) := by
  induction value using Value.induction with
  | null => exact .null
  | bool flag => exact .bool flag
  | number text => exact .number _
  | string text => exact .string text
  | array items ih =>
      cases json with
      | array items_json =>
          rw [arranged, arrangedItems_eq_map]
          refine .array fun item item_mem => ?_
          obtain ⟨source, source_mem, rfl⟩ := List.mem_map.mp item_mem
          exact ih source source_mem (items_json source source_mem)
  | object members ih =>
      cases json with
      | object named_once members_json =>
          rw [arranged]
          refine .object ?_ fun member member_mem => ?_
          · have distinct := (perm_arrangedMembers members).nodup_iff.mpr named_once
            refine ((sortEntries_pairwise (arrangedMembers members)).and
              (List.pairwise_map.mp distinct)).imp ?_
            rintro first second ⟨before, differ⟩
            exact lt_of_le_of_ne before fun same => differ (encodeUtf16_injective same)
          · rw [mem_sortEntries, arrangedMembers_eq_map] at member_mem
            obtain ⟨source, source_mem, rfl⟩ := List.mem_map.mp member_mem
            exact ih source source_mem (members_json source source_mem)

/-! ## The normal form -/

mutual

/-- The value with every object a map and its numbers rewritten. -/
def normalForm : Value → Value
  | .null => .null
  | .bool flag => .bool flag
  | .number text => .number ((safeInteger text).getD 0).repr
  | .string text => .string text
  | .array items => .array (normalItems items)
  | .object members => .ofEntries (normalMembers members)
  termination_by structural value => value

def normalItems : List Value → List Value
  | [] => []
  | item :: items => normalForm item :: normalItems items
  termination_by structural items => items

def normalMembers : List (String × Value) → List (String × Value)
  | [] => []
  | member :: members => (member.1, normalForm member.2) :: normalMembers members
  termination_by structural members => members

end

theorem normalItems_eq_map (items : List Value) : normalItems items = items.map normalForm := by
  induction items with
  | nil => rfl
  | cons item items ih => rw [normalItems, ih, List.map_cons]

theorem normalMembers_eq_map (members : Members) :
    normalMembers members = members.map fun member => (member.1, normalForm member.2) := by
  induction members with
  | nil => rfl
  | cons member members ih => rw [normalMembers, ih, List.map_cons]

theorem normalMembers_keys (members : Members) :
    (normalMembers members).map Prod.fst = members.map Prod.fst := by
  rw [normalMembers_eq_map, List.map_map]
  rfl

theorem wellFormed_normalForm (value : Value) : (normalForm value).WellFormed := by
  induction value using Value.induction with
  | null => exact .null
  | bool flag => exact .bool flag
  | number text => exact .number _
  | string text => exact .string text
  | array items ih =>
      rw [normalForm, normalItems_eq_map]
      refine .array fun item item_mem => ?_
      obtain ⟨source, source_mem, rfl⟩ := List.mem_map.mp item_mem
      exact ih source source_mem
  | object members ih =>
      rw [normalForm, normalMembers_eq_map]
      refine Value.wellFormed_ofEntries fun entry entry_mem => ?_
      obtain ⟨source, source_mem, rfl⟩ := List.mem_map.mp entry_mem
      exact ih source source_mem

theorem safeInteger_form {text : String} (inDomain : InDomain (.number text)) :
    safeInteger ((safeInteger text).getD 0).repr = some ((safeInteger text).getD 0) := by
  cases inDomain with
  | number safe =>
      rw [safe, Option.getD_some]
      exact safeInteger_repr (safeInteger_bounds safe)

theorem inDomain_normalForm {value : Value} (inDomain : InDomain value) :
    InDomain (normalForm value) := by
  induction value using Value.induction with
  | null => exact .null
  | bool flag => exact .bool flag
  | number text => exact .number (safeInteger_form inDomain)
  | string text => exact .string text
  | array items ih =>
      cases inDomain with
      | array items_inDomain =>
          rw [normalForm, normalItems_eq_map]
          refine .array fun item item_mem => ?_
          obtain ⟨source, source_mem, rfl⟩ := List.mem_map.mp item_mem
          exact ih source source_mem (items_inDomain source source_mem)
  | object members ih =>
      cases inDomain with
      | object members_inDomain =>
          rw [normalForm, normalMembers_eq_map]
          refine .ofEntries fun entry entry_mem => ?_
          obtain ⟨source, source_mem, rfl⟩ := List.mem_map.mp entry_mem
          exact ih source source_mem (members_inDomain source source_mem)

theorem canonicalForm_normalForm {value : Value} (inDomain : InDomain value) :
    canonicalForm (normalForm value) = normalForm value := by
  induction value using Value.induction with
  | null => rfl
  | bool flag => rfl
  | number text =>
      rw [normalForm, canonicalForm, safeInteger_form inDomain, Option.getD_some]
  | string text => rfl
  | array items ih =>
      cases inDomain with
      | array items_inDomain =>
          rw [normalForm, canonicalForm, normalItems_eq_map, canonicalItems_eq_map, List.map_map]
          refine congrArg Value.array (List.map_congr_left fun item item_mem => ?_)
          exact ih item item_mem (items_inDomain item item_mem)
  | object members ih =>
      cases inDomain with
      | object members_inDomain =>
          rw [normalForm, canonicalForm_ofEntries, normalMembers_eq_map, List.map_map]
          refine congrArg Value.ofEntries (List.map_congr_left fun member member_mem => ?_)
          rw [Function.comp_apply, ih member member_mem (members_inDomain member member_mem)]

/-- Bringing a value to its normal form leaves its canonical text. -/
theorem compact_normalForm {value : Value} (json : IsJson value) (inDomain : InDomain value) :
    compact (normalForm value) = compact value := by
  induction value using Value.induction with
  | null => rfl
  | bool flag => rfl
  | number text => rw [normalForm, compact, compact, safeInteger_form inDomain, Option.getD_some]
  | string text => rfl
  | array items ih =>
      cases json with | array items_json =>
      cases inDomain with | array items_inDomain =>
      rw [normalForm, compact, compact, normalItems_eq_map, compactItems_eq_map,
        compactItems_eq_map, List.map_map]
      congr 2
      refine congrArg joined (List.map_congr_left fun item item_mem => ?_)
      exact ih item item_mem (items_json item item_mem) (items_inDomain item item_mem)
  | object members ih =>
      cases json with | object named_once members_json =>
      cases inDomain with | object members_inDomain =>
      have entries_once : ((normalMembers members).map Prod.fst).Nodup := by
        rw [normalMembers_keys]
        exact named_once
      have entries_perm : (compactMembers (Members.ofEntries (normalMembers members))).Perm
          (compactMembers members) := by
        have kept : compactMembers (normalMembers members) = compactMembers members := by
          rw [normalMembers_eq_map, compactMembers_eq_map, compactMembers_eq_map, List.map_map]
          refine List.map_congr_left fun member member_mem => ?_
          rw [Function.comp_apply, ih member member_mem (members_json member member_mem)
            (members_inDomain member member_mem)]
        rw [← kept, compactMembers_eq_map, compactMembers_eq_map]
        exact (Members.perm_ofEntries entries_once).map _
      have written_once :
          ((compactMembers (Members.ofEntries (normalMembers members))).map Prod.fst).Nodup := by
        rw [compactMembers_eq_map, List.map_map]
        exact (Members.sorted_ofEntries _).nodup_keys
      rw [normalForm, Value.ofEntries, compact, compact,
        sortEntries_eq_of_perm written_once entries_perm]

theorem nesting_normalForm (value : Value) : (normalForm value).nesting ≤ value.nesting := by
  induction value using Value.induction with
  | null | bool | number | string => exact le_rfl
  | array items ih =>
      rw [normalForm, normalItems_eq_map]
      refine Value.nesting_array_le fun item item_mem => ?_
      obtain ⟨source, source_mem, rfl⟩ := List.mem_map.mp item_mem
      exact (ih source source_mem).trans (Value.nestingItems_le_iff.mp le_rfl source source_mem)
  | object members ih =>
      rw [normalForm, normalMembers_eq_map]
      refine Value.nesting_ofEntries_le fun entry entry_mem => ?_
      obtain ⟨source, source_mem, rfl⟩ := List.mem_map.mp entry_mem
      exact (ih source source_mem).trans (Value.nestingMembers_le_iff.mp le_rfl source source_mem)

/-- Reading the canonical text gives the normal form. -/
theorem reads_normalForm {value : Value} (json : IsJson value) (inDomain : InDomain value)
    {limit : Nat} (nests : value.nesting < limit) :
    Reads (readValue limit) (compact value) (normalForm value) := by
  have reads := reads_compact (wellFormed_normalForm value) (inDomain_normalForm inDomain)
    ((nesting_normalForm value).trans_lt nests)
  rwa [compact_normalForm json inDomain, canonicalForm_normalForm inDomain] at reads

/-! ## Alike values have one normal form -/

theorem readInteger_of_safeInteger {text : String} {integer : Int}
    (safe : safeInteger text = some integer) : Value.readInteger text = some integer :=
  (Option.filter_eq_some_iff.mp (Option.filter_eq_some_iff.mp safe).1).1

theorem safeInteger_zeroToken {text : String} (zero : ZeroToken text) :
    safeInteger text = some 0 := by
  rcases zero with rfl | rfl <;> rfl

theorem alike_number_iff {text text' : String} (token : NumberToken text)
    (token' : NumberToken text') (inDomain : InDomain (.number text))
    (inDomain' : InDomain (.number text')) :
    Alike (.number text) (.number text') ↔
      normalForm (.number text) = normalForm (.number text') := by
  cases inDomain with | @number _ integer safe =>
  cases inDomain' with | @number _ integer' safe' =>
  simp only [Alike, normalForm, safe, safe', Option.getD_some, Value.number.injEq]
  constructor
  · rintro (rfl | ⟨zero, zero'⟩)
    · rw [Option.some.inj (safe.symm.trans safe')]
    · rw [Option.some.inj (safe.symm.trans (safeInteger_zeroToken zero)),
        Option.some.inj (safe'.symm.trans (safeInteger_zeroToken zero'))]
  · intro same
    obtain rfl := repr_int_injective same
    rcases token.eq_repr (readInteger_of_safeInteger safe) with rfl | ⟨rfl, rfl⟩ <;>
      rcases token'.eq_repr (readInteger_of_safeInteger safe') with rfl | ⟨rfl, zero_eq⟩
    · exact Or.inl rfl
    · subst zero_eq
      exact Or.inr ⟨Or.inl rfl, Or.inr rfl⟩
    · exact Or.inr ⟨Or.inr rfl, Or.inl rfl⟩
    · exact Or.inl rfl

theorem ofEntries_normalMembers_eq_iff {members members' : Members}
    (named_once : (members.map Prod.fst).Nodup) (named_once' : (members'.map Prod.fst).Nodup) :
    Value.ofEntries (normalMembers members) = Value.ofEntries (normalMembers members') ↔
      members.length = members'.length ∧ ∀ member ∈ members, ∃ value,
        (member.1, value) ∈ members' ∧ normalForm member.2 = normalForm value := by
  have held {members : Members} (named_once : (members.map Prod.fst).Nodup) (key : String) :
      Members.lookup key (Members.ofEntries (normalMembers members)) =
        (Members.lookup key members).map normalForm := by
    have entries_once : ((normalMembers members).map Prod.fst).Nodup := by
      rw [normalMembers_keys]
      exact named_once
    rw [Members.lookup_ofEntries, Members.lookup_reverse entries_once, normalMembers_eq_map,
      Members.lookup_map]
  rw [← Members.lookup_map_eq_iff named_once named_once' normalForm]
  constructor
  · intro same key
    rw [← held named_once, ← held named_once', Value.object.inj same]
  · intro same
    refine congrArg Value.object (Members.Sorted.ext (Members.sorted_ofEntries _)
      (Members.sorted_ofEntries _) fun key => ?_)
    rw [held named_once, held named_once', same key]

/-- Values are alike exactly when they have the same normal form. -/
theorem alike_iff {value other : Value} (json : IsJson value) (other_json : IsJson other)
    (inDomain : InDomain value) (other_inDomain : InDomain other) :
    Alike value other ↔ normalForm value = normalForm other := by
  induction value using Value.induction generalizing other with
  | null => cases other <;> simp [Alike, normalForm, Value.ofEntries]
  | bool flag => cases other <;> simp [Alike, normalForm, Value.ofEntries]
  | string text => cases other <;> simp [Alike, normalForm, Value.ofEntries]
  | number text =>
      cases other with
      | number text' =>
          cases json with | number token =>
          cases other_json with | number token' =>
          exact alike_number_iff token token' inDomain other_inDomain
      | _ => simp [Alike, normalForm, Value.ofEntries]
  | array items ih =>
      cases other with
      | array items' =>
          cases json with | array items_json =>
          cases other_json with | array items'_json =>
          cases inDomain with | array items_inDomain =>
          cases other_inDomain with | array items'_inDomain =>
          simp only [Alike, normalForm, Value.array.injEq]
          rw [alikeItems_iff, normalItems_eq_map, normalItems_eq_map]
          exact forall₂_iff_map_eq fun item item_mem item' item'_mem =>
            ih item item_mem (items_json item item_mem) (items'_json item' item'_mem)
              (items_inDomain item item_mem) (items'_inDomain item' item'_mem)
      | _ => simp [Alike, normalForm, Value.ofEntries]
  | object members ih =>
      cases other with
      | object members' =>
          cases json with | object named_once members_json =>
          cases other_json with | object named_once' members'_json =>
          cases inDomain with | object members_inDomain =>
          cases other_inDomain with | object members'_inDomain =>
          simp only [Alike, normalForm]
          rw [ofEntries_normalMembers_eq_iff named_once named_once', alikeMembers_iff]
          refine and_congr_right fun _ => forall₂_congr fun member member_mem => ?_
          refine exists_congr fun value => and_congr_right fun value_mem => ?_
          exact ih member member_mem (members_json member member_mem) (members'_json _ value_mem)
            (members_inDomain member member_mem) (members'_inDomain _ value_mem)
      | _ => simp [Alike, normalForm, Value.ofEntries]

/-! ## The numbers that have a canonical form -/

/-- An integer token within ±(2^53 − 1); zero may carry a sign. -/
def SafeToken (text : String) : Prop :=
  ∃ integer : Int, -(2 ^ 53 - 1) ≤ integer ∧ integer ≤ 2 ^ 53 - 1 ∧
    (text = integer.repr ∨ text = "-0" ∧ integer = 0)

theorem safeToken_iff {text : String} (token : NumberToken text) :
    SafeToken text ↔ InDomain (.number text) := by
  constructor
  · rintro ⟨integer, low, high, rfl | ⟨rfl, rfl⟩⟩
    · have safe : safeInteger integer.repr = some integer :=
        safeInteger_repr ⟨by simpa [maxSafeInteger] using low, by simpa [maxSafeInteger] using high⟩
      exact .number safe
    · exact .number (safeInteger_zeroToken (Or.inr rfl))
  · intro inDomain
    cases inDomain with
    | @number _ integer safe =>
        obtain ⟨low, high⟩ := safeInteger_bounds safe
        refine ⟨integer, by simpa [maxSafeInteger] using low,
          by simpa [maxSafeInteger] using high, ?_⟩
        exact token.eq_repr (readInteger_of_safeInteger safe)

theorem everyNumber_iff {value : Value} (json : IsJson value) :
    EveryNumber SafeToken value ↔ InDomain value := by
  induction value using Value.induction with
  | null => exact ⟨fun _ => .null, fun _ => .null⟩
  | bool flag => exact ⟨fun _ => .bool flag, fun _ => .bool flag⟩
  | string text => exact ⟨fun _ => .string text, fun _ => .string text⟩
  | number text =>
      cases json with | number token =>
      refine ⟨fun every => ?_, fun inDomain => .number ((safeToken_iff token).mpr inDomain)⟩
      cases every with
      | number held => exact (safeToken_iff token).mp held
  | array items ih =>
      cases json with | array items_json =>
      constructor
      · rintro (_ | _ | _ | _ | ⟨items_hold⟩ | _)
        exact .array fun item item_mem =>
          (ih item item_mem (items_json item item_mem)).mp (items_hold item item_mem)
      · rintro (_ | _ | _ | _ | ⟨items_inDomain⟩ | _)
        exact .array fun item item_mem =>
          (ih item item_mem (items_json item item_mem)).mpr (items_inDomain item item_mem)
  | object members ih =>
      cases json with | object _ members_json =>
      constructor
      · rintro (_ | _ | _ | _ | _ | ⟨members_hold⟩)
        exact .object fun member member_mem =>
          (ih member member_mem (members_json member member_mem)).mp
            (members_hold member member_mem)
      · rintro (_ | _ | _ | _ | _ | ⟨members_inDomain⟩)
        exact .object fun member member_mem =>
          (ih member member_mem (members_json member member_mem)).mpr
            (members_inDomain member member_mem)

/-! ## The values the text stands for -/

theorem numberToken_repr (integer : Int) : NumberToken integer.repr := by
  have reads := readNumber_int integer numberEnds_nil
  rwa [List.append_nil] at reads

theorem isJson_normalForm {value : Value} (json : IsJson value) : IsJson (normalForm value) := by
  induction value using Value.induction with
  | null => exact .null
  | bool flag => exact .bool flag
  | number text => exact .number (numberToken_repr _)
  | string text => exact .string text
  | array items ih =>
      cases json with
      | array items_json =>
          rw [normalForm, normalItems_eq_map]
          refine .array fun item item_mem => ?_
          obtain ⟨source, source_mem, rfl⟩ := List.mem_map.mp item_mem
          exact ih source source_mem (items_json source source_mem)
  | object members ih =>
      cases json with
      | object named_once members_json =>
          rw [normalForm]
          refine .object (Members.sorted_ofEntries _).nodup_keys fun member member_mem => ?_
          have entry_mem := Members.mem_ofEntries member_mem
          rw [normalMembers_eq_map] at entry_mem
          obtain ⟨source, source_mem, rfl⟩ := List.mem_map.mp entry_mem
          exact ih source source_mem (members_json source source_mem)

theorem isJson_arranged {value : Value} (json : IsJson value) : IsJson (arranged value) := by
  induction value using Value.induction with
  | null => exact .null
  | bool flag => exact .bool flag
  | number text => exact .number (numberToken_repr _)
  | string text => exact .string text
  | array items ih =>
      cases json with
      | array items_json =>
          rw [arranged, arrangedItems_eq_map]
          refine .array fun item item_mem => ?_
          obtain ⟨source, source_mem, rfl⟩ := List.mem_map.mp item_mem
          exact ih source source_mem (items_json source source_mem)
  | object members ih =>
      cases json with
      | object named_once members_json =>
          rw [arranged]
          refine .object ((perm_arrangedMembers members).nodup_iff.mpr named_once)
            fun member member_mem => ?_
          rw [mem_sortEntries, arrangedMembers_eq_map] at member_mem
          obtain ⟨source, source_mem, rfl⟩ := List.mem_map.mp member_mem
          exact ih source source_mem (members_json source source_mem)

theorem inDomain_arranged {value : Value} (inDomain : InDomain value) :
    InDomain (arranged value) := by
  induction value using Value.induction with
  | null => exact .null
  | bool flag => exact .bool flag
  | number text => exact .number (safeInteger_form inDomain)
  | string text => exact .string text
  | array items ih =>
      cases inDomain with
      | array items_inDomain =>
          rw [arranged, arrangedItems_eq_map]
          refine .array fun item item_mem => ?_
          obtain ⟨source, source_mem, rfl⟩ := List.mem_map.mp item_mem
          exact ih source source_mem (items_inDomain source source_mem)
  | object members ih =>
      cases inDomain with
      | object members_inDomain =>
          rw [arranged]
          refine .object fun member member_mem => ?_
          rw [mem_sortEntries, arrangedMembers_eq_map] at member_mem
          obtain ⟨source, source_mem, rfl⟩ := List.mem_map.mp member_mem
          exact ih source source_mem (members_inDomain source source_mem)

/-- Arranging a value leaves its canonical text. -/
theorem compact_arranged {value : Value} (json : IsJson value) (inDomain : InDomain value) :
    compact (arranged value) = compact value := by
  induction value using Value.induction with
  | null => rfl
  | bool flag => rfl
  | number text => rw [arranged, compact, compact, safeInteger_form inDomain, Option.getD_some]
  | string text => rfl
  | array items ih =>
      cases json with | array items_json =>
      cases inDomain with | array items_inDomain =>
      rw [arranged, compact, compact, arrangedItems_eq_map, compactItems_eq_map,
        compactItems_eq_map, List.map_map]
      congr 2
      refine congrArg joined (List.map_congr_left fun item item_mem => ?_)
      exact ih item item_mem (items_json item item_mem) (items_inDomain item item_mem)
  | object members ih =>
      cases json with | object named_once members_json =>
      cases inDomain with | object members_inDomain =>
      have kept : compactMembers (arrangedMembers members) = compactMembers members := by
        rw [arrangedMembers_eq_map, compactMembers_eq_map, compactMembers_eq_map, List.map_map]
        refine List.map_congr_left fun member member_mem => ?_
        rw [Function.comp_apply, ih member member_mem (members_json member member_mem)
          (members_inDomain member member_mem)]
      have entries_perm : (compactMembers (sortEntries (arrangedMembers members))).Perm
          (compactMembers members) := by
        rw [← kept, compactMembers_eq_map, compactMembers_eq_map]
        exact (sortEntries_perm _).map _
      have written_once :
          ((compactMembers (sortEntries (arrangedMembers members))).map Prod.fst).Nodup := by
        rw [compactMembers_eq_map, List.map_map]
        exact (perm_arrangedMembers members).nodup_iff.mpr named_once
      rw [arranged, compact, compact, sortEntries_eq_of_perm written_once entries_perm]

/-- Values of one canonical text are alike. -/
theorem alike_iff_compact_eq {value other : Value} (json : IsJson value)
    (other_json : IsJson other) (inDomain : InDomain value) (other_inDomain : InDomain other) :
    Alike value other ↔ compact value = compact other := by
  rw [alike_iff json other_json inDomain other_inDomain]
  constructor
  · intro same
    rw [← compact_normalForm json inDomain, same, compact_normalForm other_json other_inDomain]
  · intro same
    have reads := reads_normalForm json inDomain
      (Nat.lt_succ_of_le (le_max_left value.nesting other.nesting)) []
      (endsBefore_of_numberEnds numberEnds_nil)
    have other_reads := reads_normalForm other_json other_inDomain
      (Nat.lt_succ_of_le (le_max_right value.nesting other.nesting)) []
      (endsBefore_of_numberEnds numberEnds_nil)
    rw [same, other_reads] at reads
    exact (Prod.mk.inj (Option.some.inj reads)).1.symm

/-! ## Texts that start other texts -/

theorem head_ne_of_not_number {value : Value} (not_number : ∀ text, value ≠ .number text) {c : Char}
    {tail : Text} (text_eq : compact value = c :: tail) : c.isDigit = false ∧ c ≠ '-' := by
  cases value with
  | number text => exact absurd rfl (not_number text)
  | bool flag =>
      cases flag <;>
      · obtain ⟨rfl, -⟩ := List.cons.inj text_eq
        decide
  | null | string | array | object =>
      obtain ⟨rfl, -⟩ := List.cons.inj text_eq
      decide

/-- A canonical text that starts another is the whole of it, or both are numbers. -/
theorem eq_or_number_of_prefix {value other : Value} (json : IsJson value)
    (other_json : IsJson other) (inDomain : InDomain value) (other_inDomain : InDomain other)
    (starts : compact value <+: compact other) :
    compact value = compact other ∨
      (∃ text, value = .number text) ∧ ∃ text, other = .number text := by
  obtain ⟨rest, other_eq⟩ := starts
  by_cases is_number : ∃ text, value = .number text
  · right
    refine ⟨is_number, ?_⟩
    obtain ⟨text, rfl⟩ := is_number
    by_contra not_number
    obtain ⟨c, tail, text_eq, head⟩ := repr_int_eq_cons ((safeInteger text).getD 0)
    have other_head : compact other = c :: (tail ++ rest) := by
      rw [← other_eq, compact, text_eq, List.cons_append]
    obtain ⟨not_digit, not_minus⟩ :=
      head_ne_of_not_number (fun text same => not_number ⟨text, same⟩) other_head
    rcases head with digit | minus
    · rw [not_digit] at digit
      cases digit
    · exact not_minus minus
  · left
    have ends : EndsBefore (normalForm value) rest := by
      cases value with
      | number text => exact absurd ⟨text, rfl⟩ is_number
      | _ => trivial
    have reads := reads_normalForm json inDomain
      (Nat.lt_succ_of_le (le_max_left value.nesting other.nesting)) rest ends
    have other_reads := reads_normalForm other_json other_inDomain
      (Nat.lt_succ_of_le (le_max_right value.nesting other.nesting)) []
      (endsBefore_of_numberEnds numberEnds_nil)
    rw [List.append_nil, ← other_eq, reads] at other_reads
    rw [(Prod.mk.inj (Option.some.inj other_reads)).2, List.append_nil] at other_eq
    exact other_eq

/-! ## Canonical JSON -/

/-- Canonical JSON is written exactly for values whose numbers are safe integer tokens.  Its bytes
read back to a value alike to the one written, they name keys in increasing UTF-16 order, they are
the same for exactly the values that are alike, and they start no other value's bytes but a number's
those of a number. -/
theorem canonicalJson_faithful {value other : Value} (json : IsJson value)
    (other_json : IsJson other) :
    ((∃ bytes, canonicalJson value = .ok bytes) ↔ EveryNumber SafeToken value) ∧
      ∀ bytes, canonicalJson value = .ok bytes →
        (∃ text : String, bytes = utf8 text.toList ∧ ∀ limit, value.nesting < limit →
          ∃ back, readDocument limit text = some back ∧ Alike value back) ∧
        (∃ ordered, bytes = utf8 (plainText ordered) ∧ KeysIncrease ordered ∧
          Alike value ordered) ∧
        ∀ bytes', canonicalJson other = .ok bytes' →
          (bytes = bytes' ↔ Alike value other) ∧
            (bytes <+: bytes' → bytes ≠ bytes' →
              (∃ text, value = .number text) ∧ ∃ text, other = .number text) := by
  refine ⟨?_, fun bytes written => ⟨?_, ?_, fun bytes' other_written => ⟨?_, ?_⟩⟩⟩
  · rw [everyNumber_iff json]
    exact ⟨fun ⟨bytes, written⟩ => (canonicalJson_eq_ok_iff.mp written).1,
      fun inDomain => ⟨_, canonicalJson_eq_ok_iff.mpr ⟨inDomain, rfl⟩⟩⟩
  · obtain ⟨inDomain, rfl⟩ := canonicalJson_eq_ok_iff.mp written
    refine ⟨String.ofList (compact value), by rw [String.toList_ofList], fun limit nests => ?_⟩
    refine ⟨normalForm value, ?_, ?_⟩
    · have reads := reads_normalForm json inDomain nests []
        (endsBefore_of_numberEnds numberEnds_nil)
      rw [List.append_nil] at reads
      rw [readDocument, String.toList_ofList, reads]
      rfl
    · exact (alike_iff_compact_eq json (isJson_normalForm json) inDomain
        (inDomain_normalForm inDomain)).mpr (compact_normalForm json inDomain).symm
  · obtain ⟨inDomain, rfl⟩ := canonicalJson_eq_ok_iff.mp written
    refine ⟨arranged value, by rw [plainText_arranged], keysIncrease_arranged json, ?_⟩
    exact (alike_iff_compact_eq json (isJson_arranged json) inDomain
      (inDomain_arranged inDomain)).mpr (compact_arranged json inDomain).symm
  · obtain ⟨inDomain, rfl⟩ := canonicalJson_eq_ok_iff.mp written
    obtain ⟨other_inDomain, rfl⟩ := canonicalJson_eq_ok_iff.mp other_written
    rw [alike_iff_compact_eq json other_json inDomain other_inDomain]
    exact utf8_injective.eq_iff
  · obtain ⟨inDomain, rfl⟩ := canonicalJson_eq_ok_iff.mp written
    obtain ⟨other_inDomain, rfl⟩ := canonicalJson_eq_ok_iff.mp other_written
    intro starts differ
    rcases eq_or_number_of_prefix json other_json inDomain other_inDomain
        (prefix_of_utf8 starts) with same | numbers
    · exact absurd (congrArg utf8 same) differ
    · exact numbers

theorem isJson_zeros : IsJson (.array [.number "0", .number "-0"]) := by
  refine .array fun item item_mem => ?_
  simp only [List.mem_cons, List.not_mem_nil, or_false] at item_mem
  rcases item_mem with rfl | rfl
  · exact .number rfl
  · exact .number rfl

/-- Zeros of either sign are written alike. -/
theorem canonicalJson_faithful_zeros :
    canonicalJson (.array [.number "0", .number "-0"]) = .ok (utf8 ['[', '0', ',', '0', ']']) ∧
      KeysIncrease (arranged (.array [.number "0", .number "-0"])) ∧
      Alike (.array [.number "0", .number "-0"]) (.array [.number "0", .number "-0"]) := by
  have written : canonicalJson (.array [.number "0", .number "-0"]) =
      .ok (utf8 ['[', '0', ',', '0', ']']) := rfl
  have faithful := (canonicalJson_faithful isJson_zeros isJson_zeros).2 _ written
  exact ⟨written, keysIncrease_arranged isJson_zeros, (faithful.2.2 _ written).1.mp rfl⟩

end Baley
