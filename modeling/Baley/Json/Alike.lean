import Mathlib.Data.List.Induction
import Mathlib.Data.List.Nodup
import Mathlib.Data.List.TakeWhile
import Baley.Json.Compact

/-!
# Values up to the order of keys and the spelling of zero

A JSON value as text spells it: every number is a number token and no object names a key twice.
Two such values are alike when they differ at most in the order their objects name their keys in
and in whether a zero carries a sign.
-/

namespace Json

/-- The text is a whole number token. -/
def NumberToken (text : String) : Prop :=
  readNumber text.toList = some (text, [])

/-- The two spellings of the integer zero. -/
def ZeroToken (text : String) : Prop :=
  text = "0" ∨ text = "-0"

/-- Every number is a number token and every object names its keys once, in any order. -/
inductive IsJson : Value → Prop
  | null : IsJson .null
  | bool (flag : Bool) : IsJson (.bool flag)
  | number {text : String} (token : NumberToken text) : IsJson (.number text)
  | string (text : String) : IsJson (.string text)
  | array {items : List Value} (items_json : ∀ item ∈ items, IsJson item) : IsJson (.array items)
  | object {members : Members} (named_once : (members.map Prod.fst).Nodup)
      (members_json : ∀ member ∈ members, IsJson member.2) : IsJson (.object members)

/-- Every number of the value, at any depth, is spelled by a text that satisfies the predicate. -/
inductive EveryNumber (holds : String → Prop) : Value → Prop
  | null : EveryNumber holds .null
  | bool (flag : Bool) : EveryNumber holds (.bool flag)
  | number {text : String} (held : holds text) : EveryNumber holds (.number text)
  | string (text : String) : EveryNumber holds (.string text)
  | array {items : List Value} (items_hold : ∀ item ∈ items, EveryNumber holds item) :
      EveryNumber holds (.array items)
  | object {members : Members} (members_hold : ∀ member ∈ members, EveryNumber holds member.2) :
      EveryNumber holds (.object members)

mutual

/-- Equal up to the order of keys and the spelling of zero. -/
def Alike : Value → Value → Prop
  | .null, .null => True
  | .bool flag, .bool flag' => flag = flag'
  | .number text, .number text' => text = text' ∨ ZeroToken text ∧ ZeroToken text'
  | .string text, .string text' => text = text'
  | .array items, .array items' => AlikeItems items items'
  | .object members, .object members' =>
      members.length = members'.length ∧ AlikeMembers members members'
  | _, _ => False
  termination_by structural value => value

def AlikeItems : List Value → List Value → Prop
  | [], [] => True
  | item :: items, item' :: items' => Alike item item' ∧ AlikeItems items items'
  | _, _ => False
  termination_by structural items => items

/-- Each member has one of its key that is alike. -/
def AlikeMembers : List (String × Value) → List (String × Value) → Prop
  | [], _ => True
  | member :: members, members' =>
      (∃ value, (member.1, value) ∈ members' ∧ Alike member.2 value) ∧
        AlikeMembers members members'
  termination_by structural members => members

end

theorem alikeItems_iff {items items' : List Value} :
    AlikeItems items items' ↔ List.Forall₂ Alike items items' := by
  induction items generalizing items' with
  | nil => cases items' <;> simp [AlikeItems]
  | cons item items ih => cases items' <;> simp [AlikeItems, ih]

theorem alikeMembers_iff {members members' : Members} :
    AlikeMembers members members' ↔
      ∀ member ∈ members, ∃ value, (member.1, value) ∈ members' ∧ Alike member.2 value := by
  induction members with
  | nil => simp [AlikeMembers]
  | cons member members ih => simp [AlikeMembers, ih]

/-- A relation that compares what a function makes of the items compares the lists made. -/
theorem forall₂_iff_map_eq {related : Value → Value → Prop} {change : Value → Value}
    {items items' : List Value}
    (related_iff : ∀ item ∈ items, ∀ item' ∈ items',
      related item item' ↔ change item = change item') :
    List.Forall₂ related items items' ↔ items.map change = items'.map change := by
  induction items generalizing items' with
  | nil => cases items' <;> simp
  | cons item items ih =>
      cases items' with
      | nil => simp
      | cons item' items' =>
          rw [List.forall₂_cons, List.map_cons, List.map_cons, List.cons.injEq,
            related_iff item List.mem_cons_self item' List.mem_cons_self,
            ih fun item item_mem item' item'_mem =>
              related_iff item (List.mem_cons_of_mem _ item_mem) item'
                (List.mem_cons_of_mem _ item'_mem)]

/-! ## Objects that name a key once -/

namespace Members

variable {members members' : Members}

theorem lookup_eq_some_iff (named_once : (members.map Prod.fst).Nodup) {key : String}
    {value : Value} : lookup key members = some value ↔ (key, value) ∈ members := by
  refine ⟨mem_of_lookup, fun member_mem => ?_⟩
  induction members with
  | nil => simp at member_mem
  | cons head tail ih =>
      rw [List.map_cons, List.nodup_cons] at named_once
      rw [lookup_cons]
      rcases List.mem_cons.mp member_mem with rfl | member_mem
      · rw [if_pos rfl]
      · have other : key ≠ head.1 := by
          rintro rfl
          exact named_once.1 (List.mem_map.mpr ⟨_, member_mem, rfl⟩)
        rw [if_neg other]
        exact ih named_once.2 member_mem

theorem lookup_eq_none_iff {key : String} :
    lookup key members = none ↔ key ∉ members.map Prod.fst := by
  induction members with
  | nil => simp
  | cons head tail ih =>
      rw [lookup_cons, List.map_cons, List.mem_cons, not_or]
      split_ifs with at_head
      · simp [at_head]
      · simp [at_head, ih]

theorem lookup_reverse (named_once : (members.map Prod.fst).Nodup) (key : String) :
    lookup key members.reverse = lookup key members := by
  have reverse_once : (members.reverse.map Prod.fst).Nodup := by
    rw [List.map_reverse]
    exact List.nodup_reverse.mpr named_once
  apply Option.ext
  intro value
  rw [lookup_eq_some_iff reverse_once, lookup_eq_some_iff named_once, List.mem_reverse]

theorem lookup_map (change : Value → Value) (key : String) :
    lookup key (members.map fun member => (member.1, change member.2)) =
      (lookup key members).map change := by
  induction members with
  | nil => rfl
  | cons head tail ih =>
      rw [List.map_cons, lookup_cons, lookup_cons, ih]
      split_ifs <;> rfl

/-- Two objects hold the same values under the same keys when they are of one length and each member
of the first has its like in the second. -/
theorem lookup_map_eq_iff (named_once : (members.map Prod.fst).Nodup)
    (named_once' : (members'.map Prod.fst).Nodup) (change : Value → Value) :
    (∀ key, (lookup key members).map change = (lookup key members').map change) ↔
      members.length = members'.length ∧
        ∀ member ∈ members, ∃ value, (member.1, value) ∈ members' ∧
          change member.2 = change value := by
  constructor
  · intro same
    have keys_iff (key : String) : key ∈ members.map Prod.fst ↔ key ∈ members'.map Prod.fst := by
      rw [← not_iff_not, ← lookup_eq_none_iff, ← lookup_eq_none_iff, ← Option.map_eq_none_iff,
        same key, Option.map_eq_none_iff]
    have keys_perm := (List.perm_ext_iff_of_nodup named_once named_once').mpr keys_iff
    refine ⟨by simpa using keys_perm.length_eq, fun member member_mem => ?_⟩
    have found := same member.1
    rw [(lookup_eq_some_iff named_once).mpr member_mem, Option.map_some] at found
    obtain ⟨value, value_found, change_eq⟩ := Option.map_eq_some_iff.mp found.symm
    exact ⟨value, mem_of_lookup value_found, change_eq.symm⟩
  · rintro ⟨length_eq, held⟩ key
    have keys_subset : members.map Prod.fst ⊆ members'.map Prod.fst := by
      intro key key_mem
      obtain ⟨member, member_mem, rfl⟩ := List.mem_map.mp key_mem
      obtain ⟨value, value_mem, _⟩ := held member member_mem
      exact List.mem_map.mpr ⟨_, value_mem, rfl⟩
    have keys_perm : (members.map Prod.fst).Perm (members'.map Prod.fst) :=
      (List.subperm_of_subset named_once keys_subset).perm_of_length_le (by simp [length_eq])
    cases found : lookup key members with
    | none =>
        have absent : key ∉ members'.map Prod.fst := by
          rw [← keys_perm.mem_iff]
          exact lookup_eq_none_iff.mp found
        rw [lookup_eq_none_iff.mpr absent]
    | some value =>
        obtain ⟨value', value'_mem, change_eq⟩ := held _ (mem_of_lookup found)
        rw [(lookup_eq_some_iff named_once').mpr value'_mem, Option.map_some, Option.map_some,
          change_eq]

theorem perm_ofEntries (named_once : (members.map Prod.fst).Nodup) :
    (ofEntries members).Perm members := by
  have folded : (ofEntries members).Perm (members ++ []) :=
    perm_foldl_insert named_once (by simp)
  rwa [List.append_nil] at folded

end Members

/-! ## Integer tokens -/

theorem repr_int_injective : Function.Injective Int.repr := by
  intro first second same
  have read_eq := congrArg Value.readInteger same
  rw [Value.readInteger_repr, Value.readInteger_repr] at read_eq
  exact Option.some.inj read_eq

theorem digitChar_of_isDigit {c : Char} (digit : c.isDigit = true) :
    c.toNat - 48 < 10 ∧ (c.toNat - 48).digitChar = c := by
  simp only [Char.isDigit, Bool.and_eq_true, decide_eq_true_eq, UInt32.le_iff_toNat_le] at digit
  have bounds : 48 ≤ c.toNat ∧ c.toNat ≤ 57 := digit
  have below : c.toNat - 48 < 10 := by omega
  refine ⟨below, Char.toNat_inj.mp ?_⟩
  rw [Nat.toNat_digitChar_of_lt_ten below]
  omega

/-- Digits without a leading zero are the digits of the number they write. -/
theorem toDigits_ofDigitChars {digits : List Char} (digits_ne : digits ≠ [])
    (all_digits : ∀ c ∈ digits, c.isDigit = true)
    (no_zero : digits.head? = some '0' → digits = ['0']) :
    Nat.toDigits 10 (Nat.ofDigitChars 10 digits 0) = digits := by
  induction digits using List.reverseRecOn with
  | nil => exact absurd rfl digits_ne
  | append_singleton front last ih =>
      obtain ⟨last_lt, last_eq⟩ := digitChar_of_isDigit (all_digits last (by simp))
      have value_eq : Nat.ofDigitChars 10 (front ++ [last]) 0 =
          10 * Nat.ofDigitChars 10 front 0 + (last.toNat - 48) := by
        rw [Nat.ofDigitChars_append, Nat.ofDigitChars_cons, Nat.ofDigitChars_nil]
        rfl
      rcases eq_or_ne front [] with rfl | front_ne
      · rw [value_eq, Nat.ofDigitChars_nil, Nat.mul_zero, Nat.zero_add,
          Nat.toDigits_of_lt_base last_lt, last_eq, List.nil_append]
      · have head_ne : front.head? ≠ some '0' := by
          intro head_eq
          have whole := no_zero (by rw [List.head?_append, head_eq]; rfl)
          have lengths := congrArg List.length whole
          have front_pos := List.length_pos_iff.mpr front_ne
          simp only [List.length_append, List.length_singleton] at lengths
          omega
        have front_eq := ih front_ne (fun c c_mem => all_digits c (by simp [c_mem]))
          fun head_eq => absurd head_eq head_ne
        have positive : 0 < Nat.ofDigitChars 10 front 0 := by
          rw [Nat.pos_iff_ne_zero]
          intro zero
          rw [zero, Nat.toDigits_zero] at front_eq
          rw [← front_eq] at head_ne
          exact head_ne rfl
        rw [value_eq, ← Nat.toDigits_append_toDigits (by decide) positive last_lt, front_eq,
          Nat.toDigits_of_lt_base last_lt, last_eq]

theorem readWhole_digits {digits whole rest : Text} (all_digits : ∀ c ∈ digits, c.isDigit = true)
    (reads : readWhole digits = some (whole, rest)) :
    digits ≠ [] ∧ (digits.head? = some '0' → digits = ['0']) := by
  cases digits with
  | nil => cases reads
  | cons c tail =>
      refine ⟨List.cons_ne_nil c tail, fun head_eq => ?_⟩
      obtain rfl := Option.some.inj head_eq
      have tail_digits : tail.takeWhile Char.isDigit = tail :=
        List.takeWhile_eq_self_iff.mpr fun d d_mem => all_digits d (List.mem_cons_of_mem _ d_mem)
      simp only [readWhole, tail_digits] at reads
      split_ifs at reads with tail_empty
      rw [List.isEmpty_iff.mp tail_empty]

theorem all_digits_of_readDigits {digits : List Char} {n : Nat}
    (reads : Value.readDigits digits = some n) :
    (∀ c ∈ digits, c.isDigit = true) ∧ n = Nat.ofDigitChars 10 digits 0 := by
  unfold Value.readDigits at reads
  split_ifs at reads with digital
  exact ⟨List.all_eq_true.mp digital.2, (Option.some.inj reads).symm⟩

theorem toDigits_of_reads {digits whole rest : Text} {n : Nat}
    (whole_reads : readWhole digits = some (whole, rest))
    (reads : Value.readDigits digits = some n) : Nat.toDigits 10 n = digits := by
  obtain ⟨all_digits, rfl⟩ := all_digits_of_readDigits reads
  obtain ⟨digits_ne, no_zero⟩ := readWhole_digits all_digits whole_reads
  exact toDigits_ofDigitChars digits_ne all_digits no_zero

/-- A number token that reads as an integer is how the integer is written, or zero with a sign. -/
theorem NumberToken.eq_repr {text : String} (token : NumberToken text) {integer : Int}
    (reads : Value.readInteger text = some integer) :
    text = integer.repr ∨ text = "-0" ∧ integer = 0 := by
  unfold Value.readInteger at reads
  split at reads
  · next digits text_eq =>
      obtain ⟨_, n_reads, rfl⟩ := Option.map_eq_some_iff.mp reads
      obtain ⟨n, n_read, n_eq⟩ := Option.bind_eq_some_iff.mp n_reads
      obtain rfl := Option.some.inj n_eq
      simp only [NumberToken, readNumber, text_eq, readMinus] at token
      obtain ⟨⟨whole, rest⟩, whole_reads, _⟩ := Option.bind_eq_some_iff.mp token
      have digits_eq := toDigits_of_reads whole_reads n_read
      rcases Nat.eq_zero_or_pos n with rfl | positive
      · refine Or.inr ⟨String.toList_injective ?_, by simp⟩
        rw [text_eq, ← digits_eq]
        rfl
      · refine Or.inl (String.toList_injective ?_)
        rw [toList_repr_int, if_neg (by omega), text_eq, ← digits_eq, Nat.toList_repr]
        simp
  · next digits text_eq =>
      simp only [NumberToken, readNumber, text_eq, readMinus] at token
      obtain ⟨⟨whole, rest⟩, whole_reads, _⟩ := Option.bind_eq_some_iff.mp token
      simp [readWhole] at whole_reads
  · next no_minus no_plus =>
      obtain ⟨_, n_reads, rfl⟩ := Option.map_eq_some_iff.mp reads
      obtain ⟨n, n_read, n_eq⟩ := Option.bind_eq_some_iff.mp n_reads
      obtain rfl := Option.some.inj n_eq
      have minus_eq : readMinus text.toList = ([], text.toList) := by
        unfold readMinus
        split
        · next rest text_eq => exact absurd text_eq (no_minus rest)
        · rfl
      simp only [NumberToken, readNumber, minus_eq] at token
      obtain ⟨⟨whole, rest⟩, whole_reads, _⟩ := Option.bind_eq_some_iff.mp token
      have digits_eq := toDigits_of_reads whole_reads n_read
      refine Or.inl (String.toList_injective ?_)
      rw [toList_repr_int, if_pos (by omega), Nat.toList_repr, Int.toNat_natCast, digits_eq]

end Json
