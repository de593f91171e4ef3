import Baley.Canonical

/-!
# Reading canonical text back

Reading the canonical text of a value gives the value with its numbers rewritten.  That rewriting is
the canonical form; it has the same canonical text, so a value that went through storage hashes as
it did before.
-/

namespace Baley

open Json

mutual

/-- The value that reading the canonical text gives. -/
def canonicalForm : Value → Value
  | .null => .null
  | .bool flag => .bool flag
  | .number text => .number ((safeInteger text).getD 0).repr
  | .string text => .string text
  | .array items => .array (canonicalItems items)
  | .object members => .object (canonicalMembers members)
  termination_by structural value => value

def canonicalItems : List Value → List Value
  | [] => []
  | item :: items => canonicalForm item :: canonicalItems items
  termination_by structural items => items

def canonicalMembers : List (String × Value) → List (String × Value)
  | [] => []
  | member :: members => (member.1, canonicalForm member.2) :: canonicalMembers members
  termination_by structural members => members

end

theorem canonicalItems_eq_map (items : List Value) :
    canonicalItems items = items.map canonicalForm := by
  induction items with
  | nil => rfl
  | cons item items ih => rw [canonicalItems, ih, List.map_cons]

theorem canonicalMembers_eq_map (members : Members) :
    canonicalMembers members = members.map fun member => (member.1, canonicalForm member.2) := by
  induction members with
  | nil => rfl
  | cons member members ih => rw [canonicalMembers, ih, List.map_cons]

@[simp]
theorem lookup_canonicalMembers (key : String) (members : Members) :
    Members.lookup key (canonicalMembers members) =
      (Members.lookup key members).map canonicalForm := by
  induction members with
  | nil => rfl
  | cons member members ih =>
      rw [canonicalMembers, Members.lookup_cons, Members.lookup_cons, ih]
      split_ifs <;> rfl

theorem canonicalMembers_insert (key : String) (value : Value) (members : Members) :
    canonicalMembers (Members.insert key value members) =
      Members.insert key (canonicalForm value) (canonicalMembers members) := by
  induction members with
  | nil => rfl
  | cons head tail ih =>
      simp only [Members.insert, canonicalMembers]
      split_ifs
      · simp only [canonicalMembers]
      · simp only [canonicalMembers]
      · simp only [canonicalMembers, ih]

/-- The canonical form of an object is the object of its canonical entries. -/
@[simp]
theorem canonicalForm_ofEntries (entries : List (String × Value)) :
    canonicalForm (.ofEntries entries) =
      .ofEntries (entries.map fun entry => (entry.1, canonicalForm entry.2)) := by
  have folded (members : Members) :
      canonicalMembers (entries.foldl (fun members entry =>
          Members.insert entry.1 entry.2 members) members) =
        (entries.map fun entry => (entry.1, canonicalForm entry.2)).foldl
          (fun members entry => Members.insert entry.1 entry.2 members)
          (canonicalMembers members) := by
    induction entries generalizing members with
    | nil => rfl
    | cons entry entries ih =>
        rw [List.foldl_cons, ih, canonicalMembers_insert, List.map_cons, List.foldl_cons]
  simp only [Value.ofEntries, canonicalForm, Members.ofEntries, folded, canonicalMembers]

@[simp]
theorem canonicalForm_set (value item : Value) (key : String) :
    canonicalForm (value.set key item) = (canonicalForm value).set key (canonicalForm item) := by
  cases value with
  | object members => simp only [Value.set, canonicalForm, canonicalMembers_insert]
  | _ => rfl

@[simp]
theorem canonicalForm_string (text : String) : canonicalForm (.string text) = .string text := rfl

@[simp]
theorem get?_canonicalForm (value : Value) (key : String) :
    (canonicalForm value).get? key = (value.get? key).map canonicalForm := by
  cases value <;> simp [canonicalForm, Value.get?]

@[simp]
theorem asStr_canonicalForm (value : Value) : (canonicalForm value).asStr = value.asStr := by
  cases value <;> rfl

theorem safeInteger_bounds {text : String} {integer : Int}
    (safe : safeInteger text = some integer) :
    -maxSafeInteger ≤ integer ∧ integer ≤ maxSafeInteger := by
  rw [safeInteger, Option.filter_eq_some_iff] at safe
  simpa using safe.2

theorem safeInteger_repr {integer : Int}
    (bounds : -maxSafeInteger ≤ integer ∧ integer ≤ maxSafeInteger) :
    safeInteger integer.repr = some integer := by
  have fits : -9223372036854775808 ≤ integer ∧ integer < 9223372036854775808 := by
    simp only [maxSafeInteger] at bounds
    omega
  rw [safeInteger, Value.readI64_repr fits, Option.filter_some, if_pos (by simpa using bounds)]

/-- A natural number up to the bound is its own canonical form. -/
theorem safeInteger_repr_nat {n : Nat} (bound : (n : Int) ≤ maxSafeInteger) :
    safeInteger n.repr = some (n : Int) := by
  have repr_eq : (n : Int).repr = n.repr := by
    rw [Int.repr_eq_if, if_pos (Int.natCast_nonneg n), Int.toNat_natCast]
  rw [← repr_eq]
  refine safeInteger_repr ⟨?_, bound⟩
  simp only [maxSafeInteger]
  omega

theorem inDomain_canonicalForm {value : Value} (inDomain : InDomain value) :
    InDomain (canonicalForm value) := by
  induction value using Value.induction with
  | null => exact .null
  | bool flag => exact .bool flag
  | number text =>
      cases inDomain with
      | @number _ integer safe =>
          have form_safe : safeInteger ((safeInteger text).getD 0).repr = some integer := by
            rw [safe]
            exact safeInteger_repr (safeInteger_bounds safe)
          exact .number form_safe
  | string text => exact .string text
  | array items ih =>
      cases inDomain with
      | array items_inDomain =>
          rw [canonicalForm, canonicalItems_eq_map]
          refine .array fun item item_mem => ?_
          obtain ⟨source, source_mem, rfl⟩ := List.mem_map.mp item_mem
          exact ih source source_mem (items_inDomain source source_mem)
  | object members ih =>
      cases inDomain with
      | object members_inDomain =>
          rw [canonicalForm, canonicalMembers_eq_map]
          refine .object fun member member_mem => ?_
          obtain ⟨source, source_mem, rfl⟩ := List.mem_map.mp member_mem
          exact ih source source_mem (members_inDomain source source_mem)

/-- The canonical form has the canonical text it was read from. -/
theorem compact_canonicalForm {value : Value} (inDomain : InDomain value) :
    compact (canonicalForm value) = compact value := by
  induction value using Value.induction with
  | null => rfl
  | bool flag => rfl
  | number text =>
      cases inDomain with
      | number safe =>
          simp only [canonicalForm, compact, safe, Option.getD_some]
          rw [safeInteger_repr (safeInteger_bounds safe), Option.getD_some]
  | string text => rfl
  | array items ih =>
      cases inDomain with
      | array items_inDomain =>
          have items_eq : compactItems (canonicalItems items) = compactItems items := by
            rw [canonicalItems_eq_map, compactItems_eq_map, compactItems_eq_map, List.map_map]
            exact List.map_congr_left fun item item_mem =>
              ih item item_mem (items_inDomain item item_mem)
          rw [canonicalForm, compact, compact, items_eq]
  | object members ih =>
      cases inDomain with
      | object members_inDomain =>
          have members_eq : compactMembers (canonicalMembers members) = compactMembers members := by
            rw [canonicalMembers_eq_map, compactMembers_eq_map, compactMembers_eq_map, List.map_map]
            refine List.map_congr_left fun member member_mem => ?_
            rw [Function.comp_apply, ih member member_mem (members_inDomain member member_mem)]
          rw [canonicalForm, compact, compact, members_eq]

theorem canonicalForm_idem {value : Value} (inDomain : InDomain value) :
    canonicalForm (canonicalForm value) = canonicalForm value := by
  induction value using Value.induction with
  | null => rfl
  | bool flag => rfl
  | number text =>
      cases inDomain with
      | number safe =>
          simp only [canonicalForm, safe, Option.getD_some]
          rw [safeInteger_repr (safeInteger_bounds safe), Option.getD_some]
  | string text => rfl
  | array items ih =>
      cases inDomain with
      | array items_inDomain =>
          simp only [canonicalForm, canonicalItems_eq_map, List.map_map]
          congr 1
          exact List.map_congr_left fun item item_mem => ih item item_mem (items_inDomain item item_mem)
  | object members ih =>
      cases inDomain with
      | object members_inDomain =>
          simp only [canonicalForm, canonicalMembers_eq_map, List.map_map]
          congr 1
          refine List.map_congr_left fun member member_mem => ?_
          rw [Function.comp_apply, ih member member_mem (members_inDomain member member_mem)]

/-- A value that holds no number. -/
inductive NumberFree : Value → Prop
  | null : NumberFree .null
  | bool (flag : Bool) : NumberFree (.bool flag)
  | string (text : String) : NumberFree (.string text)
  | array {items : List Value} (items_free : ∀ item ∈ items, NumberFree item) :
      NumberFree (.array items)
  | object {members : Members} (members_free : ∀ member ∈ members, NumberFree member.2) :
      NumberFree (.object members)

theorem NumberFree.inDomain {value : Value} (free : NumberFree value) : InDomain value := by
  induction free with
  | null => exact .null
  | bool flag => exact .bool flag
  | string text => exact .string text
  | array _ ih => exact .array ih
  | object _ ih => exact .object ih

theorem NumberFree.canonicalForm_eq {value : Value} (free : NumberFree value) :
    canonicalForm value = value := by
  induction free with
  | null => rfl
  | bool flag => rfl
  | string text => rfl
  | array items_free ih =>
      rw [canonicalForm, canonicalItems_eq_map, List.map_congr_left ih, List.map_id']
  | @object members members_free ih =>
      rw [canonicalForm, canonicalMembers_eq_map]
      congr 1
      calc
        members.map (fun member => (member.1, canonicalForm member.2)) = members.map id :=
          List.map_congr_left fun member member_mem => by rw [ih member member_mem]; rfl
        _ = members := List.map_id members

theorem NumberFree.ofEntries {entries : List (String × Value)}
    (entries_free : ∀ entry ∈ entries, NumberFree entry.2) :
    NumberFree (Value.ofEntries entries) :=
  .object fun member member_mem => entries_free member (Members.mem_ofEntries member_mem)

theorem InDomain.ofEntries {entries : List (String × Value)}
    (entries_inDomain : ∀ entry ∈ entries, InDomain entry.2) :
    InDomain (Value.ofEntries entries) :=
  .object fun member member_mem => entries_inDomain member (Members.mem_ofEntries member_mem)

theorem InDomain.get? {value item : Value} {key : String} (inDomain : InDomain value)
    (found : value.get? key = some item) : InDomain item := by
  cases inDomain with
  | object members_inDomain => exact members_inDomain (key, item) (Members.mem_of_lookup found)
  | _ => simp [Value.get?] at found

@[simp]
theorem inDomain_ofNat_iff {n : Nat} : InDomain (.ofNat n) ↔ (n : Int) ≤ maxSafeInteger := by
  constructor
  · intro inDomain
    cases inDomain with
    | @number _ integer safe =>
        have repr_eq : (n : Int).repr = n.repr := by
          rw [Int.repr_eq_if, if_pos (Int.natCast_nonneg n), Int.toNat_natCast]
        have bounds := safeInteger_bounds safe
        rw [← repr_eq, safeInteger, Value.readI64, Value.readInteger_repr] at safe
        simp only [Option.filter_some, Option.filter_eq_some_iff] at safe
        split_ifs at safe
        · simp only [Option.some.injEq] at safe
          rw [safe.1]
          exact bounds.2
        · simp at safe
  · intro bound
    exact .number (safeInteger_repr_nat bound)

theorem canonicalForm_ofNat {n : Nat} (inDomain : InDomain (.ofNat n)) :
    canonicalForm (.ofNat n) = .ofNat n := by
  have repr_eq : (n : Int).repr = n.repr := by
    rw [Int.repr_eq_if, if_pos (Int.natCast_nonneg n), Int.toNat_natCast]
  simp only [Value.ofNat, canonicalForm, safeInteger_repr_nat (inDomain_ofNat_iff.mp inDomain),
    Option.getD_some, repr_eq]

theorem sorted_canonicalMembers {members : Members} (sorted : Members.Sorted members) :
    Members.Sorted (canonicalMembers members) := by
  rw [canonicalMembers_eq_map]
  exact List.pairwise_map.mpr sorted

theorem wellFormed_canonicalForm {value : Value} (wellFormed : value.WellFormed) :
    (canonicalForm value).WellFormed := by
  induction value using Value.induction with
  | null => exact .null
  | bool flag => exact .bool flag
  | number text => exact .number _
  | string text => exact .string text
  | array items ih =>
      cases wellFormed with
      | array items_wellFormed =>
          rw [canonicalForm, canonicalItems_eq_map]
          refine .array fun item item_mem => ?_
          obtain ⟨source, source_mem, rfl⟩ := List.mem_map.mp item_mem
          exact ih source source_mem (items_wellFormed source source_mem)
  | object members ih =>
      cases wellFormed with
      | object sorted members_wellFormed =>
          rw [canonicalForm]
          refine .object (sorted_canonicalMembers sorted) fun member member_mem => ?_
          rw [canonicalMembers_eq_map] at member_mem
          obtain ⟨source, source_mem, rfl⟩ := List.mem_map.mp member_mem
          exact ih source source_mem (members_wellFormed source source_mem)

theorem nestingItems_congr {first second : List Value}
    (same : first.map Value.nesting = second.map Value.nesting) :
    Value.nestingItems first = Value.nestingItems second := by
  induction first generalizing second with
  | nil =>
      rw [List.map_nil] at same
      rw [List.map_eq_nil_iff.mp same.symm]
  | cons item items ih =>
      cases second with
      | nil => simp at same
      | cons item' items' =>
          rw [List.map_cons, List.map_cons, List.cons.injEq] at same
          rw [Value.nestingItems, Value.nestingItems, same.1, ih same.2]

theorem nestingMembers_eq (members : Members) :
    Value.nestingMembers members = Value.nestingItems (members.map Prod.snd) := by
  induction members with
  | nil => rfl
  | cons member members ih =>
      rw [Value.nestingMembers, List.map_cons, Value.nestingItems, ih]

/-- Rewriting numbers leaves the nesting as it is. -/
@[simp]
theorem nesting_canonicalForm (value : Value) : (canonicalForm value).nesting = value.nesting := by
  induction value using Value.induction with
  | array items ih =>
      rw [canonicalForm, Value.nesting, Value.nesting, canonicalItems_eq_map]
      congr 1
      apply nestingItems_congr
      rw [List.map_map]
      exact List.map_congr_left ih
  | object members ih =>
      rw [canonicalForm, Value.nesting, Value.nesting, canonicalMembers_eq_map, nestingMembers_eq,
        nestingMembers_eq]
      congr 1
      apply nestingItems_congr
      rw [List.map_map, List.map_map, List.map_map]
      exact List.map_congr_left ih
  | _ => rfl

/-! ## Strings -/

theorem readEscape_control {character : Char} (control : character.toNat < 0x20) (rest : Text) :
    readEscape ('u' :: '0' :: '0' :: hexDigit (character.toNat / 16) ::
        hexDigit (character.toNat % 16) :: rest) = some (character, rest) := by
  have high := hexValue_hexDigit (character.toNat / 16) (by omega)
  have low := hexValue_hexDigit (character.toNat % 16) (by omega)
  have zero : hexValue '0' = some 0 := by decide
  have value_eq : character.toNat / 16 * 16 + character.toNat % 16 = character.toNat := by omega
  have not_low : ¬(0xDC00 ≤ character.toNat ∧ character.toNat < 0xE000) := by omega
  have not_high : ¬(0xD800 ≤ character.toNat ∧ character.toNat < 0xDC00) := by omega
  simp [readEscape, readUnicode, readHex4, high, low, zero, value_eq, not_low, not_high]

theorem readChars_escape (character : Char) {fuel : Nat} {text chars rest : Text}
    (reads : readChars fuel text = some (chars, rest)) :
    readChars (fuel + 1) (escape character ++ text) = some (character :: chars, rest) := by
  unfold escape
  split_ifs with quote slash backspace tab newline feed carriage control
  · simp [readChars, readEscape, reads, quote]
  · simp [readChars, readEscape, reads, slash]
  · simp [readChars, readEscape, reads, backspace]
  · simp [readChars, readEscape, reads, tab]
  · simp [readChars, readEscape, reads, newline]
  · simp [readChars, readEscape, reads, feed]
  · simp [readChars, readEscape, reads, carriage]
  · have escapes := readEscape_control control text
    simp [readChars, reads, escapes]
  · simp [readChars, reads, quote, slash, control]

theorem escape_ne_nil (character : Char) : escape character ≠ [] := by
  unfold escape
  split_ifs <;> exact List.cons_ne_nil _ _

theorem readChars_writeString (chars : Text) {fuel : Nat} (fuel_enough : chars.length < fuel)
    (rest : Text) :
    readChars fuel (chars.flatMap escape ++ '"' :: rest) = some (chars, rest) := by
  induction chars generalizing fuel with
  | nil =>
      obtain ⟨fuel, rfl⟩ := Nat.exists_eq_add_of_lt fuel_enough
      simp [readChars]
  | cons character chars ih =>
      obtain ⟨fuel, rfl⟩ : ∃ less, fuel = less + 1 := ⟨fuel - 1, by omega⟩
      rw [List.flatMap_cons, List.append_assoc]
      exact readChars_escape character (ih (by simpa using fuel_enough))

theorem length_le_length_flatMap_escape (chars : Text) :
    chars.length ≤ (chars.flatMap escape).length := by
  induction chars with
  | nil => simp
  | cons character chars ih =>
      have positive := List.length_pos_of_ne_nil (escape_ne_nil character)
      simp only [List.length_cons, List.flatMap_cons, List.length_append]
      omega

theorem readString_writeString (string : String) (rest : Text) :
    readString (string.toList.flatMap escape ++ '"' :: rest) = some (string, rest) := by
  have bound := length_le_length_flatMap_escape string.toList
  rw [readString, readChars_writeString string.toList (by
    simp only [List.length_append, List.length_cons]
    omega)]
  simp

theorem keysRead_writeString : KeysRead writeString := by
  intro key rest
  have reads := readString_writeString key (':' :: rest)
  simp [readKey, writeString, skipSpace, isSpace, reads]

/-! ## Values -/

theorem opens_writeString (string : String) : Opens (writeString string) :=
  ⟨'"', _, rfl, by decide⟩

theorem opens_compact (value : Value) : Opens (compact value) := by
  cases value with
  | null => exact ⟨'n', _, rfl, by decide⟩
  | bool flag => cases flag <;> exact ⟨_, _, rfl, by decide⟩
  | number text =>
      obtain ⟨c, tail, text_eq, head⟩ := repr_int_eq_cons ((safeInteger text).getD 0)
      refine ⟨c, tail, text_eq, ?_⟩
      rcases head with digit | rfl
      · refine ⟨?_, ?_, ?_⟩
        · by_contra space
          simp only [isSpace, Bool.or_eq_true, beq_iff_eq, Bool.not_eq_false] at space
          rcases space with ((rfl | rfl) | rfl) | rfl <;> simp at digit
        · rintro rfl
          simp at digit
        · rintro rfl
          simp at digit
      · decide
  | string string => exact opens_writeString string
  | array items => exact ⟨'[', _, rfl, by decide⟩
  | object members => exact ⟨'{', _, rfl, by decide⟩

/-- Canonical text is read back to the canonical form when it does not nest too deeply. -/
theorem reads_compact {value : Value} (wellFormed : value.WellFormed) (inDomain : InDomain value)
    {limit : Nat} (nests : value.nesting < limit) :
    Reads (readValue limit) (compact value) (canonicalForm value) := by
  induction value using Value.induction generalizing limit with
  | null =>
      intro rest _
      obtain ⟨limit, rfl⟩ := Nat.exists_eq_add_of_lt nests
      simp [compact, readValue, skipSpace, isSpace, readLiteral, canonicalForm]
  | bool flag =>
      intro rest _
      obtain ⟨limit, rfl⟩ := Nat.exists_eq_add_of_lt nests
      cases flag <;> simp [compact, readValue, skipSpace, isSpace, readLiteral, canonicalForm]
  | number text =>
      intro rest ends
      obtain ⟨limit, rfl⟩ := Nat.exists_eq_add_of_lt nests
      exact readValue_number _ ends
  | string string =>
      intro rest _
      obtain ⟨limit, rfl⟩ := Nat.exists_eq_add_of_lt nests
      have reads : readString ((string.toList.flatMap escape ++ ['"']) ++ rest) =
          some (string, rest) := by
        rw [List.append_assoc]
        exact readString_writeString string rest
      exact readValue_string reads
  | array items ih =>
      cases wellFormed with | array items_wellFormed =>
      cases inDomain with | array items_inDomain =>
      intro rest _
      obtain ⟨limit, rfl⟩ : ∃ less, limit = less + 1 := ⟨limit - 1, by omega⟩
      rw [Value.nesting] at nests
      have items_nest : Value.nestingItems items < limit := by omega
      have item_reads : ∀ item ∈ items.map fun item => (compact item, canonicalForm item),
          Reads (readValue limit) item.1 item.2 := by
        intro item item_mem
        obtain ⟨source, source_mem, rfl⟩ := List.mem_map.mp item_mem
        have source_nests : source.nesting < limit :=
          lt_of_le_of_lt (Value.nestingItems_le_iff.mp le_rfl source source_mem) items_nest
        exact ih source source_mem (items_wellFormed source source_mem)
          (items_inDomain source source_mem) source_nests
      have item_opens : ∀ item ∈ items.map fun item => (compact item, canonicalForm item),
          Opens item.1 := by
        intro item item_mem
        obtain ⟨source, _, rfl⟩ := List.mem_map.mp item_mem
        exact opens_compact source
      have body_reads := readArray_joined item_reads item_opens rest
      rw [List.map_map, List.map_map] at body_reads
      rw [compact, List.cons_append, List.append_assoc, readValue_array (by omega),
        compactItems_eq_map, canonicalForm, canonicalItems_eq_map]
      exact body_reads
  | object members ih =>
      cases wellFormed with | object sorted members_wellFormed =>
      cases inDomain with | object members_inDomain =>
      intro rest _
      obtain ⟨limit, rfl⟩ : ∃ less, limit = less + 1 := ⟨limit - 1, by omega⟩
      rw [Value.nesting] at nests
      have members_nest : Value.nestingMembers members < limit := by omega
      let entries := (sortEntries members).map fun member =>
        (member.1, compact member.2, canonicalForm member.2)
      have entry_reads : ∀ entry ∈ entries, Reads (readValue limit) entry.2.1 entry.2.2 := by
        intro entry entry_mem
        obtain ⟨source, source_mem, rfl⟩ := List.mem_map.mp entry_mem
        rw [mem_sortEntries] at source_mem
        have source_nests : source.2.nesting < limit :=
          lt_of_le_of_lt (Value.nestingMembers_le_iff.mp le_rfl source source_mem) members_nest
        exact ih source source_mem (members_wellFormed source source_mem)
          (members_inDomain source source_mem) source_nests
      have body_reads := readObject_joined keysRead_writeString opens_writeString entry_reads rest
      have read_eq : Members.ofEntries (entries.map fun entry => (entry.1, entry.2.2)) =
          canonicalMembers members := by
        refine Members.ofEntries_eq_of_perm (sorted_canonicalMembers sorted) ?_
        rw [canonicalMembers_eq_map, List.map_map]
        exact (sortEntries_perm members).map _
      rw [compact, List.cons_append, List.append_assoc, readValue_object (by omega),
        compactMembers_eq_map, sortEntries_map, canonicalForm]
      rw [Value.ofEntries, read_eq, List.map_map] at body_reads
      rw [List.map_map]
      exact body_reads

/-- What is written as a document is read back in canonical form. -/
theorem readDocument_compact {value : Value} (wellFormed : value.WellFormed)
    (inDomain : InDomain value) {limit : Nat} (nests : value.nesting < limit) :
    readDocument limit (String.ofList (compact value)) = some (canonicalForm value) := by
  have reads := reads_compact wellFormed inDomain nests [] (endsBefore_of_numberEnds numberEnds_nil)
  rw [List.append_nil] at reads
  simp [readDocument, reads, skipSpace]

/-- Canonical text that nests up to the limit is refused. -/
theorem refuses_compact {value : Value} (wellFormed : value.WellFormed) (inDomain : InDomain value)
    {limit : Nat} (nests : limit ≤ value.nesting) : Refuses (readValue limit) (compact value) := by
  induction value using Value.induction generalizing limit with
  | array items ih =>
      cases wellFormed with | array items_wellFormed =>
      cases inDomain with | array items_inDomain =>
      intro rest
      rcases limit with _ | limit
      · rfl
      · rw [compact, List.cons_append, List.append_assoc]
        rcases Nat.eq_zero_or_pos limit with rfl | positive
        · simp [readValue, skipSpace, isSpace]
        · rw [Value.nesting] at nests
          have item_reads : ∀ item ∈ items.map fun item => (compact item, canonicalForm item),
              Reads (readValue limit) item.1 item.2 ∨ Refuses (readValue limit) item.1 := by
            intro item item_mem
            obtain ⟨source, source_mem, rfl⟩ := List.mem_map.mp item_mem
            rcases Nat.lt_or_ge source.nesting limit with shallow | deep
            · exact Or.inl (reads_compact (items_wellFormed source source_mem)
                (items_inDomain source source_mem) shallow)
            · exact Or.inr (ih source source_mem (items_wellFormed source source_mem)
                (items_inDomain source source_mem) deep)
          have refused : ∃ item ∈ items.map fun item => (compact item, canonicalForm item),
              Refuses (readValue limit) item.1 := by
            obtain ⟨source, source_mem, deep⟩ :=
              Value.exists_nesting_of_le_nestingItems positive (Nat.le_of_succ_le_succ nests)
            exact ⟨_, List.mem_map.mpr ⟨source, source_mem, rfl⟩,
              ih source source_mem (items_wellFormed source source_mem)
                (items_inDomain source source_mem) deep⟩
          have item_opens : ∀ item ∈ items.map fun item => (compact item, canonicalForm item),
              Opens item.1 := by
            intro item item_mem
            obtain ⟨source, _, rfl⟩ := List.mem_map.mp item_mem
            exact opens_compact source
          have body_refused := readArray_refused item_reads refused item_opens rest
          rw [List.map_map] at body_refused
          rw [readValue_array positive.ne', compactItems_eq_map]
          exact body_refused
  | object members ih =>
      cases wellFormed with | object sorted members_wellFormed =>
      cases inDomain with | object members_inDomain =>
      intro rest
      rcases limit with _ | limit
      · rfl
      · rw [compact, List.cons_append, List.append_assoc]
        rcases Nat.eq_zero_or_pos limit with rfl | positive
        · simp [readValue, skipSpace, isSpace]
        · rw [Value.nesting] at nests
          let entries := (sortEntries members).map fun member =>
            (member.1, compact member.2, canonicalForm member.2)
          have entry_reads : ∀ entry ∈ entries,
              Reads (readValue limit) entry.2.1 entry.2.2 ∨ Refuses (readValue limit) entry.2.1 := by
            intro entry entry_mem
            obtain ⟨source, source_mem, rfl⟩ := List.mem_map.mp entry_mem
            rw [mem_sortEntries] at source_mem
            rcases Nat.lt_or_ge source.2.nesting limit with shallow | deep
            · exact Or.inl (reads_compact (members_wellFormed source source_mem)
                (members_inDomain source source_mem) shallow)
            · exact Or.inr (ih source source_mem (members_wellFormed source source_mem)
                (members_inDomain source source_mem) deep)
          have refused : ∃ entry ∈ entries, Refuses (readValue limit) entry.2.1 := by
            obtain ⟨source, source_mem, deep⟩ :=
              Value.exists_nesting_of_le_nestingMembers positive (Nat.le_of_succ_le_succ nests)
            exact ⟨_, List.mem_map.mpr ⟨source, mem_sortEntries.mpr source_mem, rfl⟩,
              ih source source_mem (members_wellFormed source source_mem)
                (members_inDomain source source_mem) deep⟩
          have body_refused :=
            readObject_refused keysRead_writeString opens_writeString entry_reads refused rest
          rw [readValue_object positive.ne', compactMembers_eq_map, sortEntries_map, List.map_map]
          rw [List.map_map] at body_refused
          exact body_refused
  | _ =>
      obtain rfl : limit = 0 := Nat.le_zero.mp nests
      exact fun rest => rfl

/-- A document that nests up to the limit or beyond cannot be read back. -/
theorem readDocument_compact_eq_none {value : Value} (wellFormed : value.WellFormed)
    (inDomain : InDomain value) {limit : Nat} (nests : limit ≤ value.nesting) :
    readDocument limit (String.ofList (compact value)) = none := by
  have refused := refuses_compact wellFormed inDomain nests []
  rw [List.append_nil] at refused
  simp [readDocument, refused]

/-! ## The bytes of canonical text -/

theorem utf8_ascii {text : Text} (narrow : ∀ c ∈ text, c.toNat < 0x80) :
    utf8 text = text.map fun c => UInt8.ofNat c.toNat := by
  induction text with
  | nil => rfl
  | cons c text ih =>
      rw [utf8_cons, utf8EncodeChar_of_lt (narrow c (by simp)),
        ih fun other other_mem => narrow other (List.mem_cons_of_mem _ other_mem)]
      rfl

theorem staysInside_escape_utf8 (character : Char) : StaysInside (utf8 (escape character)) := by
  have pair (c : Char) (narrow : c.toNat < 0x80) : StaysInside (utf8 ['\\', c]) := by
    have bytes_eq : utf8 ['\\', c] = [0x5c, UInt8.ofNat c.toNat] := by
      rw [utf8_cons, utf8_cons, utf8EncodeChar_of_lt narrow]
      rfl
    rw [bytes_eq]
    exact staysInside_escape _
  unfold escape
  split_ifs with quote slash backspace tab newline feed carriage control
  · exact pair '"' (by decide)
  · exact pair '\\' (by decide)
  · exact pair 'b' (by decide)
  · exact pair 't' (by decide)
  · exact pair 'n' (by decide)
  · exact pair 'f' (by decide)
  · exact pair 'r' (by decide)
  · have hex_ordinary : ∀ n < 16, (hexDigit n).toNat < 0x80 ∧
        UInt8.ofNat (hexDigit n).toNat ≠ 0x22 ∧ UInt8.ofNat (hexDigit n).toNat ≠ 0x5c := by
      decide
    obtain ⟨high_narrow, high_ordinary⟩ := hex_ordinary (character.toNat / 16) (by omega)
    obtain ⟨low_narrow, low_ordinary⟩ := hex_ordinary (character.toNat % 16) (by omega)
    have bytes_eq : utf8 ['\\', 'u', '0', '0', hexDigit (character.toNat / 16),
        hexDigit (character.toNat % 16)] =
        [0x5c, 0x75] ++ [0x30, 0x30, UInt8.ofNat (hexDigit (character.toNat / 16)).toNat,
          UInt8.ofNat (hexDigit (character.toNat % 16)).toNat] := by
      rw [utf8_cons, utf8_cons, utf8_cons, utf8_cons, utf8_cons, utf8_cons,
        utf8EncodeChar_of_lt high_narrow, utf8EncodeChar_of_lt low_narrow]
      rfl
    rw [bytes_eq]
    refine (staysInside_escape _).append (staysInside_of_forall ?_)
    intro byte byte_mem
    simp only [List.mem_cons, List.not_mem_nil, or_false] at byte_mem
    rcases byte_mem with rfl | rfl | rfl | rfl
    · decide
    · decide
    · exact high_ordinary
    · exact low_ordinary
  · refine staysInside_of_forall fun byte byte_mem => ?_
    rw [utf8_cons, utf8_nil, List.append_nil] at byte_mem
    by_cases narrow : character.toNat < 0x80
    · rw [utf8EncodeChar_of_lt narrow, List.mem_singleton] at byte_mem
      subst byte_mem
      constructor
      · intro byte_eq
        have value_eq := congrArg UInt8.toNat byte_eq
        simp only [UInt8.toNat_ofNat', UInt8.reduceToNat] at value_eq
        exact quote (Char.toNat_inj.mp (by simpa using (by omega : character.toNat = 34)))
      · intro byte_eq
        have value_eq := congrArg UInt8.toNat byte_eq
        simp only [UInt8.toNat_ofNat', UInt8.reduceToNat] at value_eq
        exact slash (Char.toNat_inj.mp (by simpa using (by omega : character.toNat = 92)))
    · have wide := toNat_ge_of_mem_utf8EncodeChar (by omega) byte_mem
      constructor <;> rintro rfl <;> simp at wide

theorem staysInside_flatMap_escape (chars : Text) : StaysInside (utf8 (chars.flatMap escape)) := by
  induction chars with
  | nil => exact staysInside_nil
  | cons character chars ih =>
      rw [List.flatMap_cons, utf8_append]
      exact (staysInside_escape_utf8 character).append ih

theorem quoted_writeString (string : String) : Quoted (utf8 (writeString string)) := by
  refine ⟨utf8 (string.toList.flatMap escape), ?_, staysInside_flatMap_escape _⟩
  rw [writeString, utf8_cons, utf8_append]
  rfl

theorem balanced_joined {pieces : List Text} (balanced : ∀ piece ∈ pieces, Balanced (utf8 piece)) :
    Balanced (utf8 (joined pieces)) := by
  induction pieces with
  | nil => exact balanced_nil
  | cons first tail ih =>
      have tail_balanced := ih fun piece piece_mem => balanced piece (List.mem_cons_of_mem _ piece_mem)
      cases tail with
      | nil => simpa using balanced first (by simp)
      | cons second tail =>
          rw [joined_cons_cons, utf8_append, utf8_cons]
          exact (balanced first (by simp)).separated tail_balanced (Or.inl rfl)

theorem bracketed_utf8 {opening closing : Char} {body : Text}
    (opens : opening = '[' ∨ opening = '{') (closes : closing = ']' ∨ closing = '}')
    (balanced : Balanced (utf8 body)) : Bracketed (utf8 (opening :: (body ++ [closing]))) := by
  refine ⟨UInt8.ofNat opening.toNat, utf8 body, UInt8.ofNat closing.toNat, ?_, ?_, ?_, balanced⟩
  · rw [utf8_cons, utf8_append]
    rcases opens with rfl | rfl <;> rcases closes with rfl | rfl <;> rfl
  · rcases opens with rfl | rfl
    · exact Or.inl rfl
    · exact Or.inr rfl
  · rcases closes with rfl | rfl
    · exact Or.inl rfl
    · exact Or.inr rfl

theorem valueBytes_plain {text : Text} (text_ne : text ≠ [])
    (plain : ∀ c ∈ text, c.toNat < 0x80 ∧ PlainByte (UInt8.ofNat c.toNat)) :
    ValueBytes (utf8 text) := by
  rw [utf8_ascii fun c c_mem => (plain c c_mem).1]
  refine .plain (by simpa using text_ne) fun byte byte_mem => ?_
  obtain ⟨c, c_mem, rfl⟩ := List.mem_map.mp byte_mem
  exact (plain c c_mem).2

theorem plainByte_of_isDigit {c : Char} (digit : c.isDigit = true) :
    c.toNat < 0x80 ∧ PlainByte (UInt8.ofNat c.toNat) := by
  have bounds : 48 ≤ c.toNat ∧ c.toNat ≤ 57 := by
    simpa [Char.isDigit, UInt32.le_iff_toNat_le] using digit
  have plain : ∀ n < 58, 48 ≤ n → PlainByte (UInt8.ofNat n) := by
    unfold PlainByte
    decide
  exact ⟨by omega, plain _ (by omega) bounds.1⟩

theorem plainByte_of_mem_repr {i : Int} {c : Char} (c_mem : c ∈ i.repr.toList) :
    c.toNat < 0x80 ∧ PlainByte (UInt8.ofNat c.toNat) := by
  have minus_plain : ('-').toNat < 0x80 ∧ PlainByte (UInt8.ofNat ('-').toNat) := by
    unfold PlainByte
    decide
  rw [toList_repr_int] at c_mem
  split_ifs at c_mem
  · rw [Nat.toList_repr] at c_mem
    exact plainByte_of_isDigit (isDigit_of_mem_toDigits c_mem)
  · rcases List.mem_cons.mp c_mem with rfl | c_mem
    · exact minus_plain
    · rw [Nat.toList_repr] at c_mem
      exact plainByte_of_isDigit (isDigit_of_mem_toDigits c_mem)

theorem bracketed_object {members : Members}
    (balanced : ∀ member ∈ members, Balanced (utf8 (compact member.2))) :
    Bracketed (utf8 (compact (.object members))) := by
  refine bracketed_utf8 (Or.inr rfl) (Or.inr rfl) (balanced_joined ?_)
  rw [compactMembers_eq_map, sortEntries_map, List.map_map]
  intro piece piece_mem
  obtain ⟨member, member_mem, rfl⟩ := List.mem_map.mp piece_mem
  rw [mem_sortEntries] at member_mem
  rw [Function.comp_apply, utf8_append, utf8_cons]
  exact (quoted_writeString member.1).balanced.separated (balanced member member_mem) (Or.inr rfl)

/-- The canonical bytes of a value have the shape of one value. -/
theorem valueBytes_compact (value : Value) : ValueBytes (utf8 (compact value)) := by
  induction value using Value.induction with
  | null => exact valueBytes_plain (List.cons_ne_nil _ _) (by simp [compact, PlainByte])
  | bool flag =>
      cases flag <;>
        exact valueBytes_plain (List.cons_ne_nil _ _) (by simp [compact, PlainByte])
  | number text =>
      refine valueBytes_plain ?_ fun c c_mem => plainByte_of_mem_repr c_mem
      obtain ⟨c, tail, text_eq, _⟩ := repr_int_eq_cons ((safeInteger text).getD 0)
      rw [compact, text_eq]
      exact List.cons_ne_nil _ _
  | string string => exact .quoted (quoted_writeString string)
  | array items ih =>
      refine .bracketed (bracketed_utf8 (Or.inl rfl) (Or.inl rfl) (balanced_joined ?_))
      rw [compactItems_eq_map]
      intro piece piece_mem
      obtain ⟨item, item_mem, rfl⟩ := List.mem_map.mp piece_mem
      exact (ih item item_mem).balanced
  | object members ih =>
      exact .bracketed (bracketed_object fun member member_mem => (ih member member_mem).balanced)

theorem bracketed_compact_object (members : Members) :
    Bracketed (utf8 (compact (.object members))) :=
  bracketed_object fun member _ => (valueBytes_compact member.2).balanced

end Baley
