import Baley.Mcp.Line

/-!
# The id of a line

A fault names the id of the line it discards: the first top-level member of that name that was read
whole and holds a string or an integer of 64 bits.
-/

namespace Baley.Mcp.Frame

open Json Json.Grammar

/-! ## Ids that can be used -/

/-- A value that is repeated as an id. -/
structure UsableId (value : List UInt8) (id : Value) : Prop where
  short : value.length ≤ maxIdBytes
  read : ∃ text, fromUtf8 value = some text ∧ readDocument 128 text = some id
  kind : (∃ content, id = .string content) ∨ ∃ digits n, id = .number digits ∧
    Value.readInteger digits = some n ∧ -2 ^ 63 ≤ n ∧ n < 2 ^ 64

/-- An integer is a natural number, or one after a minus sign. -/
theorem readInteger_cases (text : String) :
    Value.readInteger text = (Value.readNatural text).map (fun k : Nat => (k : Int)) ∨
      Value.readNatural text = none ∧
        ∃ digits, Value.readInteger text = (Value.readDigits digits).map fun k : Nat => -(k : Int) := by
  unfold Value.readInteger Value.readNatural
  cases text.toList with
  | nil => exact .inl (by simp [Option.map_eq_bind])
  | cons sign digits =>
      by_cases minus : sign = '-'
      · subst minus
        refine .inr ⟨?_, digits, by simp [Option.map_eq_bind, Option.bind_assoc]⟩
        simp [Value.readDigits]
      · by_cases plus : sign = '+'
        · subst plus
          exact .inl (by simp [Option.map_eq_bind])
        · exact .inl (by simp [minus, plus, Option.map_eq_bind])

theorem integer64_iff (digits : String) :
    ((Value.number digits).asI64.isSome || (Value.number digits).asU64.isSome) = true ↔
      ∃ n, Value.readInteger digits = some n ∧ -2 ^ 63 ≤ n ∧ n < 2 ^ 64 := by
  rw [Bool.or_eq_true, Option.isSome_iff_exists, Option.isSome_iff_exists]
  simp only [Value.asI64, Value.asU64, Value.readI64, Value.readU64, Option.filter_eq_some_iff,
    decide_eq_true_eq]
  constructor
  · rintro (⟨n, read, low, high⟩ | ⟨k, read, high⟩)
    · exact ⟨n, read, by omega, by omega⟩
    · rcases readInteger_cases digits with same | ⟨none_read, -⟩
      · exact ⟨k, by rw [same, read, Option.map_some], by omega, by omega⟩
      · rw [read] at none_read
        cases none_read
  · rintro ⟨n, read, low, high⟩
    by_cases small : n < 9223372036854775808
    · exact .inl ⟨n, read, by omega, small⟩
    · rcases readInteger_cases digits with same | ⟨-, other, same⟩
      · rw [same] at read
        obtain ⟨k, natural, rfl⟩ := Option.map_eq_some_iff.mp read
        exact .inr ⟨k, natural, by omega⟩
      · rw [same] at read
        obtain ⟨k, -, rfl⟩ := Option.map_eq_some_iff.mp read
        omega

theorem usableId_iff {value : List UInt8} {id : Value} :
    UsableId value id ↔ value.length ≤ maxIdBytes ∧ idValue value = some id := by
  have idValue_iff : idValue value = some id ↔ ∃ text, fromUtf8 value = some text ∧
      ∃ read, readDocument 128 text = some read ∧ read = id ∧
        ((∃ content, read = .string content) ∨ ∃ digits n, read = .number digits ∧
          Value.readInteger digits = some n ∧ -2 ^ 63 ≤ n ∧ n < 2 ^ 64) := by
    simp only [idValue, Option.bind_eq_bind, Option.bind_eq_some_iff]
    refine exists_congr fun text => and_congr_right fun _ => exists_congr fun read =>
      and_congr_right fun _ => ?_
    cases read with
    | string content => simp
    | number digits =>
        simp only [integer64_iff]
        split_ifs with integer
        · obtain ⟨n, integer⟩ := integer
          constructor
          · intro same
            exact ⟨Option.some.inj same, .inr ⟨digits, n, rfl, integer⟩⟩
          · rintro ⟨rfl, -⟩
            rfl
        · constructor
          · intro nothing
            cases nothing
          · rintro ⟨-, ⟨content, ⟨⟩⟩ | ⟨_, n, ⟨⟩, fits⟩⟩
            exact absurd ⟨n, fits⟩ integer
    | _ => simp
  rw [idValue_iff]
  constructor
  · rintro ⟨short, ⟨text, decoded, read⟩, kind⟩
    exact ⟨short, text, decoded, id, read, rfl, kind⟩
  · rintro ⟨short, text, decoded, _, read, rfl, kind⟩
    exact ⟨short, ⟨text, decoded, read⟩, kind⟩

/-! ## Members that name an id -/

/-- A top-level member may stand after the bytes: a space, a member and a closing brace complete a
text. -/
def TakesMember (bytes : List UInt8) : Prop :=
  IsText maxDepth (bytes ++ [0x20, 0x22, 0x22, 0x3a, 0x30, 0x7d])

/-- The key of an id as it is spelled. -/
def idKey : List UInt8 := [0x22, 0x69, 0x64, 0x22]

/-- The bytes up to the value of a top-level member that names an id. -/
def IdFront (bytes : List UInt8) : Prop :=
  ∃ before space space', bytes = before ++ (idKey ++ (space ++ 0x3a :: space')) ∧ TakesMember before ∧
    Spaces space ∧ Spaces space'

/-- The last of the bytes completes the value of a member that names an id.  A literal or number is
complete with the delimiter or newline after it. -/
def CompletesId (bytes : List UInt8) (id : Value) : Prop :=
  ∃ front value rest, bytes = front ++ (value ++ rest) ∧ IdFront front ∧ UsableId value id ∧
    (IsString value ∧ rest = [] ∨
      IsAtom value ∧ ∃ byte, rest = [byte] ∧ (isDelimiter byte = true ∨ byte = 0x0a))

/-- The first id that was read whole. -/
inductive FirstId (bytes : List UInt8) : Option Value → Prop
  | none (no_id : ∀ front rest id, bytes = front ++ rest → ¬CompletesId front id) : FirstId bytes none
  | some {front rest : List UInt8} {id : Value} (bytes_eq : bytes = front ++ rest)
      (completes : CompletesId front id)
      (first : ∀ front' rest' id', bytes = front' ++ rest' → front'.length < front.length →
        ¬CompletesId front' id') : FirstId bytes (some id)

/-- Only at the keys of the outermost object may a top-level member stand. -/
theorem takesMember_iff {decoder : Decoder} (follows : Follows decoder) :
    TakesMember decoder.frame ↔ decoder.token = .none ∧ decoder.stack = [.object] ∧
      (decoder.expect = .key ∨ decoder.expect = .keyOrEnd) := by
  rw [TakesMember, follows.text_iff maxDepth le_rfl]
  have space : IsSpaceByte 0x20 := .inl rfl
  have not_after (rest : List UInt8) : ¬After maxDepth decoder.stack (0x22 :: rest) :=
    fun after => absurd (after_head after) (by decide)
  have not_space : ¬IsSpaceByte 0x22 := by decide
  constructor
  · intro remaining
    have token := token_of_quotes follows.fits remaining
    rw [remaining_none maxDepth token, wanted_of_space _ _ space] at remaining
    have no_value : ¬ValueAfter maxDepth decoder.stack [0x22, 0x22, 0x3a, 0x30, 0x7d] := by
      intro value
      rcases valueAfter_cons.mp value with atom | ⟨-, body⟩ | ⟨bracket, -⟩ | ⟨brace, -⟩
      · exact not_isAtomStart.1 (atomAfter_start atom)
      · rcases bodyAfter_cons.mp body with ⟨-, after⟩ | ⟨backslash, -⟩ | ⟨⟨-, not_quote, -⟩, -⟩
        · exact absurd (after_head after) (by decide)
        · exact absurd backslash (by decide)
        · exact not_quote rfl
      · exact absurd bracket (by decide)
      · exact absurd brace (by decide)
    have stack_of_key (key : KeyAfter maxDepth decoder.stack [0x22, 0x22, 0x3a, 0x30, 0x7d])
        (object : decoder.stack.head? = some .object) : decoder.stack = [.object] := by
      obtain ⟨stack, stack_eq⟩ := List.head?_eq_some_iff.mp object
      rw [stack_eq] at key ⊢
      have colon : ColonAfter maxDepth (.object :: stack) [0x3a, 0x30, 0x7d] := by
        rcases bodyAfter_cons.mp (keyAfter_cons.mp key).2 with ⟨-, colon⟩ | ⟨backslash, -⟩ | ⟨⟨-, not_quote, -⟩, -⟩
        · exact colon
        · exact absurd backslash (by decide)
        · exact absurd rfl not_quote
      have value : ValueAfter maxDepth (.object :: stack) [0x30, 0x7d] := by
        rcases colonAfter_cons.mp colon with ⟨space, -⟩ | ⟨-, spaced⟩
        · exact absurd space (by decide)
        · exact (spaced_of_not_space (by decide)).mp spaced
      have after : After maxDepth (.object :: stack) [0x7d] := by
        rcases valueAfter_cons.mp value with atom | ⟨quote, -⟩ | ⟨bracket, -⟩ | ⟨brace, -⟩
        · have not_newline : (0x7d : UInt8) ≠ 0x0a := by decide
          rw [atomAfter_cons not_newline, if_pos (by decide)] at atom
          exact atom.2
        · exact absurd quote (by decide)
        · exact absurd bracket (by decide)
        · exact absurd brace (by decide)
      rcases after_object_cons.mp after with ⟨space, -⟩ | ⟨comma, -⟩ | ⟨-, after⟩
      · exact absurd space (by decide)
      · exact absurd comma (by decide)
      · cases stack with
        | nil => rfl
        | cons top stack =>
            cases top with
            | array =>
                obtain ⟨items, tail, same, -⟩ := after
                exact absurd same.symm (List.append_ne_nil_of_right_ne_nil _ (by simp))
            | object =>
                obtain ⟨members, tail, same, -⟩ := after
                exact absurd same.symm (List.append_ne_nil_of_right_ne_nil _ (by simp))
    have in_object := follows.fits.in_object
    refine ⟨token, ?_⟩
    cases expect : decoder.expect with
    | value =>
        rw [expect] at remaining
        exact absurd ((spaced_of_not_space not_space).mp remaining) no_value
    | valueOrEnd =>
        rw [expect] at remaining
        rcases remaining with closing | value
        · have closing := (closingAfter_cons.mp ((spaced_of_not_space not_space).mp closing)).1
          exact absurd closing (by decide)
        · exact absurd ((spaced_of_not_space not_space).mp value) no_value
    | keyOrEnd =>
        rw [expect] at remaining
        rcases remaining with closing | key
        · have closing := (closingAfter_cons.mp ((spaced_of_not_space not_space).mp closing)).1
          exact absurd closing (by decide)
        · exact ⟨stack_of_key ((spaced_of_not_space not_space).mp key) (in_object (.inl expect)), .inr rfl⟩
    | key =>
        rw [expect] at remaining
        exact ⟨stack_of_key ((spaced_of_not_space not_space).mp remaining) (in_object (.inr (.inl expect))),
          .inl rfl⟩
    | colon =>
        rw [expect] at remaining
        rcases colonAfter_cons.mp remaining with ⟨space, -⟩ | ⟨colon, -⟩
        · exact absurd space not_space
        · exact absurd colon (by decide)
    | commaOrEnd =>
        rw [expect] at remaining
        exact absurd remaining (not_after _)
    | done =>
        rw [expect] at remaining
        exact absurd remaining (not_after _)
  · rintro ⟨token, stack, expect⟩
    have zero : ValueAfter maxDepth [.object] [0x30, 0x7d] :=
      ⟨[0x30], [0x7d], rfl, .atom (.inr (.inr (.inr isNumber_zero))), [], [], rfl, .done spaces_nil, spaces_nil⟩
    have key : KeyAfter maxDepth [.object] [0x22, 0x22, 0x3a, 0x30, 0x7d] :=
      ⟨[0x22, 0x22], [0x3a, 0x30, 0x7d], rfl, isString_empty, spaced_of ⟨_, rfl, spaced_of zero⟩⟩
    rw [remaining_none maxDepth token, wanted_of_space _ _ space, stack]
    rcases expect with expect | expect
    · rw [expect]
      exact spaced_of key
    · rw [expect]
      exact .inr (spaced_of key)

/-! ## What the decoder notes -/

/-- The bytes after the key of a top-level member that names an id. -/
def IdKeyFront (bytes : List UInt8) : Prop :=
  ∃ before space, bytes = before ++ (idKey ++ space) ∧ TakesMember before ∧ Spaces space

theorem IdKeyFront.space {bytes : List UInt8} (front : IdKeyFront bytes) {byte : UInt8}
    (space : IsSpaceByte byte) : IdKeyFront (bytes ++ [byte]) := by
  obtain ⟨before, spaces, rfl, takes, all⟩ := front
  refine ⟨before, spaces ++ [byte], by simp, takes, ?_⟩
  exact List.forall_mem_append.mpr ⟨all, spaces_cons.mpr ⟨space, spaces_nil⟩⟩

theorem IdKeyFront.colon {bytes : List UInt8} (front : IdKeyFront bytes) : IdFront (bytes ++ [0x3a]) := by
  obtain ⟨before, spaces, rfl, takes, all⟩ := front
  exact ⟨before, spaces, [], by simp, takes, all, spaces_nil⟩

theorem IdFront.space {bytes : List UInt8} (front : IdFront bytes) {byte : UInt8}
    (space : IsSpaceByte byte) : IdFront (bytes ++ [byte]) := by
  obtain ⟨before, spaces, spaces', rfl, takes, all, all'⟩ := front
  refine ⟨before, spaces, spaces' ++ [byte], by simp, takes, all, ?_⟩
  exact List.forall_mem_append.mpr ⟨all', spaces_cons.mpr ⟨space, spaces_nil⟩⟩

/-- What of a key was read and noted. -/
structure KeyNoted (decoder : Decoder) (before noted : List UInt8) : Prop where
  frame_eq : decoder.frame = before ++ 0x22 :: noted
  takes : decoder.stack = [.object] → TakesMember before
  length_eq : decoder.keyLen = noted.length
  first : decoder.keyHead.1 ≠ 0 → decoder.stack.length = 1 ∧ noted[0]? = some decoder.keyHead.1
  second : decoder.keyHead.2 ≠ 0 → decoder.stack.length = 1 ∧ noted[1]? = some decoder.keyHead.2

/-- What the decoder notes of ids agrees with the bytes it has taken. -/
structure Tracks (decoder : Decoder) : Prop where
  no_start : decoder.token = .none ∨ (∃ escape, decoder.token = .str true escape) → decoder.idStart = none
  id_start : ∀ start, decoder.idStart = some start →
    start ≤ decoder.frame.length ∧ decoder.id = none ∧ IdFront (decoder.frame.take start)
  id_slot : decoder.idSlot = true →
    decoder.token = .none ∧ decoder.expect = .value ∧ decoder.id = none ∧ IdFront decoder.frame
  key_is_id : decoder.token = .none → decoder.expect = .colon → decoder.keyIsId = true →
    IdKeyFront decoder.frame
  key : ∀ escape, decoder.token = .str true escape → ∃ before noted, KeyNoted decoder before noted
  string : ∀ escape start, decoder.token = .str false escape → decoder.idStart = some start →
    ∀ rest, StringAfter (· = []) escape rest → IsString (decoder.frame.drop start ++ rest)
  atom : ∀ start start', decoder.token = .atom start → decoder.idStart = some start' → start' = start

theorem tracks_new : Tracks .new := by
  constructor <;> simp [Decoder.new]

/-- A byte outside strings and atoms keeps what is noted, and the id. -/
theorem tracks_outside {decoder after : Decoder} {byte : UInt8} {front : List UInt8}
    (frame_eq : decoder.frame = front ++ [byte]) (not_newline : byte ≠ 0x0a)
    (untoken : decoder.token = .none) (no_start : decoder.idStart = none)
    (id_slot : decoder.idSlot = true → decoder.expect = .value ∧ decoder.id = none ∧ IdFront front)
    (key_is_id : decoder.expect = .colon → decoder.keyIsId = true → IdKeyFront front)
    (takes : decoder.stack = [.object] → decoder.expect = .key ∨ decoder.expect = .keyOrEnd →
      TakesMember front)
    (outside : Outside decoder byte after) : Tracks after ∧ after.id = decoder.id := by
  have no_slot {expect : Expect} (expects : decoder.expect = expect) (differs : expect ≠ .value) :
      decoder.idSlot = false := by
    refine Bool.eq_false_iff.mpr fun slot => ?_
    exact differs (expects.symm.trans (id_slot slot).1)
  cases outside with
  | space space =>
      have space := (isSpace_iff not_newline).mp space
      refine ⟨⟨fun _ => no_start, ?_, ?_, ?_, ?_, ?_, ?_⟩, rfl⟩
      · simp [no_start]
      · intro slot
        obtain ⟨expect, no_id, id_front⟩ := id_slot slot
        rw [frame_eq]
        exact ⟨untoken, expect, no_id, id_front.space space⟩
      · intro _ expect is_id
        rw [frame_eq]
        exact (key_is_id expect is_id).space space
      · simp [untoken]
      · simp [untoken]
      · simp [untoken]
  | @container top expect expects opens =>
      have not_colon : expect ≠ .colon := by
        rcases opens with ⟨-, -, rfl⟩ | ⟨-, -, rfl⟩ <;> simp
      refine ⟨⟨fun _ => no_start, ?_, ?_, ?_, ?_, ?_, ?_⟩, rfl⟩
      · simp [no_start]
      · simp
      · exact fun _ expect => absurd expect not_colon
      · simp [untoken]
      · simp [untoken]
      · simp [untoken]
  | @token token expects starts =>
      have start_eq (start : Nat)
          (found : (if decoder.idSlot then some (decoder.frame.length - 1) else decoder.idStart) = some start) :
          start = front.length ∧ decoder.id = none ∧ IdFront front := by
        rw [no_start, frame_eq, List.length_append, List.length_singleton, Nat.add_sub_cancel] at found
        split_ifs at found with slot
        cases found
        exact ⟨rfl, (id_slot slot).2⟩
      refine ⟨⟨?_, ?_, ?_, ?_, ?_, ?_, ?_⟩, rfl⟩
      · rintro (nothing | ⟨escape, nothing⟩)
        · rcases starts with ⟨-, rfl⟩ | ⟨-, rfl⟩ <;> cases nothing
        · rcases starts with ⟨-, rfl⟩ | ⟨-, rfl⟩ <;> cases nothing
      · intro start found
        obtain ⟨rfl, no_id, id_front⟩ := start_eq start found
        simp only [frame_eq, List.length_append, List.take_left]
        exact ⟨by omega, no_id, id_front⟩
      · simp
      · rintro rfl
        rcases starts with ⟨-, nothing⟩ | ⟨-, nothing⟩ <;> cases nothing
      · rintro escape rfl
        rcases starts with ⟨-, nothing⟩ | ⟨-, nothing⟩ <;> cases nothing
      · intro escape start token found rest after
        obtain ⟨rfl, -, -⟩ := start_eq start found
        rcases starts with ⟨rfl, rfl⟩ | ⟨-, rfl⟩
        · cases token
          obtain ⟨body, _, rfl, isBody, rfl⟩ := after
          simp only [frame_eq, List.drop_left, List.append_nil, List.singleton_append]
          exact ⟨body, rfl, isBody⟩
        · cases token
      · intro start start' token found
        obtain ⟨rfl, -, -⟩ := start_eq start' found
        rcases starts with ⟨-, rfl⟩ | ⟨-, rfl⟩
        · cases token
        · cases token
          rw [frame_eq, List.length_append, List.length_singleton, Nat.add_sub_cancel]
  | close expects closes =>
      have no_slot : decoder.idSlot = false := by
        rcases expects with expect | expect | expect
        · exact no_slot expect (by simp)
        · exact no_slot expect (by simp)
        · exact no_slot expect (by simp)
      refine ⟨⟨fun _ => rfl, ?_, ?_, ?_, ?_, ?_, ?_⟩, ?_⟩
      · simp [Decoder.close, Decoder.valueDone]
      · simp [Decoder.close, Decoder.valueDone, no_slot]
      · intro _ expect
        simp only [Decoder.close, Decoder.valueDone] at expect
        split_ifs at expect
      · simp [Decoder.close, Decoder.valueDone, untoken]
      · simp [Decoder.close, Decoder.valueDone, untoken]
      · simp [Decoder.close, Decoder.valueDone, untoken]
      · simp [Decoder.close, Decoder.valueDone, no_start]
  | key expects quote =>
      have no_slot : decoder.idSlot = false := by
        rcases expects with expect | expect
        · exact no_slot expect (by simp)
        · exact no_slot expect (by simp)
      refine ⟨⟨fun _ => no_start, ?_, ?_, ?_, ?_, ?_, ?_⟩, rfl⟩
      · simp [no_start]
      · simp [no_slot]
      · simp
      · intro escape _
        refine ⟨front, [], ?_, fun stack => takes stack expects.symm, rfl, by simp, by simp⟩
        rw [frame_eq, quote]
      · simp
      · simp
  | colon expects colon =>
      refine ⟨⟨fun _ => no_start, ?_, ?_, ?_, ?_, ?_, ?_⟩, rfl⟩
      · simp [no_start]
      · intro slot
        simp only [Bool.and_eq_true, Option.isNone_iff_eq_none] at slot
        refine ⟨untoken, rfl, slot.2, ?_⟩
        rw [frame_eq, colon]
        exact (key_is_id expects slot.1).colon
      · simp
      · simp [untoken]
      · simp [untoken]
      · simp [untoken]
  | comma expects comma =>
      have no_slot := no_slot expects (by simp)
      refine ⟨⟨fun _ => no_start, ?_, ?_, ?_, ?_, ?_, ?_⟩, rfl⟩
      · simp [no_start]
      · simp [no_slot]
      · intro _ expect
        simp only at expect
        split_ifs at expect
      · simp [untoken]
      · simp [untoken]
      · simp [untoken]

/-- What is noted of a key grows with it. -/
theorem KeyNoted.goes_on {decoder : Decoder} {before noted : List UInt8}
    (key : KeyNoted decoder before noted) {byte : UInt8} {keyHead : UInt8 × UInt8}
    (head : keyHead = decoder.keyHead ∨ decoder.stack.length = 1 ∧
      (decoder.keyLen = 0 ∧ keyHead = (byte, decoder.keyHead.2) ∨
        decoder.keyLen = 1 ∧ keyHead = (decoder.keyHead.1, byte))) (token : Token) :
    KeyNoted { decoder with frame := decoder.frame ++ [byte], keyHead, keyLen := decoder.keyLen + 1, token }
      before (noted ++ [byte]) := by
  obtain ⟨frame_eq, takes, length_eq, first, second⟩ := key
  have kept {place : Nat} {value : UInt8} (found : noted[place]? = some value) :
      (noted ++ [byte])[place]? = some value := by
    rw [List.getElem?_append_left (List.getElem?_eq_some_iff.mp found).1, found]
  refine ⟨by simp [frame_eq], takes, by simp [length_eq], ?_, ?_⟩
  · rcases head with rfl | ⟨outer, ⟨none_yet, rfl⟩ | ⟨-, rfl⟩⟩
    · exact fun some_first => ⟨(first some_first).1, kept (first some_first).2⟩
    · intro _
      obtain rfl : noted = [] := List.length_eq_zero_iff.mp (length_eq.symm.trans none_yet)
      exact ⟨outer, rfl⟩
    · exact fun some_first => ⟨outer, kept (first some_first).2⟩
  · rcases head with rfl | ⟨outer, ⟨-, rfl⟩ | ⟨one, rfl⟩⟩
    · exact fun some_second => ⟨(second some_second).1, kept (second some_second).2⟩
    · exact fun some_second => ⟨outer, kept (second some_second).2⟩
    · intro _
      refine ⟨outer, ?_⟩
      have one : noted.length = 1 := length_eq.symm.trans one
      rw [← one]
      exact List.getElem?_concat_length

theorem idKey_of_noted {noted : List UInt8} (two : noted.length = 2) (first : noted[0]? = some 0x69)
    (second : noted[1]? = some 0x64) : 0x22 :: (noted ++ [0x22]) = idKey := by
  obtain ⟨a, b, rfl⟩ := List.length_eq_two.mp two
  cases first
  cases second
  rfl

/-- A byte that is taken keeps what is noted, and the id changes only with a whole id. -/
theorem Tracks.moves {decoder after : Decoder} {byte : UInt8} (tracks : Tracks decoder)
    (follows : Follows decoder) (not_newline : byte ≠ 0x0a) (moves : Moves decoder byte after) :
    Tracks after := by
  obtain ⟨no_start, id_start, id_slot, key_is_id, key, string, atom⟩ := tracks
  have slot_only_outside (inside : decoder.token ≠ .none) : decoder.idSlot = false :=
    Bool.eq_false_iff.mpr fun slot => inside (id_slot slot).1
  cases moves with
  | outside untoken outside =>
      have frame_eq : ({ decoder with frame := decoder.frame ++ [byte] } : Decoder).frame =
          decoder.frame ++ [byte] := rfl
      exact (tracks_outside frame_eq not_newline untoken (no_start (.inl untoken))
        (fun slot => (id_slot slot).2) (key_is_id untoken)
        (fun stack expect => (takesMember_iff follows).mpr ⟨untoken, stack, expect⟩) outside).1
  | @stringEnd is_key token quote =>
      have no_slot := slot_only_outside (by simp [token])
      unfold Decoder.stringDone
      cases is_key with
      | true =>
          have no_start := no_start (.inr ⟨_, token⟩)
          rw [if_pos rfl]
          refine ⟨fun _ => no_start, ?_, ?_, ?_, ?_, ?_, ?_⟩
          · simp [no_start]
          · simp [no_slot]
          · intro _ _ is_id
            simp only [Bool.and_eq_true, decide_eq_true_eq] at is_id
            obtain ⟨two, head⟩ := is_id
            obtain ⟨before, noted, frame_eq, takes, length_eq, first, second⟩ := key _ token
            rw [head] at first second
            obtain ⟨outer, first⟩ := first (by simp)
            have in_object := follows.fits.in_object ((follows.fits.key _ token).imp_right .inl)
            obtain ⟨stack, stack_eq⟩ := List.head?_eq_some_iff.mp in_object
            have alone : decoder.stack = [.object] := by
              rw [stack_eq, List.length_cons, Nat.add_eq_right, List.length_eq_zero_iff] at outer
              rw [stack_eq, outer]
            refine ⟨before, [], ?_, takes alone, spaces_nil⟩
            have key_eq := idKey_of_noted (length_eq.symm.trans two) first (second (by simp)).2
            simp only [frame_eq, quote, ← key_eq]
            simp
          · simp
          · simp
          · simp
      | false =>
          rw [if_neg (by simp)]
          refine ⟨fun _ => rfl, ?_, ?_, ?_, ?_, ?_, ?_⟩
          · simp [Decoder.valueDone]
          · simp [Decoder.valueDone, no_slot]
          · intro _ expect
            simp only [Decoder.valueDone] at expect
            split_ifs at expect
          · simp [Decoder.valueDone]
          · simp [Decoder.valueDone]
          · simp [Decoder.valueDone]
  | @string _ is_key escape next token goes_on =>
      have no_slot := slot_only_outside (by simp [token])
      obtain ⟨goes, keyHead, keyLen, rfl, noted⟩ := goes_on
      have started (start : Nat) (found : decoder.idStart = some start) :
          start ≤ (decoder.frame ++ [byte]).length ∧ decoder.id = none ∧
            IdFront ((decoder.frame ++ [byte]).take start) := by
        obtain ⟨inside, no_id, front⟩ := id_start start found
        rw [List.take_append_of_le_length inside, List.length_append]
        exact ⟨by omega, no_id, front⟩
      refine ⟨?_, started, ?_, ?_, ?_, ?_, ?_⟩
      · rintro (nothing | ⟨other, same⟩)
        · cases nothing
        · cases same
          exact no_start (.inr ⟨_, token⟩)
      · simp [no_slot]
      · simp
      · rintro other same
        cases same
        obtain ⟨before, read, key_noted⟩ := key _ token
        obtain ⟨length_eq, head⟩ := noted rfl
        exact ⟨before, read ++ [byte], length_eq ▸ key_noted.goes_on head _⟩
      · rintro other start same found rest after
        cases same
        have inside := (id_start start found).1
        have whole := string _ start token found (byte :: rest) ((goes _ _).mpr after)
        simp only [List.drop_append_of_le_length inside, List.append_assoc, List.singleton_append]
        exact whole
      · simp
  | atom token not_delimiter =>
      have no_slot := slot_only_outside (by simp [token])
      refine ⟨?_, ?_, ?_, ?_, ?_, ?_, atom⟩
      · simp [token]
      · intro start found
        obtain ⟨inside, no_id, front⟩ := id_start start found
        simp only [List.take_append_of_le_length inside, List.length_append]
        exact ⟨by omega, no_id, front⟩
      · simp [no_slot]
      · simp [token]
      · simp [token]
      · simp [token]
  | @atomEnd _ start token delimiter isAtom outside =>
      have no_slot := slot_only_outside (by simp [token])
      have frame_eq : (({ decoder with frame := decoder.frame ++ [byte], token := .none } : Decoder).valueDone
          decoder.frame.length).frame = decoder.frame ++ [byte] := rfl
      refine (tracks_outside frame_eq not_newline rfl rfl ?_ ?_ ?_ outside).1
      · intro slot
        exact absurd slot (by simp [Decoder.valueDone, no_slot])
      · intro expect
        simp only [Decoder.valueDone] at expect
        split_ifs at expect
      · intro _ expect
        simp only [Decoder.valueDone] at expect
        split_ifs at expect <;> simp at expect

theorem Reached.tracks {decoder : Decoder} (reached : Reached decoder) : Tracks decoder := by
  induction reached with
  | new => exact tracks_new
  | more reached not_newline taken ih => exact ih.moves reached.follows not_newline (reached.moves taken)

/-! ## When an id is complete -/

section Id

variable {decoder : Decoder} {byte : UInt8}

theorem id_valueDone (finish : Nat) : (decoder.valueDone finish).id =
    match decoder.idStart with
    | some start =>
        if finish - start ≤ maxIdBytes then idValue ((decoder.frame.take finish).drop start)
        else decoder.id
    | none => decoder.id := rfl

theorem id_startValue : (decoder.startValue byte).1.id = decoder.id := by
  unfold Decoder.startValue
  simp only
  by_cases bracket : byte = 0x7b ∨ byte = 0x5b
  · rw [if_pos bracket]
    split_ifs <;> rfl
  · rw [if_neg bracket]
    by_cases starts : byte = 0x22 ∨ byte = 0x2d ∨ isAsciiDigit byte ∨ byte = 0x74 ∨ byte = 0x66 ∨ byte = 0x6e
    · rw [if_pos starts]
    · rw [if_neg starts]

theorem id_structural (no_start : decoder.idStart = none) :
    (decoder.structural byte).1.id = decoder.id := by
  have id_close : decoder.close.id = decoder.id := by
    simp [Decoder.close, Decoder.valueDone, no_start]
  unfold Decoder.structural
  cases decoder.expect with
  | value => exact id_startValue
  | valueOrEnd =>
      simp only
      by_cases closes : byte = 0x5d
      · rw [if_pos closes]
        exact id_close
      · rw [if_neg closes]
        exact id_startValue
  | keyOrEnd =>
      simp only
      by_cases closes : byte = 0x7d
      · rw [if_pos closes]
        exact id_close
      · rw [if_neg closes]
        split_ifs <;> rfl
  | key =>
      simp only
      split_ifs <;> rfl
  | colon =>
      simp only
      split_ifs <;> rfl
  | commaOrEnd =>
      simp only
      by_cases comma : byte = 0x2c
      · rw [if_pos comma]
      · rw [if_neg comma]
        split_ifs
        · exact id_close
        · exact id_close
        · rfl
  | done => rfl

theorem id_between (no_start : decoder.idStart = none) : (decoder.between byte).1.id = decoder.id := by
  have no_start' : ({ decoder with started := true } : Decoder).idStart = none := no_start
  unfold Decoder.between
  split_ifs
  · rfl
  · exact id_structural no_start'

theorem id_stringByte {key : Bool} {escape : Escape} :
    (decoder.stringByte byte key escape).1.id =
      if key = false ∧ escape = .plain ∧ byte = 0x22 then (decoder.valueDone decoder.frame.length).id
      else decoder.id := by
  have id_stringOn (other : Decoder) (next : Escape) : (other.stringOn key next).1.id = other.id := rfl
  have id_noteKey : (decoder.noteKey byte).id = decoder.id := by
    unfold Decoder.noteKey
    split_ifs
    · split <;> rfl
    · rfl
  by_cases closes : key = false ∧ escape = .plain ∧ byte = 0x22
  · rw [if_pos closes]
    obtain ⟨rfl, rfl, rfl⟩ := closes
    rfl
  · rw [if_neg closes]
    unfold Decoder.stringByte
    cases escape with
    | plain =>
        simp only
        by_cases quote : byte = 0x22
        · rw [if_pos quote]
          cases key with
          | true => rfl
          | false => exact absurd ⟨rfl, rfl, quote⟩ closes
        · rw [if_neg quote]
          by_cases backslash : byte = 0x5c
          · rw [if_pos backslash]
            rfl
          · rw [if_neg backslash]
            by_cases control : byte ≤ 31
            · rw [if_pos control]
            · rw [if_neg control, id_stringOn]
              split_ifs
              · exact id_noteKey
              · rfl
    | slash =>
        simp only
        split_ifs <;> rfl
    | hex left =>
        simp only
        by_cases digit : isAsciiHexDigit byte
        · rw [if_pos digit]
          rfl
        · rw [if_neg digit]

theorem id_feed_none (token : decoder.token = .none) (no_start : decoder.idStart = none) :
    (decoder.feed byte).1.id = decoder.id := by
  have no_start' : ({ decoder with frame := decoder.frame ++ [byte] } : Decoder).idStart = none := no_start
  unfold Decoder.feed Decoder.advance
  simp only [token]
  rw [← token]
  exact id_between no_start'

theorem id_feed_str {key : Bool} {escape : Escape} (token : decoder.token = .str key escape) :
    (decoder.feed byte).1.id =
      if key = false ∧ escape = .plain ∧ byte = 0x22 then
        ({ decoder with frame := decoder.frame ++ [byte] }.valueDone (decoder.frame ++ [byte]).length).id
      else decoder.id := by
  unfold Decoder.feed Decoder.advance
  simp only [token]
  rw [← token]
  exact id_stringByte

theorem id_feed_atom {start : Nat} (token : decoder.token = .atom start) :
    (decoder.feed byte).1.id =
      if isDelimiter byte = true ∧ validAtom (decoder.frame.drop start) = true then
        ({ decoder with frame := decoder.frame ++ [byte], token := .none }.valueDone decoder.frame.length).id
      else decoder.id := by
  unfold Decoder.feed Decoder.advance
  simp only [token]
  rw [← token]
  by_cases delimiter : isDelimiter byte = true
  · rw [if_pos delimiter, List.length_append, List.length_singleton, Nat.add_sub_cancel, finishAtom_pushed]
    by_cases valid : validAtom (decoder.frame.drop start)
    · rw [if_pos valid, if_pos ⟨delimiter, valid⟩]
      exact id_between rfl
    · rw [if_neg valid, if_neg (fun atom => valid atom.2)]
  · rw [if_neg delimiter, if_neg (fun atom => delimiter atom.1)]

/-- An id that was read stays. -/
theorem id_feed_some (tracks : Tracks decoder) {id : Value} (found : decoder.id = some id) :
    (decoder.feed byte).1.id = some id := by
  have no_start : decoder.idStart = none := by
    by_contra started
    obtain ⟨start, started⟩ := Option.ne_none_iff_exists'.mp started
    have no_id := (tracks.id_start start started).2.1
    rw [no_id] at found
    cases found
  cases token : decoder.token with
  | none => rw [id_feed_none token no_start, found]
  | str key escape =>
      rw [id_feed_str token]
      split_ifs
      · simp [Decoder.valueDone, no_start, found]
      · exact found
  | atom start =>
      rw [id_feed_atom token]
      split_ifs
      · simp [Decoder.valueDone, no_start, found]
      · exact found

/-- An id that is noted was read whole just now. -/
theorem completesId_of_feed (tracks : Tracks decoder) (no_id : decoder.id = none) {id : Value}
    (found : (decoder.feed byte).1.id = some id) : CompletesId (decoder.frame ++ [byte]) id := by
  cases token : decoder.token with
  | none =>
      rw [id_feed_none token (tracks.no_start (.inl token)), no_id] at found
      cases found
  | str key escape =>
      rw [id_feed_str token] at found
      split_ifs at found with closes
      · obtain ⟨rfl, rfl, rfl⟩ := closes
        rw [id_valueDone] at found
        simp only at found
        cases started : decoder.idStart with
        | none =>
            rw [started, no_id] at found
            cases found
        | some start =>
            simp only [started, List.take_length] at found
            obtain ⟨inside, -, front⟩ := tracks.id_start start started
            split_ifs at found with short
            · have value_eq : (decoder.frame ++ [0x22]).drop start = decoder.frame.drop start ++ [0x22] :=
                List.drop_append_of_le_length inside
              have string := tracks.string _ start token started [0x22] ⟨[0x22], [], rfl, .closing, rfl⟩
              rw [value_eq] at found
              refine ⟨decoder.frame.take start, decoder.frame.drop start ++ [0x22], [], ?_, front,
                usableId_iff.mpr ⟨?_, found⟩, .inl ⟨string, rfl⟩⟩
              · rw [List.append_nil, ← List.append_assoc, List.take_append_drop]
              · rw [← value_eq, List.length_drop]
                exact short
            · rw [no_id] at found
              cases found
      · rw [no_id] at found
        cases found
  | atom start =>
      rw [id_feed_atom token] at found
      split_ifs at found with closes
      · obtain ⟨delimiter, valid⟩ := closes
        have atom := (validAtom_iff _).mp valid
        rw [id_valueDone] at found
        simp only at found
        cases started : decoder.idStart with
        | none =>
            rw [started, no_id] at found
            cases found
        | some start' =>
            obtain rfl := tracks.atom start start' token started
            simp only [started, List.take_left] at found
            obtain ⟨inside, -, front⟩ := tracks.id_start _ started
            split_ifs at found with short
            · refine ⟨decoder.frame.take _, decoder.frame.drop _, [byte], ?_, front,
                usableId_iff.mpr ⟨?_, found⟩, .inr ⟨atom, byte, rfl, .inl delimiter⟩⟩
              · rw [← List.append_assoc, List.take_append_drop]
              · rw [List.length_drop]
                exact short
            · rw [no_id] at found
              cases found
      · rw [no_id] at found
        cases found

end Id

end Baley.Mcp.Frame
