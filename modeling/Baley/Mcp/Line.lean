import Baley.Mcp.Advance

/-!
# Reading a line

The decoder takes the bytes of a line as long as some text could go on with them, literals and
numbers being judged at their ends.
-/

namespace Baley.Mcp.Frame

open Json.Grammar

/-! ## What a line may start with -/

/-- Some text goes on from the bytes. -/
def Viable (depth : Nat) (bytes : List UInt8) : Prop :=
  ∃ rest, IsText depth (bytes ++ rest)

/-- A place where any value may stand. -/
def Awaits (depth : Nat) (bytes : List UInt8) : Prop :=
  ∀ space value, Spaces space → IsValue 0 value → Viable depth (bytes ++ (space ++ value))

/-- The bytes of a literal or number that is not over, whatever they spell. -/
def Begun (bytes : List UInt8) : Prop :=
  ∃ first rest, bytes = first :: rest ∧ IsAtomStart first ∧ ∀ byte ∈ bytes, isDelimiter byte = false

/-- Nothing is wrong yet, up to a literal or number that is not over. -/
def Tolerable (depth : Nat) (bytes : List UInt8) : Prop :=
  Viable depth bytes ∨ ∃ front atom, bytes = front ++ atom ∧ Awaits depth front ∧ Begun atom

/-! ## The frame -/

section Frame

variable (decoder : Decoder)

theorem frame_valueDone (finish : Nat) : (decoder.valueDone finish).frame = decoder.frame := rfl

theorem frame_close : decoder.close.frame = decoder.frame := rfl

theorem frame_stringDone (key : Bool) : (decoder.stringDone key).frame = decoder.frame := by
  unfold Decoder.stringDone
  split_ifs <;> rfl

theorem frame_noteKey (byte : UInt8) : (decoder.noteKey byte).frame = decoder.frame := by
  unfold Decoder.noteKey
  split_ifs
  · split <;> rfl
  · rfl

theorem frame_stringByte (byte : UInt8) (key : Bool) (escape : Escape) :
    (decoder.stringByte byte key escape).1.frame = decoder.frame := by
  unfold Decoder.stringByte
  cases escape with
  | plain =>
      simp only
      split_ifs
      · exact frame_stringDone _ _
      · rfl
      · rfl
      · exact frame_noteKey _ _
      · rfl
  | slash =>
      simp only
      split_ifs <;> rfl
  | hex left =>
      simp only
      split_ifs <;> rfl

theorem frame_startValue (byte : UInt8) : (decoder.startValue byte).1.frame = decoder.frame := by
  unfold Decoder.startValue
  simp only
  split_ifs <;> rfl

theorem frame_structural (byte : UInt8) : (decoder.structural byte).1.frame = decoder.frame := by
  unfold Decoder.structural
  cases decoder.expect with
  | value => exact frame_startValue _ _
  | valueOrEnd =>
      simp only
      split_ifs
      · rfl
      · exact frame_startValue _ _
  | _ =>
      simp only
      try split_ifs
      all_goals rfl

theorem frame_between (byte : UInt8) : (decoder.between byte).1.frame = decoder.frame := by
  unfold Decoder.between
  split_ifs
  · rfl
  · exact frame_structural _ _

theorem frame_finishAtom (start finish : Nat) :
    (decoder.finishAtom start finish).1.frame = decoder.frame := by
  unfold Decoder.finishAtom
  split_ifs <;> rfl

theorem frame_advance (byte : UInt8) : (decoder.advance byte).1.frame = decoder.frame := by
  unfold Decoder.advance
  cases decoder.token with
  | none => exact frame_between _ _
  | str key escape => exact frame_stringByte _ _ _ _
  | atom start =>
      simp only
      split_ifs
      · have finished := frame_finishAtom decoder start (decoder.frame.length - 1)
        cases result_eq : decoder.finishAtom start (decoder.frame.length - 1) with
        | mk after faulted =>
            rw [result_eq] at finished
            cases faulted with
            | none => exact (frame_between _ _).trans finished
            | some kind => exact finished
      · rfl

end Frame

/-! ## The bytes taken so far -/

/-- A byte put into the frame and taken. -/
def Decoder.feed (decoder : Decoder) (byte : UInt8) : Decoder × Option FaultKind :=
  { decoder with frame := decoder.frame ++ [byte] }.advance byte

/-- The decoder is reached on an unfinished line. -/
inductive Reached : Decoder → Prop
  | new : Reached .new
  | more {decoder after : Decoder} {byte : UInt8} (reached : Reached decoder)
      (not_newline : byte ≠ 0x0a) (taken : decoder.feed byte = (after, none)) : Reached after

theorem frame_feed (decoder : Decoder) (byte : UInt8) :
    (decoder.feed byte).1.frame = decoder.frame ++ [byte] :=
  frame_advance _ _

/-- What always stands of a decoder that is reached. -/
structure Follows (decoder : Decoder) : Prop where
  fits : Fits decoder
  text_iff : ∀ depth, maxDepth ≤ depth → ∀ rest,
    IsText depth (decoder.frame ++ rest) ↔ Remaining depth decoder rest

theorem follows_new : Follows .new where
  fits := ⟨by decide, by simp [Decoder.new], by simp [Decoder.new], by simp [Decoder.new],
    by simp [Decoder.new], by simp [Decoder.new], by simp [Decoder.new], by simp [Decoder.new]⟩
  text_iff depth _ rest := by
    constructor
    · rintro ⟨before, value, after, rfl, before_spaces, isValue, after_spaces⟩
      exact ⟨before, value ++ after, rfl, before_spaces, value, after, rfl, isValue, after_spaces⟩
    · rintro ⟨before, _, rfl, before_spaces, value, after, rfl, isValue, after_spaces⟩
      exact ⟨before, value, after, rfl, before_spaces, isValue, after_spaces⟩

theorem Follows.judges {decoder : Decoder} {byte : UInt8} (follows : Follows decoder)
    (not_newline : byte ≠ 0x0a) {depth : Nat} (deep : maxDepth ≤ depth) :
    Judges depth (Remaining depth decoder) byte (decoder.feed byte) :=
  judges_advance deep follows.fits not_newline

theorem text_cons_iff {decoder : Decoder} {byte : UInt8} (follows : Follows decoder) {depth : Nat}
    (deep : maxDepth ≤ depth) (rest : List UInt8) :
    IsText depth (decoder.frame ++ [byte] ++ rest) ↔ Remaining depth decoder (byte :: rest) := by
  rw [List.append_assoc, List.singleton_append]
  exact follows.text_iff depth deep (byte :: rest)

theorem Follows.feed {decoder after : Decoder} {byte : UInt8} (follows : Follows decoder)
    (not_newline : byte ≠ 0x0a) (taken : decoder.feed byte = (after, none)) : Follows after := by
  have frame_eq := frame_feed decoder byte
  rw [taken] at frame_eq
  have judged {depth : Nat} (deep : maxDepth ≤ depth) :=
    (follows.judges not_newline deep).taken (by rw [taken])
  rw [taken] at judged
  refine ⟨(judged le_rfl).1, fun depth deep rest => ?_⟩
  rw [frame_eq, text_cons_iff follows deep]
  exact (judged deep).2 rest

theorem Reached.follows {decoder : Decoder} (reached : Reached decoder) : Follows decoder := by
  induction reached with
  | new => exact follows_new
  | more _ not_newline taken ih => exact ih.feed not_newline taken

/-- The bytes taken determine the decoder. -/
theorem Reached.unique {decoder decoder' : Decoder} (reached : Reached decoder)
    (reached' : Reached decoder') (frame_eq : decoder.frame = decoder'.frame) : decoder = decoder' := by
  induction reached generalizing decoder' with
  | new =>
      cases reached' with
      | new => rfl
      | @more before after byte _ _ taken =>
          have fed := frame_feed before byte
          rw [taken, ← frame_eq] at fed
          exact absurd fed.symm (List.append_ne_nil_of_right_ne_nil _ (by simp))
  | @more before after byte reached _ taken ih =>
      have fed := frame_feed before byte
      rw [taken] at fed
      cases reached' with
      | new =>
          rw [frame_eq] at fed
          exact absurd fed.symm (List.append_ne_nil_of_right_ne_nil _ (by simp))
      | @more before' after' byte' reached' _ taken' =>
          have fed' := frame_feed before' byte'
          rw [taken'] at fed'
          obtain ⟨same_frame, same_byte⟩ := List.append_inj' (fed.symm.trans (frame_eq.trans fed')) rfl
          cases same_byte
          rw [ih reached' same_frame, taken'] at taken
          exact (congrArg Prod.fst taken).symm

theorem Reached.no_newline {decoder : Decoder} (reached : Reached decoder) : 0x0a ∉ decoder.frame := by
  induction reached with
  | new => exact List.not_mem_nil
  | @more before after byte _ not_newline taken ih =>
      have fed := frame_feed before byte
      rw [taken] at fed
      rw [fed, List.mem_append, List.mem_singleton, not_or]
      exact ⟨ih, Ne.symm not_newline⟩

/-- The decoder was reached at every start of the bytes taken. -/
theorem Reached.start {decoder : Decoder} (reached : Reached decoder) {front rest : List UInt8}
    (frame_eq : decoder.frame = front ++ rest) : ∃ before, Reached before ∧ before.frame = front := by
  induction reached generalizing rest with
  | new =>
      obtain ⟨rfl, -⟩ := List.append_eq_nil_iff.mp frame_eq.symm
      exact ⟨.new, .new, rfl⟩
  | @more before after byte reached not_newline taken ih =>
      have fed := frame_feed before byte
      rw [taken] at fed
      rcases List.eq_nil_or_concat rest with rfl | ⟨rest, last, rfl⟩
      · rw [List.append_nil] at frame_eq
        exact ⟨after, .more reached not_newline taken, frame_eq⟩
      · rw [frame_eq, List.concat_eq_append, ← List.append_assoc] at fed
        exact ih (List.append_inj' fed rfl).1.symm

/-! ## Tolerable bytes -/

section Remaining

variable {decoder : Decoder} (depth : Nat)

theorem remaining_none (token : decoder.token = .none) :
    Remaining depth decoder = Wanted depth decoder.stack decoder.expect := by
  rw [Remaining, token]

theorem remaining_str {key : Bool} {escape : Escape} (token : decoder.token = .str key escape) :
    Remaining depth decoder = StringAfter (NextAfter depth decoder.stack key) escape := by
  rw [Remaining, token]
  rfl

theorem remaining_atom {start : Nat} (token : decoder.token = .atom start) :
    Remaining depth decoder = AtomAfter depth decoder.stack (decoder.frame.drop start) := by
  rw [Remaining, token]

end Remaining

theorem exists_valueAfter (depth : Nat) (stack : List Open) : ∃ rest, ValueAfter depth stack rest := by
  obtain ⟨rest, after⟩ := exists_after depth stack
  exact ⟨[0x30] ++ rest, [0x30], rest, rfl, .atom (.inr (.inr (.inr isNumber_zero))), after⟩

theorem exists_colonAfter (depth : Nat) (stack : List Open) : ∃ rest, ColonAfter depth stack rest := by
  obtain ⟨rest, value⟩ := exists_valueAfter depth stack
  exact ⟨0x3a :: rest, spaced_of ⟨rest, rfl, spaced_of value⟩⟩

theorem exists_keyAfter (depth : Nat) (stack : List Open) : ∃ rest, KeyAfter depth stack rest := by
  obtain ⟨rest, colon⟩ := exists_colonAfter depth stack
  exact ⟨[0x22, 0x22] ++ rest, [0x22, 0x22], rest, rfl, isString_empty, colon⟩

theorem exists_stringAfter {next : List UInt8 → Prop} (some_next : ∃ rest, next rest) (escape : Escape) :
    ∃ rest, StringAfter next escape rest := by
  obtain ⟨rest, held⟩ := some_next
  have body : BodyAfter next (0x22 :: rest) := ⟨[0x22], rest, rfl, .closing, held⟩
  cases escape with
  | plain => exact ⟨_, body⟩
  | slash => exact ⟨0x22 :: 0x22 :: rest, _, _, rfl, .inl ⟨by decide, body⟩⟩
  | hex left =>
      refine ⟨List.replicate left 0x30 ++ 0x22 :: rest, _, _, rfl, List.length_replicate, ?_, body⟩
      intro digit digit_mem
      rw [List.eq_of_mem_replicate digit_mem]
      decide

/-- Some text goes on wherever no literal and no number is read. -/
theorem exists_remaining {decoder : Decoder} (no_atom : ∀ start, decoder.token ≠ .atom start) (depth : Nat) :
    ∃ rest, Remaining depth decoder rest := by
  unfold Remaining
  cases token : decoder.token with
  | none =>
      cases decoder.expect with
      | value => exact (exists_valueAfter depth decoder.stack).imp fun rest => spaced_of
      | valueOrEnd => exact (exists_valueAfter depth decoder.stack).imp fun rest value => .inr (spaced_of value)
      | keyOrEnd => exact (exists_keyAfter depth decoder.stack).imp fun rest key => .inr (spaced_of key)
      | key => exact (exists_keyAfter depth decoder.stack).imp fun rest => spaced_of
      | colon => exact exists_colonAfter depth decoder.stack
      | commaOrEnd => exact exists_after depth decoder.stack
      | done => exact exists_after depth decoder.stack
  | str key escape =>
      refine exists_stringAfter ?_ escape
      cases key with
      | true => exact exists_colonAfter depth decoder.stack
      | false => exact exists_after depth decoder.stack
  | atom start => exact absurd token (no_atom start)

/-- A value is expected outside strings, literals and numbers. -/
def Decoder.ExpectsValue (decoder : Decoder) : Prop :=
  decoder.token = .none ∧ (decoder.expect = .value ∨ decoder.expect = .valueOrEnd)

instance (byte : UInt8) : Decidable (IsAtomStart byte) := by
  unfold IsAtomStart
  infer_instance

theorem plain_of_isAtomStart {byte : UInt8} (start : IsAtomStart byte) :
    isDelimiter byte = false ∧ isSpace byte = false ∧ byte ≠ 0x5d ∧ byte ≠ 0x7b ∧ byte ≠ 0x5b ∧
      byte ≠ 0x22 := by
  have not_named (other : UInt8) (apart : ¬IsAtomStart other) : byte ≠ other := by
    rintro rfl
    exact apart start
  have not_space : isSpace byte = false := by
    simp [isSpace, not_named 0x20 (by decide), not_named 0x09 (by decide), not_named 0x0d (by decide)]
  refine ⟨?_, not_space, not_named _ (by decide), not_named _ (by decide), not_named _ (by decide),
    not_named _ (by decide)⟩
  simp [isDelimiter, not_space, not_named 0x2c (by decide), not_named 0x5d (by decide),
    not_named 0x7d (by decide)]

/-- A literal or a number starts where a value is expected. -/
theorem feed_atomStart {decoder : Decoder} (expects : decoder.ExpectsValue) {byte : UInt8}
    (start : IsAtomStart byte) :
    ∃ after, decoder.feed byte = (after, none) ∧ after.token = .atom decoder.frame.length ∧
      after.idStart = (if decoder.idSlot then some decoder.frame.length else decoder.idStart) ∧
      after.id = decoder.id := by
  obtain ⟨untoken, expects⟩ := expects
  obtain ⟨-, not_space, not_bracket, not_brace, not_open, not_quote⟩ := plain_of_isAtomStart start
  obtain ⟨pushed, pushed_eq⟩ : ∃ pushed : Decoder,
      { decoder with frame := decoder.frame ++ [byte], started := true } = pushed := ⟨_, rfl⟩
  have frame_eq : pushed.frame = decoder.frame ++ [byte] := by rw [← pushed_eq]
  have fed : decoder.feed byte = pushed.startValue byte := by
    simp only [Decoder.feed, Decoder.advance, untoken, Decoder.between, not_space, ← pushed_eq]
    rcases expects with expect | expect
    · simp [Decoder.structural, expect]
    · simp [Decoder.structural, expect, not_bracket]
  rw [fed, Decoder.startValue]
  simp only
  rw [if_neg (by simp [not_brace, not_open]), if_pos (.inr (isAtomStart_iff.mp start))]
  have slot_eq : pushed.idSlot = decoder.idSlot := by rw [← pushed_eq]
  have start_eq : pushed.idStart = decoder.idStart := by rw [← pushed_eq]
  refine ⟨_, rfl, ?_, ?_, ?_⟩
  · rw [if_neg not_quote, frame_eq, List.length_append, List.length_singleton, Nat.add_sub_cancel]
  · rw [frame_eq, List.length_append, List.length_singleton, Nat.add_sub_cancel, slot_eq, start_eq]
  · rw [← pushed_eq]

/-- It goes on to the next delimiter. -/
theorem feed_atom {decoder : Decoder} {start : Nat} (token : decoder.token = .atom start) {byte : UInt8}
    (not_delimiter : isDelimiter byte = false) :
    decoder.feed byte = ({ decoder with frame := decoder.frame ++ [byte] }, none) := by
  simp [Decoder.feed, Decoder.advance, token, not_delimiter]

/-! ## What a byte that is taken does -/

/-- The ways a byte outside strings and atoms is taken. -/
inductive Outside (decoder : Decoder) (byte : UInt8) : Decoder → Prop
  | space (space : isSpace byte = true) : Outside decoder byte decoder
  | container {top : Open} {expect : Expect}
      (expects : decoder.expect = .value ∨ decoder.expect = .valueOrEnd)
      (opens : byte = 0x7b ∧ top = .object ∧ expect = .keyOrEnd ∨
        byte = 0x5b ∧ top = .array ∧ expect = .valueOrEnd) :
      Outside decoder byte
        { decoder with started := true, idSlot := false, stack := top :: decoder.stack, expect }
  | token {token : Token} (expects : decoder.expect = .value ∨ decoder.expect = .valueOrEnd)
      (starts : byte = 0x22 ∧ token = .str false .plain ∨
        IsAtomStart byte ∧ token = .atom (decoder.frame.length - 1)) :
      Outside decoder byte
        { decoder with
          started := true
          idSlot := false
          idStart := if decoder.idSlot then some (decoder.frame.length - 1) else decoder.idStart
          token }
  | close (expects : decoder.expect = .valueOrEnd ∨ decoder.expect = .keyOrEnd ∨
        decoder.expect = .commaOrEnd) (closes : byte = 0x5d ∨ byte = 0x7d) :
      Outside decoder byte { decoder with started := true }.close
  | key (expects : decoder.expect = .keyOrEnd ∨ decoder.expect = .key) (quote : byte = 0x22) :
      Outside decoder byte
        { decoder with started := true, keyLen := 0, keyHead := (0, 0), token := .str true .plain }
  | colon (expects : decoder.expect = .colon) (colon : byte = 0x3a) :
      Outside decoder byte
        { decoder with
          started := true
          idSlot := decoder.keyIsId && decoder.id.isNone
          expect := .value }
  | comma (expects : decoder.expect = .commaOrEnd) (comma : byte = 0x2c) :
      Outside decoder byte
        { decoder with
          started := true
          expect := if decoder.stack.head? = some .object then .key else .value }

theorem outside_startValue {decoder after : Decoder} {byte : UInt8}
    (expects : decoder.expect = .value ∨ decoder.expect = .valueOrEnd)
    (taken : { decoder with started := true }.startValue byte = (after, none)) :
    Outside decoder byte after := by
  unfold Decoder.startValue at taken
  simp only at taken
  by_cases bracket : byte = 0x7b ∨ byte = 0x5b
  · rw [if_pos bracket] at taken
    by_cases full : decoder.stack.length = maxDepth
    · rw [if_pos full] at taken
      cases taken
    · rw [if_neg full] at taken
      by_cases brace : byte = 0x7b
      · rw [if_pos brace] at taken
        cases taken
        exact .container expects (.inl ⟨brace, rfl, rfl⟩)
      · rw [if_neg brace] at taken
        cases taken
        exact .container expects (.inr ⟨bracket.resolve_left brace, rfl, rfl⟩)
  · rw [if_neg bracket] at taken
    by_cases starts : byte = 0x22 ∨ byte = 0x2d ∨ isAsciiDigit byte ∨ byte = 0x74 ∨ byte = 0x66 ∨ byte = 0x6e
    · rw [if_pos starts] at taken
      cases taken
      refine .token expects ?_
      by_cases quote : byte = 0x22
      · exact .inl ⟨quote, if_pos quote⟩
      · exact .inr ⟨isAtomStart_iff.mpr (starts.resolve_left quote), if_neg quote⟩
    · rw [if_neg starts] at taken
      cases taken

theorem outside_between {decoder after : Decoder} {byte : UInt8}
    (taken : decoder.between byte = (after, none)) : Outside decoder byte after := by
  unfold Decoder.between at taken
  by_cases space : isSpace byte
  · rw [if_pos space] at taken
    cases taken
    exact .space space
  · rw [if_neg space, Decoder.structural] at taken
    cases expect : decoder.expect with
    | value =>
        simp only [expect] at taken
        rw [← expect] at taken
        exact outside_startValue (.inl expect) taken
    | valueOrEnd =>
        simp only [expect] at taken
        by_cases closes : byte = 0x5d
        · rw [if_pos closes] at taken
          cases taken
          exact .close (.inl expect) (.inl closes)
        · rw [if_neg closes, ← expect] at taken
          exact outside_startValue (.inr expect) taken
    | keyOrEnd =>
        simp only [expect] at taken
        by_cases closes : byte = 0x7d
        · rw [if_pos closes] at taken
          cases taken
          exact .close (.inr (.inl expect)) (.inr closes)
        · rw [if_neg closes] at taken
          by_cases quote : byte = 0x22
          · rw [if_pos quote, ← expect] at taken
            cases taken
            exact .key (.inl expect) quote
          · rw [if_neg quote] at taken
            cases taken
    | key =>
        simp only [expect] at taken
        by_cases quote : byte = 0x22
        · rw [if_pos quote, ← expect] at taken
          cases taken
          exact .key (.inr expect) quote
        · rw [if_neg quote] at taken
          cases taken
    | colon =>
        simp only [expect] at taken
        by_cases colon : byte = 0x3a
        · rw [if_pos colon] at taken
          cases taken
          exact .colon expect colon
        · rw [if_neg colon] at taken
          cases taken
    | commaOrEnd =>
        simp only [expect] at taken
        by_cases comma : byte = 0x2c
        · rw [if_pos comma] at taken
          cases taken
          exact .comma expect comma
        · rw [if_neg comma] at taken
          by_cases brace : byte = 0x7d ∧ decoder.stack.head? = some .object
          · rw [if_pos brace] at taken
            cases taken
            exact .close (.inr (.inr expect)) (.inr brace.1)
          · rw [if_neg brace] at taken
            by_cases bracket : byte = 0x5d ∧ decoder.stack.head? = some .array
            · rw [if_pos bracket] at taken
              cases taken
              exact .close (.inr (.inr expect)) (.inl bracket.1)
            · rw [if_neg bracket] at taken
              cases taken
    | done =>
        simp only [expect] at taken
        cases taken

/-- How a string goes on with a byte. -/
structure GoesOn (decoder : Decoder) (byte : UInt8) (key : Bool) (escape next : Escape)
    (after : Decoder) : Prop where
  follows : ∀ kind rest, StringAfter kind escape (byte :: rest) ↔ StringAfter kind next rest
  after_eq : ∃ keyHead keyLen, after = { decoder with keyHead, keyLen, token := .str key next } ∧
    (key = true → keyLen = decoder.keyLen + 1 ∧ (keyHead = decoder.keyHead ∨
      decoder.stack.length = 1 ∧ (decoder.keyLen = 0 ∧ keyHead = (byte, decoder.keyHead.2) ∨
        decoder.keyLen = 1 ∧ keyHead = (decoder.keyHead.1, byte))))

theorem stringOn_goesOn {decoder : Decoder} {byte : UInt8} {key : Bool} {escape next : Escape}
    (follows : ∀ kind rest, StringAfter kind escape (byte :: rest) ↔ StringAfter kind next rest) :
    GoesOn decoder byte key escape next (decoder.stringOn key next).1 where
  follows := follows
  after_eq := by
    refine ⟨decoder.keyHead, _, rfl, fun is_key => ⟨?_, .inl rfl⟩⟩
    rw [if_pos is_key]

/-- A string ends, or it goes on. -/
theorem stringByte_cases {decoder after : Decoder} {byte : UInt8} {key : Bool} {escape : Escape}
    (some_left : ∀ left, escape = .hex left → 0 < left)
    (taken : decoder.stringByte byte key escape = (after, none)) :
    byte = 0x22 ∧ escape = .plain ∧ after = { decoder with token := .none }.stringDone key ∨
      ∃ next, GoesOn decoder byte key escape next after := by
  unfold Decoder.stringByte at taken
  cases escape with
  | plain =>
      simp only at taken
      by_cases quote : byte = 0x22
      · rw [if_pos quote] at taken
        cases taken
        exact .inl ⟨quote, rfl, rfl⟩
      · rw [if_neg quote] at taken
        by_cases backslash : byte = 0x5c
        · rw [if_pos backslash] at taken
          have after_eq : (decoder.stringOn key .slash).1 = after := congrArg Prod.fst taken
          rw [← after_eq]
          refine .inr ⟨.slash, stringOn_goesOn fun kind rest => ?_⟩
          rw [StringAfter, bodyAfter_cons]
          simp [backslash]
        · rw [if_neg backslash] at taken
          by_cases control : byte ≤ 31
          · rw [if_pos control] at taken
            cases taken
          · rw [if_neg control] at taken
            have after_eq := congrArg Prod.fst taken
            simp only at after_eq
            refine .inr ⟨.plain, fun kind rest => ?_, ?_⟩
            · rw [StringAfter, bodyAfter_cons, ← printable_iff]
              simp [quote, backslash, control]
            · rw [← after_eq]
              cases key with
              | false => exact ⟨decoder.keyHead, _, rfl, by simp⟩
              | true =>
                  unfold Decoder.stringOn Decoder.noteKey
                  simp only [if_true]
                  by_cases outer : decoder.stack.length = 1
                  · rw [if_pos outer]
                    split
                    next keyLen =>
                      exact ⟨_, _, rfl, fun _ => ⟨rfl, .inr ⟨outer, .inl ⟨keyLen, rfl⟩⟩⟩⟩
                    next keyLen =>
                      exact ⟨_, _, rfl, fun _ => ⟨rfl, .inr ⟨outer, .inr ⟨keyLen, rfl⟩⟩⟩⟩
                    next => exact ⟨_, _, rfl, fun _ => ⟨rfl, .inl rfl⟩⟩
                  · rw [if_neg outer]
                    exact ⟨_, _, rfl, fun _ => ⟨rfl, .inl rfl⟩⟩
  | slash =>
      simp only at taken
      by_cases escapes : byte = 0x22 ∨ byte = 0x5c ∨ byte = 0x2f ∨ byte = 0x62 ∨ byte = 0x66 ∨
          byte = 0x6e ∨ byte = 0x72 ∨ byte = 0x74
      · rw [if_pos escapes] at taken
        have after_eq : (decoder.stringOn key .plain).1 = after := congrArg Prod.fst taken
        rw [← after_eq]
        refine .inr ⟨.plain, stringOn_goesOn fun kind rest => ?_⟩
        have mem : byte ∈ escapable := by simpa [escapable] using escapes
        have not_unicode : byte ≠ 0x75 := by
          rintro rfl
          exact absurd escapes (by decide)
        rw [slashAfter_cons]
        simp [mem, not_unicode, StringAfter]
      · rw [if_neg escapes] at taken
        have not_mem : byte ∉ escapable := by simpa [escapable] using escapes
        by_cases unicode : byte = 0x75
        · rw [if_pos unicode] at taken
          have after_eq : (decoder.stringOn key (.hex 4)).1 = after := congrArg Prod.fst taken
          rw [← after_eq]
          subst unicode
          refine .inr ⟨.hex 4, stringOn_goesOn fun kind rest => ?_⟩
          rw [slashAfter_cons]
          simp [not_mem, StringAfter]
        · rw [if_neg unicode] at taken
          cases taken
  | hex left =>
      simp only at taken
      obtain ⟨left, rfl⟩ := Nat.exists_eq_add_of_lt (some_left left rfl)
      rw [Nat.zero_add] at taken ⊢
      by_cases digit : isAsciiHexDigit byte
      · rw [if_pos digit] at taken
        have after_eq := congrArg Prod.fst taken
        simp only at after_eq
        rw [← after_eq]
        refine .inr ⟨_, stringOn_goesOn fun kind rest => ?_⟩
        rw [StringAfter, hexAfter_succ_cons, ← isAsciiHexDigit_iff]
        simp only [digit, true_and]
        split_ifs with last
        · obtain rfl : left = 0 := by omega
          exact hexAfter_zero
        · rfl
      · rw [if_neg digit] at taken
        cases taken

/-- The ways a byte is taken. -/
inductive Moves (decoder : Decoder) (byte : UInt8) : Decoder → Prop
  | outside {after : Decoder} (untoken : decoder.token = .none)
      (outside : Outside { decoder with frame := decoder.frame ++ [byte] } byte after) :
      Moves decoder byte after
  | stringEnd {key : Bool} (token : decoder.token = .str key .plain) (quote : byte = 0x22) :
      Moves decoder byte
        ({ decoder with frame := decoder.frame ++ [byte], token := .none }.stringDone key)
  | string {after : Decoder} {key : Bool} {escape next : Escape} (token : decoder.token = .str key escape)
      (goes_on : GoesOn { decoder with frame := decoder.frame ++ [byte] } byte key escape next after) :
      Moves decoder byte after
  | atom {start : Nat} (token : decoder.token = .atom start) (not_delimiter : isDelimiter byte = false) :
      Moves decoder byte { decoder with frame := decoder.frame ++ [byte] }
  | atomEnd {after : Decoder} {start : Nat} (token : decoder.token = .atom start)
      (delimiter : isDelimiter byte = true) (atom : IsAtom (decoder.frame.drop start))
      (outside : Outside ({ decoder with frame := decoder.frame ++ [byte], token := .none }.valueDone
        decoder.frame.length) byte after) :
      Moves decoder byte after

/-- What finishing a literal or number before a byte comes to. -/
theorem finishAtom_pushed (decoder : Decoder) (byte : UInt8) (start : Nat) :
    { decoder with frame := decoder.frame ++ [byte] }.finishAtom start decoder.frame.length =
      if validAtom (decoder.frame.drop start) then
        ({ decoder with frame := decoder.frame ++ [byte], token := .none }.valueDone
          decoder.frame.length, none)
      else ({ decoder with frame := decoder.frame ++ [byte] }, some .malformed) := by
  rw [Decoder.finishAtom]
  simp only [List.take_left]

theorem moves_of_taken {decoder after : Decoder} {byte : UInt8} (fits : Fits decoder)
    (taken : decoder.feed byte = (after, none)) : Moves decoder byte after := by
  unfold Decoder.feed Decoder.advance at taken
  cases token : decoder.token with
  | none =>
      simp only [token] at taken
      rw [← token] at taken
      exact .outside token (outside_between taken)
  | str key escape =>
      simp only [token] at taken
      rw [← token] at taken
      have some_left : ∀ left, escape = .hex left → 0 < left := by
        rintro left rfl
        exact fits.hex key left token
      rcases stringByte_cases some_left taken with ⟨quote, rfl, rfl⟩ | ⟨next, goes_on⟩
      · exact .stringEnd token quote
      · exact .string token goes_on
  | atom start =>
      simp only [token] at taken
      rw [← token] at taken
      by_cases delimiter : isDelimiter byte = true
      · rw [if_pos delimiter, List.length_append, List.length_singleton, Nat.add_sub_cancel,
          finishAtom_pushed] at taken
        by_cases valid : validAtom (decoder.frame.drop start)
        · rw [if_pos valid] at taken
          exact .atomEnd token delimiter ((validAtom_iff _).mp valid) (outside_between taken)
        · rw [if_neg valid] at taken
          cases taken
      · rw [if_neg delimiter] at taken
        cases taken
        exact .atom token (by simpa using delimiter)

theorem Reached.moves {decoder after : Decoder} {byte : UInt8} (reached : Reached decoder)
    (taken : decoder.feed byte = (after, none)) : Moves decoder byte after :=
  moves_of_taken reached.follows.fits taken

/-! ## Literals and numbers that are not over -/

theorem outside_atom {decoder after : Decoder} (untoken : decoder.token = .none) {byte : UInt8}
    (outside : Outside decoder byte after) {start : Nat} (token : after.token = .atom start) :
    (decoder.expect = .value ∨ decoder.expect = .valueOrEnd) ∧ start = decoder.frame.length - 1 ∧
      IsAtomStart byte := by
  cases outside with
  | token expects starts =>
      rcases starts with ⟨-, rfl⟩ | ⟨starts, rfl⟩
      · cases token
      · cases token
        exact ⟨expects, rfl, starts⟩
  | key => cases token
  | _ => exact absurd (untoken.symm.trans token) (by simp)

/-- A literal or number that is read goes on, or it starts where a value is expected. -/
theorem Moves.to_atom {decoder after : Decoder} {byte : UInt8} (moves : Moves decoder byte after)
    {start : Nat} (token : after.token = .atom start) :
    decoder.token = .atom start ∧ isDelimiter byte = false ∨
      decoder.ExpectsValue ∧ start = decoder.frame.length ∧ IsAtomStart byte := by
  cases moves with
  | outside untoken outside =>
      have untoken' : ({ decoder with frame := decoder.frame ++ [byte] } : Decoder).token = .none := untoken
      obtain ⟨expects, start_eq, starts⟩ := outside_atom untoken' outside token
      refine .inr ⟨⟨untoken, expects⟩, ?_, starts⟩
      rw [start_eq, List.length_append, List.length_singleton, Nat.add_sub_cancel]
  | @stringEnd key =>
      unfold Decoder.stringDone at token
      split_ifs at token
      cases token
  | string _ goes_on =>
      obtain ⟨keyHead, keyLen, rfl, -⟩ := goes_on.after_eq
      cases token
  | atom before not_delimiter => exact .inl ⟨token, not_delimiter⟩
  | atomEnd _ _ _ outside =>
      have starts := (outside_atom (by rfl) outside token).1
      rw [Decoder.valueDone] at starts
      simp only at starts
      split_ifs at starts <;> simp at starts

theorem Decoder.ExpectsValue.awaits {decoder : Decoder} (expects : decoder.ExpectsValue)
    (follows : Follows decoder) {depth : Nat} (deep : maxDepth ≤ depth) : Awaits depth decoder.frame := by
  intro space value spaces isValue
  obtain ⟨rest, after⟩ := exists_after depth decoder.stack
  have spaced : Spaced (ValueAfter depth decoder.stack) (space ++ (value ++ rest)) :=
    ⟨space, _, rfl, spaces, value, rest, rfl, isValue.mono (Nat.zero_le _), after⟩
  refine ⟨rest, ?_⟩
  rw [List.append_assoc, List.append_assoc, follows.text_iff depth deep, Remaining, expects.1]
  rcases expects.2 with expect | expect
  · rw [expect]
    exact spaced
  · rw [expect]
    exact .inr spaced

/-- A space and two quotes stand only outside strings, literals and numbers. -/
theorem token_of_quotes {decoder : Decoder} (fits : Fits decoder) {depth : Nat} {rest : List UInt8}
    (remaining : Remaining depth decoder (0x20 :: 0x22 :: 0x22 :: rest)) : decoder.token = .none := by
  have not_after (rest : List UInt8) : ¬After depth decoder.stack (0x22 :: rest) :=
    fun after => absurd (after_head after) (by decide)
  cases token : decoder.token with
  | none => rfl
  | str key escape =>
      rw [remaining_str depth token] at remaining
      cases escape with
      | plain =>
          rw [StringAfter, bodyAfter_cons, bodyAfter_cons] at remaining
          cases key with
          | true => simp [NextAfter, colonAfter_cons, IsSpaceByte] at remaining
          | false => simp [NextAfter, not_after rest] at remaining
      | slash =>
          rw [slashAfter_cons] at remaining
          simp [escapable] at remaining
      | hex left =>
          obtain ⟨left, rfl⟩ := Nat.exists_eq_add_of_lt (fits.hex key left token)
          rw [Nat.zero_add] at remaining
          exact absurd (hexAfter_succ_cons.mp remaining).1 (by decide)
  | atom start =>
      have not_newline : (0x20 : UInt8) ≠ 0x0a := by decide
      have delimiter : isDelimiter 0x20 = true := by decide
      rw [remaining_atom depth token, atomAfter_cons not_newline, if_pos delimiter] at remaining
      exact absurd ((wanted_of_space .commaOrEnd _ (.inl rfl)).mp remaining.2) (not_after _)

/-- Only where a value is expected may any value stand. -/
theorem expectsValue_of_awaits {decoder : Decoder} (follows : Follows decoder) {depth : Nat}
    (deep : maxDepth ≤ depth) (awaits : Awaits depth decoder.frame) : decoder.ExpectsValue := by
  have token : decoder.token = .none := by
    obtain ⟨rest, text⟩ := awaits [0x20] [0x22, 0x22] (by simp [Spaces]) (.string isString_empty)
    have remaining := (follows.text_iff depth deep (0x20 :: 0x22 :: 0x22 :: rest)).mp (by simpa using text)
    exact token_of_quotes follows.fits remaining
  obtain ⟨rest, text⟩ := awaits [] [0x30] spaces_nil (.atom (.inr (.inr (.inr isNumber_zero))))
  have zero_stands := (follows.text_iff depth deep (0x30 :: rest)).mp (by simpa using text)
  have not_after : ¬After depth decoder.stack (0x30 :: rest) :=
    fun after => absurd (after_head after) (by decide)
  rw [remaining_none depth token] at zero_stands
  refine ⟨token, ?_⟩
  cases expect : decoder.expect with
  | value => exact .inl rfl
  | valueOrEnd => exact .inr rfl
  | keyOrEnd =>
      rw [expect] at zero_stands
      simp [Wanted, spaced_cons, closingAfter_cons, keyAfter_cons, IsSpaceByte] at zero_stands
  | key =>
      rw [expect] at zero_stands
      simp [Wanted, spaced_cons, keyAfter_cons, IsSpaceByte] at zero_stands
  | colon =>
      rw [expect] at zero_stands
      simp [Wanted, colonAfter_cons, IsSpaceByte] at zero_stands
  | commaOrEnd =>
      rw [expect] at zero_stands
      exact absurd zero_stands not_after
  | done =>
      rw [expect] at zero_stands
      exact absurd zero_stands not_after

theorem Reached.fed {decoder after : Decoder} {byte : UInt8} (reached : Reached decoder)
    (reached' : Reached after) (frame_eq : after.frame = decoder.frame ++ [byte]) :
    decoder.feed byte = (after, none) := by
  cases reached' with
  | new => exact absurd frame_eq.symm (List.append_ne_nil_of_right_ne_nil _ (by simp))
  | @more before after byte' reached' _ taken =>
      have fed := frame_feed before byte'
      rw [taken] at fed
      obtain ⟨same_frame, same_byte⟩ := List.append_inj' (fed.symm.trans frame_eq) rfl
      cases same_byte
      rwa [← reached'.unique reached same_frame]

theorem begun_concat {atom : List UInt8} (begun : Begun atom) {byte : UInt8}
    (not_delimiter : isDelimiter byte = false) : Begun (atom ++ [byte]) := by
  obtain ⟨first, rest, rfl, start, plain⟩ := begun
  refine ⟨first, rest ++ [byte], rfl, start, ?_⟩
  intro other other_mem
  rcases List.mem_append.mp other_mem with earlier | last
  · exact plain other earlier
  · rwa [List.mem_singleton.mp last]

/-- A literal or number that is read started where a value is expected. -/
theorem Reached.begun {decoder : Decoder} (reached : Reached decoder) {start : Nat}
    (token : decoder.token = .atom start) :
    ∃ front atom, Reached front ∧ front.ExpectsValue ∧ decoder.frame = front.frame ++ atom ∧
      start = front.frame.length ∧ Begun atom := by
  induction reached with
  | new => cases token
  | @more before after byte reached _ taken ih =>
      have fed := frame_feed before byte
      rw [taken] at fed
      rcases (reached.moves taken).to_atom token with ⟨before_token, not_delimiter⟩ | ⟨expects, rfl, start⟩
      · obtain ⟨front, atom, front_reached, expects, frame_eq, start_eq, begun⟩ := ih before_token
        refine ⟨front, atom ++ [byte], front_reached, expects, ?_, start_eq, begun_concat begun not_delimiter⟩
        rw [fed, frame_eq, List.append_assoc]
      · refine ⟨before, [byte], reached, expects, fed, rfl, byte, [], rfl, start, ?_⟩
        simpa using (plain_of_isAtomStart start).1

theorem reached_atom {decoder : Decoder} (reached : Reached decoder) {start : Nat}
    (token : decoder.token = .atom start) {rest : List UInt8} (no_newline : 0x0a ∉ rest)
    (plain : ∀ byte ∈ rest, isDelimiter byte = false) :
    Reached { decoder with frame := decoder.frame ++ rest } := by
  induction rest generalizing decoder with
  | nil =>
      rw [List.append_nil]
      exact reached
  | cons byte rest ih =>
      obtain ⟨not_delimiter, plain⟩ := List.forall_mem_cons.mp plain
      rw [List.mem_cons, not_or] at no_newline
      have next : Reached { decoder with frame := decoder.frame ++ [byte] } :=
        .more reached (Ne.symm no_newline.1) (feed_atom token not_delimiter)
      have after := ih next token no_newline.2 plain
      rwa [List.append_assoc, List.singleton_append] at after

theorem reached_begun {decoder : Decoder} (reached : Reached decoder) (expects : decoder.ExpectsValue)
    {atom : List UInt8} (begun : Begun atom) (no_newline : 0x0a ∉ atom) :
    ∃ after, Reached after ∧ after.frame = decoder.frame ++ atom := by
  obtain ⟨first, rest, rfl, start, plain⟩ := begun
  rw [List.mem_cons, not_or] at no_newline
  obtain ⟨next, taken, token, -⟩ := feed_atomStart expects start
  have fed := frame_feed decoder first
  rw [taken] at fed
  have next_reached : Reached next := .more reached (Ne.symm no_newline.1) taken
  have after := reached_atom next_reached token no_newline.2 (List.forall_mem_cons.mp plain).2
  refine ⟨_, after, ?_⟩
  rw [fed, List.append_assoc, List.singleton_append]

/-- What was taken is tolerable. -/
theorem Reached.tolerable {decoder : Decoder} (reached : Reached decoder) {depth : Nat}
    (deep : maxDepth ≤ depth) : Tolerable depth decoder.frame := by
  by_cases no_atom : ∀ start, decoder.token ≠ .atom start
  · obtain ⟨rest, remaining⟩ := exists_remaining no_atom depth
    exact .inl ⟨rest, (reached.follows.text_iff depth deep rest).mpr remaining⟩
  · push Not at no_atom
    obtain ⟨start, token⟩ := no_atom
    obtain ⟨front, atom, front_reached, expects, frame_eq, -, begun⟩ := reached.begun token
    exact .inr ⟨front.frame, atom, frame_eq, expects.awaits front_reached.follows deep, begun⟩

theorem reached_of_viable {bytes : List UInt8} (no_newline : 0x0a ∉ bytes)
    (viable : Viable maxDepth bytes) : ∃ decoder, Reached decoder ∧ decoder.frame = bytes := by
  induction bytes using List.reverseRecOn with
  | nil => exact ⟨.new, .new, rfl⟩
  | append_singleton bytes byte ih =>
      obtain ⟨rest, text⟩ := viable
      rw [List.mem_append, List.mem_singleton, not_or] at no_newline
      obtain ⟨no_newline, not_newline⟩ := no_newline
      have earlier : Viable maxDepth bytes := ⟨[byte] ++ rest, by rwa [← List.append_assoc]⟩
      obtain ⟨decoder, reached, rfl⟩ := ih no_newline earlier
      have remaining := (text_cons_iff reached.follows le_rfl rest).mp text
      have judges := reached.follows.judges (Ne.symm not_newline) le_rfl
      cases result : decoder.feed byte with
      | mk after faulted =>
          rw [result] at judges
          have fed := frame_feed decoder byte
          rw [result] at fed
          cases faulted with
          | none => exact ⟨after, .more reached (Ne.symm not_newline) result, fed⟩
          | some kind =>
              cases kind with
              | tooLarge => exact absurd rfl judges.not_too_large
              | tooDeep => exact absurd remaining ((judges.too_deep rfl).1 rfl rest)
              | malformed => exact absurd remaining (judges.malformed rfl rest)

/-- What is tolerable is taken. -/
theorem reached_of_tolerable {bytes : List UInt8} (no_newline : 0x0a ∉ bytes)
    (tolerable : Tolerable maxDepth bytes) : ∃ decoder, Reached decoder ∧ decoder.frame = bytes := by
  rcases tolerable with viable | ⟨front, atom, rfl, awaits, begun⟩
  · exact reached_of_viable no_newline viable
  · rw [List.mem_append, not_or] at no_newline
    obtain ⟨rest, text⟩ := awaits [] [0x30] spaces_nil (.atom (.inr (.inr (.inr isNumber_zero))))
    have viable : Viable maxDepth front := ⟨[0x30] ++ rest, by simpa using text⟩
    obtain ⟨decoder, reached, rfl⟩ := reached_of_viable no_newline.1 viable
    exact reached_begun reached (expectsValue_of_awaits reached.follows le_rfl awaits) begun no_newline.2

theorem Tolerable.mono {depth depth' : Nat} {bytes : List UInt8} (tolerable : Tolerable depth bytes)
    (deeper : depth ≤ depth') : Tolerable depth' bytes := by
  have viable_mono {bytes : List UInt8} (viable : Viable depth bytes) : Viable depth' bytes :=
    viable.imp fun rest text => text.mono deeper
  rcases tolerable with viable | ⟨front, atom, rfl, awaits, begun⟩
  · exact .inl (viable_mono viable)
  · exact .inr ⟨front, atom, rfl,
      fun space value spaces isValue => viable_mono (awaits space value spaces isValue), begun⟩

/-- A byte that is refused leaves nothing tolerable but what is viable. -/
theorem viable_of_refused {decoder after : Decoder} (reached : Reached decoder) {byte : UInt8}
    (not_newline : byte ≠ 0x0a) {kind : FaultKind} (refused : decoder.feed byte = (after, some kind))
    {depth : Nat} (deep : maxDepth ≤ depth) (tolerable : Tolerable depth (decoder.frame ++ [byte])) :
    Viable depth (decoder.frame ++ [byte]) := by
  rcases tolerable with viable | ⟨front, atom, frame_eq, awaits, begun⟩
  · exact viable
  · obtain ⟨atom, last, rfl⟩ : ∃ atom' last, atom = atom' ++ [last] := by
      obtain ⟨first, rest, rfl, -, -⟩ := begun
      exact ⟨_, _, (List.dropLast_append_getLast (List.cons_ne_nil first rest)).symm⟩
    rw [← List.append_assoc] at frame_eq
    obtain ⟨same_frame, same_byte⟩ := List.append_inj' frame_eq rfl
    cases same_byte
    obtain ⟨before, before_reached, rfl⟩ := reached.start same_frame
    have expects := expectsValue_of_awaits before_reached.follows deep awaits
    have no_newline : 0x0a ∉ atom ++ [byte] := by
      have none_taken := reached.no_newline
      rw [same_frame, List.mem_append, not_or] at none_taken
      rw [List.mem_append, List.mem_singleton, not_or]
      exact ⟨none_taken.2, Ne.symm not_newline⟩
    obtain ⟨next, next_reached, next_frame⟩ := reached_begun before_reached expects begun no_newline
    have taken := reached.fed next_reached (by rw [next_frame, same_frame, List.append_assoc])
    rw [taken] at refused
    cases refused

end Baley.Mcp.Frame
