import Baley.Mcp.Remaining

/-!
# One byte of a line

What a byte does to what may still follow: a byte that is taken leaves the rests that it started, a
byte that is refused as malformed started none at any depth, and a bracket that is too deep started
one only where more nesting is allowed.
-/

namespace Baley.Mcp.Frame

open Json.Grammar

/-- What always stands of a decoder's stack, expectation and token. -/
structure Fits (decoder : Decoder) : Prop where
  bounded : decoder.stack.length ≤ maxDepth
  inside : decoder.expect = .commaOrEnd → decoder.stack ≠ []
  outside : decoder.expect = .done → decoder.stack = []
  in_array : decoder.expect = .valueOrEnd → decoder.stack.head? = some .array
  in_object : decoder.expect = .keyOrEnd ∨ decoder.expect = .key ∨ decoder.expect = .colon →
    decoder.stack.head? = some .object
  key : ∀ escape, decoder.token = .str true escape → decoder.expect = .keyOrEnd ∨ decoder.expect = .key
  hex : ∀ key left, decoder.token = .str key (.hex left) → 0 < left
  atom : ∀ start, decoder.token = .atom start → start ≤ decoder.frame.length

/-- A byte did what it should to what may follow. -/
structure Judges (depth : Nat) (before : List UInt8 → Prop) (byte : UInt8)
    (result : Decoder × Option FaultKind) : Prop where
  taken : result.2 = none →
    Fits result.1 ∧ ∀ rest, before (byte :: rest) ↔ Remaining depth result.1 rest
  malformed : result.2 = some .malformed → ∀ rest, ¬before (byte :: rest)
  too_deep : result.2 = some .tooDeep → (depth = maxDepth → ∀ rest, ¬before (byte :: rest)) ∧
    (maxDepth < depth → ∃ rest, before (byte :: rest))
  not_too_large : result.2 ≠ some .tooLarge

section Judging

variable {depth : Nat} {before : List UInt8 → Prop} {byte : UInt8} {decoder : Decoder}

theorem judges_taken (fits : Fits decoder)
    (same : ∀ rest, before (byte :: rest) ↔ Remaining depth decoder rest) :
    Judges depth before byte (decoder, none) where
  taken _ := ⟨fits, same⟩
  malformed faulted := by cases faulted
  too_deep faulted := by cases faulted
  not_too_large faulted := by cases faulted

theorem judges_malformed (refused : ∀ rest, ¬before (byte :: rest)) :
    Judges depth before byte (decoder, some .malformed) where
  taken taken := by cases taken
  malformed _ := refused
  too_deep faulted := by cases faulted
  not_too_large faulted := by cases faulted

theorem judges_tooDeep (refused : depth = maxDepth → ∀ rest, ¬before (byte :: rest))
    (deeper : maxDepth < depth → ∃ rest, before (byte :: rest)) :
    Judges depth before byte (decoder, some .tooDeep) where
  taken taken := by cases taken
  malformed faulted := by cases faulted
  too_deep _ := ⟨refused, deeper⟩
  not_too_large faulted := by cases faulted

/-- The same rests are judged alike. -/
theorem Judges.congr {before' : List UInt8 → Prop} {result : Decoder × Option FaultKind}
    (judges : Judges depth before byte result)
    (same : ∀ rest, before' (byte :: rest) ↔ before (byte :: rest)) : Judges depth before' byte result := by
  obtain ⟨taken, malformed, too_deep, not_too_large⟩ := judges
  constructor
  · simpa only [same] using taken
  · simpa only [same] using malformed
  · simpa only [same] using too_deep
  · exact not_too_large

/-! ## Values -/

theorem remaining_valueDone (untoken : decoder.token = .none) (finish : Nat) (rest : List UInt8) :
    Remaining depth (decoder.valueDone finish) rest ↔ After depth decoder.stack rest := by
  rw [Remaining, Decoder.valueDone]
  simp only [untoken]
  cases decoder.stack with
  | nil => rfl
  | cons => rfl

theorem fits_valueDone (decoder : Decoder) (bounded : decoder.stack.length ≤ maxDepth) (untoken : decoder.token = .none)
    (finish : Nat) : Fits (decoder.valueDone finish) := by
  have expect_eq : (decoder.valueDone finish).expect = if decoder.stack.isEmpty then .done else .commaOrEnd :=
    rfl
  have stack_eq : (decoder.valueDone finish).stack = decoder.stack := rfl
  have token_eq : (decoder.valueDone finish).token = .none := untoken
  constructor
  · exact bounded
  · rw [expect_eq, stack_eq]
    rintro expects empty
    simp [empty] at expects
  · rw [expect_eq, stack_eq]
    intro expects
    cases stack_eq' : decoder.stack with
    | nil => rfl
    | cons top stack => simp [stack_eq'] at expects
  · rw [expect_eq]
    intro expects
    split_ifs at expects
  · rw [expect_eq]
    intro expects
    split_ifs at expects <;> simp at expects
  · simp [token_eq]
  · simp [token_eq]
  · simp [token_eq]

theorem atomAfter_start {stack : List Open} {rest : List UInt8}
    (after : AtomAfter depth stack [byte] rest) : IsAtomStart byte := by
  obtain ⟨more, tail, -, atom, -⟩ := after
  obtain ⟨first, rest, same, start⟩ := atom.start
  cases same
  exact start

theorem isAtomStart_iff :
    IsAtomStart byte ↔ byte = 0x2d ∨ isAsciiDigit byte = true ∨ byte = 0x74 ∨ byte = 0x66 ∨ byte = 0x6e := by
  rw [IsAtomStart, isAsciiDigit_iff]

theorem not_isAtomStart : ¬IsAtomStart 0x22 ∧ ¬IsAtomStart 0x5b ∧ ¬IsAtomStart 0x7b := by
  simp [IsAtomStart, IsDigit]

theorem exists_after (depth : Nat) (stack : List Open) : ∃ rest, After depth stack rest := by
  induction stack with
  | nil => exact ⟨[], spaces_nil⟩
  | cons top stack ih =>
      obtain ⟨rest, after⟩ := ih
      cases top with
      | array => exact ⟨0x5d :: rest, [], rest, rfl, .done spaces_nil, after⟩
      | object => exact ⟨0x7d :: rest, [], rest, rfl, .done spaces_nil, after⟩

/-- A value, an array or an object starts, or the byte starts none. -/
theorem judges_startValue (deep : maxDepth ≤ depth) (fits : Fits decoder)
    (untoken : decoder.token = .none) {front : List UInt8} (frame_eq : decoder.frame = front ++ [byte]) :
    Judges depth (ValueAfter depth decoder.stack) byte (decoder.startValue byte) := by
  obtain ⟨bounded, inside, outside, in_array, in_object, -, -, -⟩ := fits
  unfold Decoder.startValue
  simp only
  by_cases bracket : byte = 0x7b ∨ byte = 0x5b
  · rw [if_pos bracket]
    by_cases full : decoder.stack.length = maxDepth
    · rw [if_pos full]
      refine judges_tooDeep ?_ ?_
      · intro depth_eq rest starts
        rcases valueAfter_cons.mp starts with atom | ⟨rfl, -⟩ | ⟨-, shallow, -⟩ | ⟨-, shallow, -⟩
        · rcases bracket with rfl | rfl
          · exact not_isAtomStart.2.2 (atomAfter_start atom)
          · exact not_isAtomStart.2.1 (atomAfter_start atom)
        · exact absurd bracket (by decide)
        · omega
        · omega
      · intro deeper
        obtain ⟨rest, after⟩ := exists_after depth decoder.stack
        rcases bracket with rfl | rfl
        · exact ⟨0x7d :: rest, valueAfter_cons.mpr (.inr (.inr (.inr ⟨by rfl, by omega,
            .inl (spaced_of ⟨rest, rfl, after⟩)⟩)))⟩
        · exact ⟨0x5d :: rest, valueAfter_cons.mpr (.inr (.inr (.inl ⟨by rfl, by omega,
            .inl (spaced_of ⟨rest, rfl, after⟩)⟩)))⟩
    · rw [if_neg full]
      by_cases brace : byte = 0x7b
      · subst brace
        rw [if_pos (by rfl)]
        refine judges_taken ?_ fun rest => ?_
        · exact ⟨by simp; omega, by simp, by simp, by simp, by simp, by simp [untoken],
            by simp [untoken], by simp [untoken]⟩
        · rw [valueAfter_cons, Remaining]
          simp only [untoken]
          constructor
          · rintro (atom | ⟨quote, -⟩ | ⟨bracket, -⟩ | ⟨-, -, wanted⟩)
            · exact absurd (atomAfter_start atom) not_isAtomStart.2.2
            · exact absurd quote (by decide)
            · exact absurd bracket (by decide)
            · exact wanted
          · exact fun wanted => .inr (.inr (.inr ⟨trivial, by omega, wanted⟩))
      · obtain rfl : byte = 0x5b := bracket.resolve_left brace
        rw [if_neg brace]
        refine judges_taken ?_ fun rest => ?_
        · exact ⟨by simp; omega, by simp, by simp, by simp, by simp, by simp [untoken],
            by simp [untoken], by simp [untoken]⟩
        · rw [valueAfter_cons, Remaining]
          simp only [untoken]
          constructor
          · rintro (atom | ⟨quote, -⟩ | ⟨-, -, wanted⟩ | ⟨brace, -⟩)
            · exact absurd (atomAfter_start atom) not_isAtomStart.2.1
            · exact absurd quote (by decide)
            · exact wanted
            · exact absurd brace (by decide)
          · exact fun wanted => .inr (.inr (.inl ⟨trivial, by omega, wanted⟩))
  · rw [if_neg bracket]
    rw [not_or] at bracket
    by_cases starts : byte = 0x22 ∨ byte = 0x2d ∨ isAsciiDigit byte ∨ byte = 0x74 ∨ byte = 0x66 ∨ byte = 0x6e
    · rw [if_pos starts]
      by_cases quote : byte = 0x22
      · subst quote
        refine judges_taken ?_ fun rest => ?_
        · exact ⟨bounded, inside, outside, in_array, in_object, by simp, by simp, by simp⟩
        · rw [valueAfter_cons, Remaining]
          simp only [if_pos]
          constructor
          · rintro (atom | ⟨-, body⟩ | ⟨bracket, -⟩ | ⟨brace, -⟩)
            · exact absurd (atomAfter_start atom) not_isAtomStart.1
            · exact body
            · exact absurd bracket (by decide)
            · exact absurd brace (by decide)
          · exact fun body => .inr (.inl ⟨trivial, body⟩)
      · refine judges_taken ?_ fun rest => ?_
        · refine ⟨bounded, inside, outside, in_array, in_object, by simp [quote], by simp [quote], ?_⟩
          simp only [if_neg quote]
          rintro start ⟨⟩
          exact Nat.sub_le _ _
        · have dropped : decoder.frame.drop (decoder.frame.length - 1) = [byte] := by
            rw [frame_eq, List.length_append, List.length_singleton, Nat.add_sub_cancel, List.drop_left]
          rw [valueAfter_cons, Remaining]
          simp only [if_neg quote, dropped]
          constructor
          · rintro (atom | ⟨quoted, -⟩ | ⟨opens, -⟩ | ⟨opens, -⟩)
            · exact atom
            · exact absurd quoted quote
            · exact absurd opens bracket.2
            · exact absurd opens bracket.1
          · exact .inl
    · rw [if_neg starts]
      refine judges_malformed fun rest follows => ?_
      rcases valueAfter_cons.mp follows with atom | ⟨quoted, -⟩ | ⟨opens, -⟩ | ⟨opens, -⟩
      · exact starts (.inr (isAtomStart_iff.mp (atomAfter_start atom)))
      · exact starts (.inl quoted)
      · exact bracket.2 opens
      · exact bracket.1 opens

/-! ## Bytes outside strings and atoms -/

theorem not_valueAfter {stack : List Open} {rest : List UInt8} (not_start : ¬IsAtomStart byte)
    (opens_none : byte ≠ 0x22 ∧ byte ≠ 0x5b ∧ byte ≠ 0x7b) :
    ¬ValueAfter depth stack (byte :: rest) := by
  intro follows
  rcases valueAfter_cons.mp follows with atom | ⟨quoted, -⟩ | ⟨opens, -⟩ | ⟨opens, -⟩
  · exact not_start (atomAfter_start atom)
  · exact opens_none.1 quoted
  · exact opens_none.2.1 opens
  · exact opens_none.2.2 opens

theorem spaced_of_not_space {kind : List UInt8 → Prop} {rest : List UInt8} (not_space : ¬IsSpaceByte byte) :
    Spaced kind (byte :: rest) ↔ kind (byte :: rest) := by
  rw [spaced_cons]
  exact or_iff_right fun space => not_space space.1

theorem spaced_of_space {kind : List UInt8 → Prop} {rest : List UInt8} (space : IsSpaceByte byte)
    (starts_none : ¬kind (byte :: rest)) : Spaced kind (byte :: rest) ↔ Spaced kind rest := by
  rw [spaced_cons]
  simp [space, starts_none]

theorem IsSpaceByte.starts_none (space : IsSpaceByte byte) :
    ¬IsAtomStart byte ∧ (byte ≠ 0x22 ∧ byte ≠ 0x5b ∧ byte ≠ 0x7b) ∧
      byte ≠ 0x2c ∧ byte ≠ 0x5d ∧ byte ≠ 0x7d ∧ byte ≠ 0x3a := by
  rcases space with rfl | rfl | rfl | rfl <;> simp [IsAtomStart, IsDigit]

theorem wanted_of_space {stack : List Open} (expect : Expect) (rest : List UInt8)
    (space : IsSpaceByte byte) :
    Wanted depth stack expect (byte :: rest) ↔ Wanted depth stack expect rest := by
  obtain ⟨not_start, opens_none, not_comma, not_bracket, not_brace, not_colon⟩ := space.starts_none
  have no_value : ¬ValueAfter depth stack (byte :: rest) := not_valueAfter not_start opens_none
  have no_key : ¬KeyAfter depth stack (byte :: rest) :=
    fun follows => opens_none.1 (keyAfter_cons.mp follows).1
  have no_closing {closing : UInt8} (differs : byte ≠ closing) :
      ¬ClosingAfter closing depth stack (byte :: rest) :=
    fun follows => differs (closingAfter_cons.mp follows).1
  have after : After depth stack (byte :: rest) ↔ After depth stack rest := by
    cases stack with
    | nil => simp [after_nil_cons, space]
    | cons top stack =>
        cases top with
        | array => simp [after_array_cons, space, not_comma, not_bracket]
        | object => simp [after_object_cons, space, not_comma, not_brace]
  cases expect with
  | value => exact spaced_of_space space no_value
  | valueOrEnd =>
      exact or_congr (spaced_of_space space (no_closing not_bracket)) (spaced_of_space space no_value)
  | keyOrEnd =>
      exact or_congr (spaced_of_space space (no_closing not_brace)) (spaced_of_space space no_key)
  | key => exact spaced_of_space space no_key
  | colon => simp [Wanted, colonAfter_cons, space, not_colon]
  | commaOrEnd => exact after
  | done => exact after

/-- The innermost container is closed. -/
theorem judges_close (bounded : decoder.stack.length ≤ maxDepth) (untoken : decoder.token = .none)
    (same : ∀ rest, before (byte :: rest) ↔ After depth decoder.stack.tail rest) :
    Judges depth before byte (decoder.close, none) := by
  have shorter : decoder.stack.tail.length ≤ maxDepth := by
    rw [List.length_tail]
    omega
  have closed : ({ decoder with stack := decoder.stack.tail } : Decoder).token = .none := untoken
  refine judges_taken (fits_valueDone _ shorter closed _) fun rest => ?_
  rw [same, Decoder.close, remaining_valueDone closed]

/-- A key starts. -/
theorem judges_key (fits : Fits decoder) (expects : decoder.expect = .keyOrEnd ∨ decoder.expect = .key)
    (same : ∀ rest, before (byte :: rest) ↔ BodyAfter (ColonAfter depth decoder.stack) rest) :
    Judges depth before byte
      ({ decoder with keyLen := 0, keyHead := (0, 0), token := .str true .plain }, none) :=
  judges_taken ⟨fits.bounded, fits.inside, fits.outside, fits.in_array, fits.in_object,
    fun _ _ => expects, by simp, by simp⟩ same

/-- What a byte other than a space does where no string and no atom is read. -/
theorem judges_structural (deep : maxDepth ≤ depth) (fits : Fits decoder)
    (untoken : decoder.token = .none) {front : List UInt8} (frame_eq : decoder.frame = front ++ [byte])
    (not_space : ¬IsSpaceByte byte) :
    Judges depth (Wanted depth decoder.stack decoder.expect) byte (decoder.structural byte) := by
  have starts := judges_startValue deep fits untoken frame_eq
  have bounded := fits.bounded
  unfold Decoder.structural
  cases expect_eq : decoder.expect with
  | value => exact starts.congr fun rest => spaced_of_not_space not_space
  | valueOrEnd =>
      simp only
      by_cases closes : byte = 0x5d
      · subst closes
        rw [if_pos (by rfl)]
        refine judges_close bounded untoken fun rest => ?_
        simp only [Wanted, spaced_of_not_space not_space, closingAfter_cons]
        have no_value : ¬ValueAfter depth decoder.stack (0x5d :: rest) :=
          not_valueAfter (by simp [IsAtomStart, IsDigit]) (by simp)
        simp [no_value]
      · rw [if_neg closes]
        refine starts.congr fun rest => ?_
        simp only [Wanted, spaced_of_not_space not_space, closingAfter_cons]
        simp [closes]
  | keyOrEnd =>
      simp only
      have wanted_iff (rest : List UInt8) : Wanted depth decoder.stack .keyOrEnd (byte :: rest) ↔
          byte = 0x7d ∧ After depth decoder.stack.tail rest ∨
            byte = 0x22 ∧ BodyAfter (ColonAfter depth decoder.stack) rest := by
        simp only [Wanted, spaced_of_not_space not_space, closingAfter_cons, keyAfter_cons]
      by_cases closes : byte = 0x7d
      · rw [if_pos closes]
        refine judges_close bounded untoken fun rest => ?_
        rw [wanted_iff]
        simp [closes]
      · rw [if_neg closes]
        by_cases quote : byte = 0x22
        · rw [if_pos quote, ← expect_eq]
          refine judges_key fits (.inl expect_eq) fun rest => ?_
          rw [expect_eq, wanted_iff]
          simp [quote]
        · rw [if_neg quote]
          refine judges_malformed fun rest => ?_
          rw [wanted_iff]
          simp [closes, quote]
  | key =>
      simp only
      by_cases quote : byte = 0x22
      · rw [if_pos quote, ← expect_eq]
        refine judges_key fits (.inr expect_eq) fun rest => ?_
        rw [expect_eq, Wanted, spaced_of_not_space not_space, keyAfter_cons]
        simp [quote]
      · rw [if_neg quote]
        refine judges_malformed fun rest => ?_
        rw [Wanted, spaced_of_not_space not_space, keyAfter_cons]
        simp [quote]
  | colon =>
      simp only
      by_cases colon : byte = 0x3a
      · rw [if_pos colon]
        refine judges_taken ?_ fun rest => ?_
        · exact ⟨bounded, by simp, by simp, by simp, by simp, by simp [untoken], by simp [untoken],
            by simp [untoken]⟩
        · rw [Wanted, colonAfter_cons, Remaining]
          simp [colon, untoken, Wanted, IsSpaceByte]
      · rw [if_neg colon]
        refine judges_malformed fun rest => ?_
        rw [Wanted, colonAfter_cons]
        simp [not_space, colon]
  | commaOrEnd =>
      simp only
      obtain ⟨top, stack, stack_eq⟩ := List.exists_cons_of_ne_nil (fits.inside expect_eq)
      have tail_eq : decoder.stack.tail = stack := by rw [stack_eq, List.tail_cons]
      have head_eq : decoder.stack.head? = some top := by rw [stack_eq, List.head?_cons]
      have wanted_iff (rest : List UInt8) : Wanted depth decoder.stack .commaOrEnd (byte :: rest) ↔
          byte = 0x2c ∧ Wanted depth decoder.stack (if top = .object then .key else .value) rest ∨
            byte = 0x7d ∧ top = .object ∧ After depth stack rest ∨
              byte = 0x5d ∧ top = .array ∧ After depth stack rest := by
        rw [Wanted, stack_eq]
        cases top with
        | object => simp [after_object_cons, not_space, Wanted]
        | array => simp [after_array_cons, not_space, Wanted]
      by_cases comma : byte = 0x2c
      · rw [if_pos comma, head_eq]
        refine judges_taken ?_ fun rest => ?_
        · refine ⟨bounded, ?_, ?_, ?_, ?_, by simp [untoken], by simp [untoken], by simp [untoken]⟩
          · simp only
            split_ifs <;> simp
          · simp only
            split_ifs <;> simp
          · simp only
            split_ifs <;> simp
          · cases top with
            | object => exact fun _ => head_eq
            | array => simp
        · rw [wanted_iff, Remaining]
          simp [comma, untoken]
      · rw [if_neg comma]
        by_cases brace : byte = 0x7d ∧ decoder.stack.head? = some .object
        · rw [if_pos brace]
          rw [head_eq, Option.some.injEq] at brace
          refine judges_close bounded untoken fun rest => ?_
          rw [wanted_iff, tail_eq]
          simp [brace]
        · rw [if_neg brace]
          rw [head_eq, Option.some.injEq] at brace
          by_cases bracket : byte = 0x5d ∧ decoder.stack.head? = some .array
          · rw [if_pos bracket]
            rw [head_eq, Option.some.injEq] at bracket
            refine judges_close bounded untoken fun rest => ?_
            rw [wanted_iff, tail_eq]
            simp [bracket]
          · rw [if_neg bracket]
            rw [head_eq, Option.some.injEq] at bracket
            refine judges_malformed fun rest => ?_
            rw [wanted_iff]
            tauto
  | done =>
      refine judges_malformed fun rest => ?_
      rw [Wanted, fits.outside expect_eq, after_nil_cons]
      exact fun follows => not_space follows.1

theorem isSpace_iff (not_newline : byte ≠ 0x0a) : isSpace byte = true ↔ IsSpaceByte byte := by
  simp [isSpace, IsSpaceByte, not_newline, or_assoc]

theorem judges_between (deep : maxDepth ≤ depth) (fits : Fits decoder) (untoken : decoder.token = .none)
    {front : List UInt8} (frame_eq : decoder.frame = front ++ [byte]) (not_newline : byte ≠ 0x0a) :
    Judges depth (Wanted depth decoder.stack decoder.expect) byte (decoder.between byte) := by
  unfold Decoder.between
  by_cases space : isSpace byte
  · rw [if_pos space]
    refine judges_taken fits fun rest => ?_
    rw [wanted_of_space _ _ ((isSpace_iff not_newline).mp space), Remaining]
    simp only [untoken]
  · rw [if_neg space]
    have started : Fits { decoder with started := true } :=
      ⟨fits.bounded, fits.inside, fits.outside, fits.in_array, fits.in_object, fits.key, fits.hex, fits.atom⟩
    exact judges_structural deep started untoken frame_eq (mt (isSpace_iff not_newline).mpr space)

/-! ## Strings -/

/-- What may follow a string. -/
def NextAfter (depth : Nat) (stack : List Open) (key : Bool) : List UInt8 → Prop :=
  if key then ColonAfter depth stack else After depth stack

theorem judges_stringDone (fits : Fits decoder) {key : Bool} {escape : Escape}
    (token_eq : decoder.token = .str key escape)
    (same : ∀ rest, before (byte :: rest) ↔ NextAfter depth decoder.stack key rest) :
    Judges depth before byte ({ decoder with token := .none }.stringDone key, none) := by
  unfold Decoder.stringDone
  cases key with
  | true =>
      have in_object := fits.in_object ((fits.key escape token_eq).imp_right .inl)
      exact judges_taken ⟨fits.bounded, by simp, by simp, by simp, fun _ => in_object, by simp, by simp,
        by simp⟩ same
  | false =>
      have untoken : ({ decoder with token := .none } : Decoder).token = .none := rfl
      refine judges_taken (fits_valueDone { decoder with token := .none } fits.bounded untoken _)
        fun rest => ?_
      rw [same]
      exact (remaining_valueDone untoken _ _).symm

theorem judges_stringOn (fits : Fits decoder) {key : Bool} {escape next : Escape}
    (token_eq : decoder.token = .str key escape) (some_left : ∀ left, next = .hex left → 0 < left)
    (same : ∀ rest, before (byte :: rest) ↔ StringAfter (NextAfter depth decoder.stack key) next rest) :
    Judges depth before byte (decoder.stringOn key next) := by
  refine judges_taken ⟨fits.bounded, fits.inside, fits.outside, fits.in_array, fits.in_object, ?_, ?_, ?_⟩
    fun rest => ?_
  · rintro _ ⟨⟩
    exact fits.key escape token_eq
  · rintro _ left ⟨⟩
    exact some_left left rfl
  · rintro start ⟨⟩
  · rw [same]
    rfl

theorem isAsciiHexDigit_iff : isAsciiHexDigit byte = true ↔ IsHexDigit byte := by
  simp [isAsciiHexDigit, isAsciiDigit, IsHexDigit, or_assoc]

theorem printable_iff : ¬byte ≤ 31 ↔ 0x20 ≤ byte := by
  rw [UInt8.le_iff_toNat_le, UInt8.le_iff_toNat_le]
  have thirtyone : (31 : UInt8).toNat = 31 := rfl
  have thirtytwo : (0x20 : UInt8).toNat = 32 := rfl
  omega

theorem fits_noteKey (fits : Fits decoder) (noted : UInt8) :
    Fits (decoder.noteKey noted) ∧ (decoder.noteKey noted).stack = decoder.stack ∧
      (decoder.noteKey noted).token = decoder.token := by
  have same (keyHead : UInt8 × UInt8) : Fits { decoder with keyHead } :=
    ⟨fits.bounded, fits.inside, fits.outside, fits.in_array, fits.in_object, fits.key, fits.hex, fits.atom⟩
  unfold Decoder.noteKey
  split_ifs
  · split
    · exact ⟨same _, rfl, rfl⟩
    · exact ⟨same _, rfl, rfl⟩
    · exact ⟨fits, rfl, rfl⟩
  · exact ⟨fits, rfl, rfl⟩

theorem judges_stringByte (fits : Fits decoder) {key : Bool} {escape : Escape}
    (token_eq : decoder.token = .str key escape) :
    Judges depth (StringAfter (NextAfter depth decoder.stack key) escape) byte
      (decoder.stringByte byte key escape) := by
  unfold Decoder.stringByte
  cases escape with
  | plain =>
      simp only
      by_cases quote : byte = 0x22
      · rw [if_pos quote]
        refine judges_stringDone fits token_eq fun rest => ?_
        simp [StringAfter, bodyAfter_cons, quote]
      · rw [if_neg quote]
        by_cases backslash : byte = 0x5c
        · rw [if_pos backslash]
          refine judges_stringOn fits token_eq (by simp) fun rest => ?_
          rw [StringAfter, bodyAfter_cons]
          simp [backslash]
        · rw [if_neg backslash]
          by_cases control : byte ≤ 31
          · rw [if_pos control]
            refine judges_malformed fun rest => ?_
            rw [StringAfter, bodyAfter_cons, ← printable_iff]
            simp [quote, backslash, control]
          · rw [if_neg control]
            have same (rest : List UInt8) :
                StringAfter (NextAfter depth decoder.stack key) .plain (byte :: rest) ↔
                  StringAfter (NextAfter depth decoder.stack key) .plain rest := by
              rw [StringAfter, bodyAfter_cons, ← printable_iff]
              simp [quote, backslash, control]
            obtain ⟨fits_noted, stack_eq, noted_token⟩ := fits_noteKey fits byte
            cases key with
            | false => exact judges_stringOn fits token_eq (by simp) same
            | true =>
                refine judges_stringOn fits_noted (noted_token.trans token_eq) (by simp) fun rest => ?_
                rw [stack_eq]
                exact same rest
  | slash =>
      simp only
      have escapable_iff : byte ∈ escapable ↔ (byte = 0x22 ∨ byte = 0x5c ∨ byte = 0x2f ∨ byte = 0x62 ∨
          byte = 0x66 ∨ byte = 0x6e ∨ byte = 0x72 ∨ byte = 0x74) := by
        simp [escapable]
      by_cases escapes : byte ∈ escapable
      · rw [if_pos (escapable_iff.mp escapes)]
        refine judges_stringOn fits token_eq (by simp) fun rest => ?_
        have not_unicode : byte ≠ 0x75 := by
          rintro rfl
          exact absurd escapes (by decide)
        rw [slashAfter_cons, StringAfter]
        simp [escapes, not_unicode]
      · rw [if_neg (mt escapable_iff.mpr escapes)]
        by_cases unicode : byte = 0x75
        · rw [if_pos unicode]
          refine judges_stringOn fits token_eq (by simp) fun rest => ?_
          subst unicode
          rw [slashAfter_cons, StringAfter]
          simp [escapes]
        · rw [if_neg unicode]
          refine judges_malformed fun rest => ?_
          rw [slashAfter_cons]
          simp [escapes, unicode]
  | hex left =>
      simp only
      obtain ⟨left, rfl⟩ := Nat.exists_eq_add_of_lt (fits.hex key left token_eq)
      rw [Nat.zero_add] at token_eq ⊢
      by_cases digit : isAsciiHexDigit byte
      · rw [if_pos digit]
        refine judges_stringOn fits token_eq ?_ fun rest => ?_
        · intro more
          split_ifs with last
          · simp
          · rintro ⟨⟩
            omega
        · rw [StringAfter, hexAfter_succ_cons, ← isAsciiHexDigit_iff]
          simp only [digit, true_and]
          split_ifs with last
          · obtain rfl : left = 0 := by omega
            exact hexAfter_zero
          · rfl
      · rw [if_neg digit]
        refine judges_malformed fun rest => ?_
        rw [StringAfter, hexAfter_succ_cons, ← isAsciiHexDigit_iff]
        simp [digit]

/-! ## Atoms -/

theorem after_head {stack : List Open} {rest : List UInt8} (after : After depth stack (byte :: rest)) :
    IsSpaceByte byte ∨ byte = 0x2c ∨ byte = 0x5d ∨ byte = 0x7d := by
  cases stack with
  | nil => exact .inl (after_nil_cons.mp after).1
  | cons top stack =>
      cases top with
      | array =>
          rcases after_array_cons.mp after with ⟨space, -⟩ | ⟨comma, -⟩ | ⟨bracket, -⟩
          · exact .inl space
          · exact .inr (.inl comma)
          · exact .inr (.inr (.inl bracket))
      | object =>
          rcases after_object_cons.mp after with ⟨space, -⟩ | ⟨comma, -⟩ | ⟨brace, -⟩
          · exact .inl space
          · exact .inr (.inl comma)
          · exact .inr (.inr (.inr brace))

theorem isDelimiter_iff (not_newline : byte ≠ 0x0a) :
    isDelimiter byte = true ↔ IsSpaceByte byte ∨ byte = 0x2c ∨ byte = 0x5d ∨ byte = 0x7d := by
  simp [isDelimiter, isSpace_iff not_newline, or_assoc]

/-- An atom goes on to the next delimiter. -/
theorem atomAfter_cons {stack : List Open} {atom rest : List UInt8} (not_newline : byte ≠ 0x0a) :
    AtomAfter depth stack atom (byte :: rest) ↔
      if isDelimiter byte then IsAtom atom ∧ After depth stack (byte :: rest)
      else AtomAfter depth stack (atom ++ [byte]) rest := by
  split_ifs with delimiter
  · constructor
    · rintro ⟨more, tail, same, isAtom, after⟩
      cases more with
      | nil =>
          rw [List.nil_append] at same
          rw [List.append_nil] at isAtom
          exact ⟨isAtom, same ▸ after⟩
      | cons first more =>
          cases same
          have atom_byte := isAtom.subset byte (by simp)
          rcases (isDelimiter_iff not_newline).mp delimiter with space | rfl | rfl | rfl
          · rcases space with rfl | rfl | rfl | rfl <;> exact absurd atom_byte (by decide)
          · exact absurd atom_byte (by decide)
          · exact absurd atom_byte (by decide)
          · exact absurd atom_byte (by decide)
    · rintro ⟨isAtom, after⟩
      exact ⟨[], byte :: rest, rfl, by rwa [List.append_nil], after⟩
  · constructor
    · rintro ⟨more, tail, same, isAtom, after⟩
      cases more with
      | nil =>
          rw [List.nil_append] at same
          rw [← same] at after
          exact absurd ((isDelimiter_iff not_newline).mpr (after_head after)) delimiter
      | cons first more =>
          cases same
          exact ⟨more, tail, rfl, by simpa using isAtom, after⟩
    · rintro ⟨more, tail, rfl, isAtom, after⟩
      exact ⟨byte :: more, tail, rfl, by simpa using isAtom, after⟩

/-- What one byte does, once the frame holds it. -/
theorem judges_advance (deep : maxDepth ≤ depth) (fits : Fits decoder) (not_newline : byte ≠ 0x0a) :
    Judges depth (Remaining depth decoder) byte
      ({ decoder with frame := decoder.frame ++ [byte] }.advance byte) := by
  obtain ⟨pushed, pushed_eq⟩ : ∃ pushed : Decoder,
      { decoder with frame := decoder.frame ++ [byte] } = pushed := ⟨_, rfl⟩
  have frame_eq : pushed.frame = decoder.frame ++ [byte] := by rw [← pushed_eq]
  have stack_eq : pushed.stack = decoder.stack := by rw [← pushed_eq]
  have expect_eq : pushed.expect = decoder.expect := by rw [← pushed_eq]
  have token_eq : pushed.token = decoder.token := by rw [← pushed_eq]
  have fits_pushed : Fits pushed := by
    rw [← pushed_eq]
    refine ⟨fits.bounded, fits.inside, fits.outside, fits.in_array, fits.in_object, fits.key, fits.hex, ?_⟩
    intro start token_eq
    have within := fits.atom start token_eq
    simp only [List.length_append, List.length_singleton]
    omega
  rw [pushed_eq, Remaining, ← stack_eq, ← expect_eq, ← token_eq, Decoder.advance]
  cases token : pushed.token with
  | none => exact judges_between deep fits_pushed token frame_eq not_newline
  | str key escape => exact judges_stringByte fits_pushed token
  | atom start =>
      simp only
      have within := fits.atom start (token_eq.symm.trans token)
      by_cases delimiter : isDelimiter byte
      · rw [if_pos delimiter]
        have text_eq : (pushed.frame.take (pushed.frame.length - 1)).drop start = decoder.frame.drop start := by
          rw [frame_eq, List.length_append, List.length_singleton, Nat.add_sub_cancel, List.take_left]
        by_cases valid : validAtom (decoder.frame.drop start)
        · have finished : pushed.finishAtom start (pushed.frame.length - 1) =
              ({ pushed with token := .none }.valueDone (pushed.frame.length - 1), none) := by
            rw [Decoder.finishAtom, text_eq, if_pos valid]
          rw [finished]
          obtain ⟨done, done_eq⟩ : ∃ done,
              ({ pushed with token := .none } : Decoder).valueDone (pushed.frame.length - 1) = done := ⟨_, rfl⟩
          have untoken : ({ pushed with token := .none } : Decoder).token = .none := rfl
          have fits_done : Fits done :=
            done_eq ▸ fits_valueDone { pushed with token := .none } fits_pushed.bounded untoken _
          have done_token : done.token = .none := by rw [← done_eq]; rfl
          have done_frame : done.frame = decoder.frame ++ [byte] := by rw [← done_eq]; exact frame_eq
          have remaining (rest : List UInt8) :
              Wanted depth done.stack done.expect rest ↔ After depth pushed.stack rest := by
            have same := @remaining_valueDone depth _ untoken (pushed.frame.length - 1) rest
            rwa [done_eq, Remaining, done_token] at same
          simp only [done_eq]
          refine (judges_between deep fits_done done_token done_frame not_newline).congr fun rest => ?_
          rw [remaining, atomAfter_cons not_newline, if_pos delimiter]
          exact and_iff_right ((validAtom_iff _).mp valid)
        · have refused : pushed.finishAtom start (pushed.frame.length - 1) = (pushed, some .malformed) := by
            rw [Decoder.finishAtom, text_eq, if_neg valid]
          rw [refused]
          refine judges_malformed fun rest => ?_
          rw [atomAfter_cons not_newline, if_pos delimiter]
          exact fun follows => valid ((validAtom_iff _).mpr follows.1)
      · rw [if_neg delimiter]
        refine judges_taken fits_pushed fun rest => ?_
        rw [atomAfter_cons not_newline, if_neg delimiter, Remaining]
        simp only [token, frame_eq, List.drop_append_of_le_length within]

end Judging

end Baley.Mcp.Frame
