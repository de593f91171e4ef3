import Mathlib.Data.List.Infix
import Mathlib.Data.String.Basic
import Baley.Json.Reader

/-!
# Scanning bytes for brackets and strings

A scanner that knows only brackets, quotes, escapes and separators is enough to see where a JSON
text can start inside another.  Its main result is that two concatenations of an object and a value
cannot be shifted against each other.
-/

namespace Json

/-- The UTF-8 bytes of a text. -/
def utf8 (text : Text) : List UInt8 :=
  text.flatMap String.utf8EncodeChar

@[simp]
theorem utf8_nil : utf8 [] = [] := rfl

@[simp]
theorem utf8_append (front back : Text) : utf8 (front ++ back) = utf8 front ++ utf8 back := by
  simp [utf8]

theorem utf8_cons (c : Char) (text : Text) : utf8 (c :: text) = String.utf8EncodeChar c ++ utf8 text := by
  simp [utf8]

/-- UTF-8 loses nothing. -/
theorem utf8_injective : Function.Injective utf8 := by
  intro first second utf8_eq
  have encoded_eq : (String.ofList first).toByteArray = (String.ofList second).toByteArray := by
    simp only [String.toByteArray_ofList, List.utf8Encode]
    exact congrArg List.toByteArray utf8_eq
  exact String.ofList_injective (String.toByteArray_inj.mp encoded_eq)

/-- A character's bytes are told apart from any other character's, whatever follows. -/
theorem utf8_head_inj {c d : Char} {rest rest' : List UInt8}
    (same : String.utf8EncodeChar c ++ rest = String.utf8EncodeChar d ++ rest') :
    c = d ∧ rest = rest' := by
  have decoded := congrArg (fun bytes => bytes.toByteArray.utf8DecodeChar? 0) same
  simp only [List.toByteArray_append, ByteArray.utf8DecodeChar?_utf8EncodeChar_append] at decoded
  obtain rfl := Option.some.inj decoded
  exact ⟨rfl, List.append_cancel_left same⟩

/-- A text whose bytes start another text's starts that text. -/
theorem prefix_of_utf8 {front text : Text} (starts : utf8 front <+: utf8 text) :
    front <+: text := by
  induction front generalizing text with
  | nil => exact List.nil_prefix
  | cons c front ih =>
      obtain ⟨rest, same⟩ := starts
      cases text with
      | nil =>
          rw [utf8_cons, utf8_nil, List.append_assoc] at same
          exact absurd (List.append_eq_nil_iff.mp same).1 String.utf8EncodeChar_ne_nil
      | cons d text =>
          rw [utf8_cons, utf8_cons, List.append_assoc] at same
          obtain ⟨rfl, tail_eq⟩ := utf8_head_inj same
          exact (List.prefix_cons_inj c).mpr (ih ⟨rest, tail_eq⟩)

theorem toNat_ge_of_mem_utf8EncodeChar {c : Char} (wide : 0x80 ≤ c.toNat) {byte : UInt8}
    (byte_mem : byte ∈ String.utf8EncodeChar c) : 0x80 ≤ byte.toNat := by
  have wide_val : 0x80 ≤ c.val.toNat := wide
  simp only [String.utf8EncodeChar] at byte_mem
  split_ifs at byte_mem with one two three
  · omega
  · simp only [List.mem_cons, List.not_mem_nil, or_false] at byte_mem
    rcases byte_mem with rfl | rfl <;> simp <;> omega
  · simp only [List.mem_cons, List.not_mem_nil, or_false] at byte_mem
    rcases byte_mem with rfl | rfl | rfl <;> simp <;> omega
  · simp only [List.mem_cons, List.not_mem_nil, or_false] at byte_mem
    rcases byte_mem with rfl | rfl | rfl | rfl <;> simp <;> omega

theorem utf8EncodeChar_of_lt {c : Char} (narrow : c.toNat < 0x80) :
    String.utf8EncodeChar c = [UInt8.ofNat c.toNat] := by
  have narrow_val : c.val.toNat < 0x80 := narrow
  simp only [String.utf8EncodeChar]
  rw [if_pos (by omega)]
  rfl

/-! ## The scanner -/

/-- Where the scanner stands with respect to strings. -/
inductive Mode where
  | out
  | inside
  | escaped
  | closed
  deriving DecidableEq

/-- What a byte does to the open brackets. -/
inductive Turn where
  | keeps
  | opens
  | closes

/-- What a byte does outside strings and in them; after a closing quote only a separator or a closing
bracket may follow. -/
def Mode.read (mode : Mode) (byte : UInt8) : Option (Mode × Turn) :=
  match mode with
  | .out =>
      if byte = 0x22 then some (.inside, .keeps)
      else if byte = 0x5b ∨ byte = 0x7b then some (.out, .opens)
      else if byte = 0x5d ∨ byte = 0x7d then some (.out, .closes)
      else some (.out, .keeps)
  | .inside =>
      if byte = 0x22 then some (.closed, .keeps)
      else if byte = 0x5c then some (.escaped, .keeps)
      else some (.inside, .keeps)
  | .escaped => some (.inside, .keeps)
  | .closed =>
      if byte = 0x2c ∨ byte = 0x3a then some (.out, .keeps)
      else if byte = 0x5d ∨ byte = 0x7d then some (.out, .closes)
      else none

structure ScanState where
  /-- Position with respect to strings. -/
  mode : Mode
  /-- Brackets open around the position. -/
  depth : Nat
  deriving DecidableEq

namespace ScanState

/-- The number of open brackets after a byte; closing one needs one. -/
def turned (depth : Nat) : Turn → Option Nat
  | .keeps => some depth
  | .opens => some (depth + 1)
  | .closes => if depth = 0 then none else some (depth - 1)

/-- Read one byte. -/
def step (state : ScanState) (byte : UInt8) : Option ScanState := do
  let (mode, turn) ← state.mode.read byte
  let depth ← turned state.depth turn
  some ⟨mode, depth⟩

/-- The same position under `more` further brackets. -/
def under (state : ScanState) (more : Nat) : ScanState :=
  ⟨state.mode, state.depth + more⟩

theorem turned_add {depth after : Nat} {turn : Turn} (turns : turned depth turn = some after)
    (more : Nat) : turned (depth + more) turn = some (after + more) := by
  cases turn with
  | keeps => simpa [turned] using turns
  | opens =>
      obtain rfl := Option.some.inj turns
      simp [turned, Nat.add_right_comm]
  | closes =>
      by_cases empty : depth = 0
      · simp [turned, empty] at turns
      · simp only [turned, empty, if_false, Option.some.injEq] at turns
        have still_open : depth + more ≠ 0 := by omega
        simp only [turned, still_open, if_false, Option.some.injEq]
        omega

theorem step_under {state after : ScanState} {byte : UInt8} (steps : state.step byte = some after)
    (more : Nat) : (state.under more).step byte = some (after.under more) := by
  simp only [step, Option.bind_eq_bind, Option.bind_eq_some_iff] at steps ⊢
  obtain ⟨⟨mode, turn⟩, mode_reads, depth, turns, after_eq⟩ := steps
  obtain rfl := Option.some.inj after_eq
  exact ⟨(mode, turn), mode_reads, depth + more, turned_add turns more, rfl⟩

end ScanState

/-- Read the bytes one after the other. -/
def scan (state : ScanState) (bytes : List UInt8) : Option ScanState :=
  bytes.foldlM ScanState.step state

@[simp]
theorem scan_nil (state : ScanState) : scan state [] = some state := rfl

theorem scan_cons (state : ScanState) (byte : UInt8) (bytes : List UInt8) :
    scan state (byte :: bytes) = (state.step byte).bind fun state => scan state bytes := rfl

theorem scan_append (state : ScanState) (front back : List UInt8) :
    scan state (front ++ back) = (scan state front).bind fun state => scan state back := by
  simp [scan, List.foldlM_append]

theorem scan_under {state after : ScanState} {bytes : List UInt8}
    (scans : scan state bytes = some after) (more : Nat) :
    scan (state.under more) bytes = some (after.under more) := by
  induction bytes generalizing state with
  | nil =>
      obtain rfl := Option.some.inj scans
      rfl
  | cons byte bytes ih =>
      rw [scan_cons] at scans ⊢
      obtain ⟨next, steps, scans⟩ := Option.bind_eq_some_iff.mp scans
      rw [ScanState.step_under steps more]
      exact ih scans

theorem scan_prefix {state after : ScanState} {front back : List UInt8}
    (scans : scan state (front ++ back) = some after) :
    ∃ middle, scan state front = some middle ∧ scan middle back = some after := by
  rw [scan_append] at scans
  exact Option.bind_eq_some_iff.mp scans

/-- The scanner before any byte. -/
def ScanState.start : ScanState := ⟨.out, 0⟩

/-! ## Balanced bytes -/

/-- Scanned from the start, the bytes end at no open bracket and outside a string. -/
def Balanced (bytes : List UInt8) : Prop :=
  ∃ mode, scan .start bytes = some ⟨mode, 0⟩ ∧ (mode = .out ∨ mode = .closed)

theorem balanced_nil : Balanced [] :=
  ⟨.out, rfl, Or.inl rfl⟩

/-- A comma or a colon starts afresh. -/
theorem Balanced.separated {front back : List UInt8} (front_balanced : Balanced front)
    (back_balanced : Balanced back) {separator : UInt8}
    (separates : separator = 0x2c ∨ separator = 0x3a) :
    Balanced (front ++ separator :: back) := by
  obtain ⟨frontMode, front_scans, front_ends⟩ := front_balanced
  obtain ⟨backMode, back_scans, back_ends⟩ := back_balanced
  refine ⟨backMode, ?_, back_ends⟩
  rw [scan_append, front_scans]
  have step_eq : ScanState.step ⟨frontMode, 0⟩ separator = some .start := by
    rcases front_ends with rfl | rfl <;> rcases separates with rfl | rfl <;> rfl
  simp [scan_cons, step_eq, back_scans]

/-- Balanced bytes between an opening and a closing bracket. -/
def Bracketed (bytes : List UInt8) : Prop :=
  ∃ opening body closing, bytes = opening :: (body ++ [closing]) ∧
    (opening = 0x5b ∨ opening = 0x7b) ∧ (closing = 0x5d ∨ closing = 0x7d) ∧ Balanced body

theorem step_opening {opening : UInt8} (opens : opening = 0x5b ∨ opening = 0x7b) :
    ScanState.start.step opening = some (ScanState.start.under 1) := by
  rcases opens with rfl | rfl <;> rfl

theorem Bracketed.scan_eq {bytes : List UInt8} (bracketed : Bracketed bytes) :
    scan .start bytes = some .start := by
  obtain ⟨opening, body, closing, rfl, opens, closes, mode, body_scans, ends⟩ := bracketed
  have under_scans := scan_under body_scans 1
  have close_eq : ScanState.step (ScanState.under ⟨mode, 0⟩ 1) closing = some .start := by
    rcases ends with rfl | rfl <;> rcases closes with rfl | rfl <;> rfl
  rw [scan_cons, step_opening opens]
  simp [scan_append, under_scans, scan_cons, close_eq]

/-- Strictly inside bracketed bytes a bracket is open. -/
theorem Bracketed.depth_pos {bytes front back : List UInt8} (bracketed : Bracketed bytes)
    (bytes_eq : bytes = front ++ back) (front_ne : front ≠ []) (back_ne : back ≠ [])
    {state : ScanState} (scans : scan .start front = some state) : 0 < state.depth := by
  obtain ⟨opening, body, closing, rfl, opens, closes, mode, body_scans, ends⟩ := bracketed
  cases front with
  | nil => exact absurd rfl front_ne
  | cons first front =>
      simp only [List.cons_append, List.cons.injEq] at bytes_eq
      obtain ⟨rfl, body_eq⟩ := bytes_eq
      obtain ⟨back, last, rfl⟩ : ∃ back' last, back = back' ++ [last] :=
        ⟨back.dropLast, back.getLast back_ne, (List.dropLast_append_getLast back_ne).symm⟩
      rw [← List.append_assoc] at body_eq
      obtain ⟨rfl, -⟩ := List.append_inj' body_eq rfl
      obtain ⟨middle, front_scans, -⟩ := scan_prefix body_scans
      rw [scan_cons, step_opening opens] at scans
      have under_scans := scan_under front_scans 1
      rw [Option.bind_some, under_scans] at scans
      obtain rfl := Option.some.inj scans
      exact Nat.succ_pos _

theorem Bracketed.balanced {bytes : List UInt8} (bracketed : Bracketed bytes) : Balanced bytes :=
  ⟨.out, bracketed.scan_eq, Or.inl rfl⟩

/-! ## Strings -/

/-- Bytes of a string's content: scanned inside a string they stay inside it throughout. -/
def StaysInside (bytes : List UInt8) : Prop :=
  scan ⟨.inside, 0⟩ bytes = some ⟨.inside, 0⟩ ∧
    ∀ front back, bytes = front ++ back → ∃ mode, scan ⟨.inside, 0⟩ front = some ⟨mode, 0⟩ ∧
      (mode = .inside ∨ mode = .escaped)

theorem staysInside_nil : StaysInside [] := by
  refine ⟨rfl, ?_⟩
  intro front back bytes_eq
  obtain ⟨rfl, rfl⟩ := List.append_eq_nil_iff.mp bytes_eq.symm
  exact ⟨.inside, rfl, Or.inl rfl⟩

theorem StaysInside.append {first second : List UInt8} (first_stays : StaysInside first)
    (second_stays : StaysInside second) : StaysInside (first ++ second) := by
  constructor
  · rw [scan_append, first_stays.1]
    exact second_stays.1
  · intro front back bytes_eq
    rcases List.append_eq_append_iff.mp bytes_eq with ⟨middle, rfl, second_eq⟩ | ⟨middle, first_eq, rfl⟩
    · rw [scan_append, first_stays.1]
      exact second_stays.2 middle back second_eq
    · exact first_stays.2 front middle first_eq

/-- A byte other than a quote and a backslash. -/
theorem staysInside_singleton {byte : UInt8} (not_quote : byte ≠ 0x22) (not_slash : byte ≠ 0x5c) :
    StaysInside [byte] := by
  have step_eq : ScanState.step ⟨.inside, 0⟩ byte = some ⟨.inside, 0⟩ := by
    simp [ScanState.step, Mode.read, ScanState.turned, not_quote, not_slash]
  constructor
  · simp [scan_cons, step_eq]
  · intro front back bytes_eq
    cases front with
    | nil => exact ⟨.inside, rfl, Or.inl rfl⟩
    | cons first front =>
        simp only [List.cons_append, List.cons.injEq, List.nil_eq, List.append_eq_nil_iff] at bytes_eq
        obtain ⟨rfl, rfl, rfl⟩ := bytes_eq
        exact ⟨.inside, by simp [scan_cons, step_eq], Or.inl rfl⟩

/-- A backslash and the byte it escapes. -/
theorem staysInside_escape (byte : UInt8) : StaysInside [0x5c, byte] := by
  constructor
  · rfl
  · intro front back bytes_eq
    cases front with
    | nil => exact ⟨.inside, rfl, Or.inl rfl⟩
    | cons first front =>
        simp only [List.cons_append, List.cons.injEq] at bytes_eq
        obtain ⟨rfl, bytes_eq⟩ := bytes_eq
        cases front with
        | nil => exact ⟨.escaped, rfl, Or.inr rfl⟩
        | cons second front =>
            simp only [List.cons_append, List.cons.injEq, List.nil_eq,
              List.append_eq_nil_iff] at bytes_eq
            obtain ⟨rfl, rfl, rfl⟩ := bytes_eq
            exact ⟨.inside, rfl, Or.inl rfl⟩

theorem staysInside_of_forall {bytes : List UInt8}
    (ordinary : ∀ byte ∈ bytes, byte ≠ 0x22 ∧ byte ≠ 0x5c) : StaysInside bytes := by
  induction bytes with
  | nil => exact staysInside_nil
  | cons byte bytes ih =>
      obtain ⟨not_quote, not_slash⟩ := ordinary byte (by simp)
      exact (staysInside_singleton not_quote not_slash).append
        (ih fun other other_mem => ordinary other (List.mem_cons_of_mem _ other_mem))

/-- A string's content between quotes. -/
def Quoted (bytes : List UInt8) : Prop :=
  ∃ body, bytes = 0x22 :: (body ++ [0x22]) ∧ StaysInside body

theorem Quoted.balanced {bytes : List UInt8} (quoted : Quoted bytes) : Balanced bytes := by
  obtain ⟨body, rfl, stays⟩ := quoted
  refine ⟨.closed, ?_, Or.inr rfl⟩
  have step_eq : ScanState.start.step 0x22 = some ⟨.inside, 0⟩ := rfl
  rw [scan_cons, step_eq, Option.bind_some, scan_append, stays.1]
  rfl

/-- Strictly inside quoted bytes the scanner is in the string. -/
theorem Quoted.mode_eq {bytes front back : List UInt8} (quoted : Quoted bytes)
    (bytes_eq : bytes = front ++ back) (front_ne : front ≠ []) (back_ne : back ≠ [])
    {state : ScanState} (scans : scan .start front = some state) :
    state.mode = .inside ∨ state.mode = .escaped := by
  obtain ⟨body, rfl, stays⟩ := quoted
  cases front with
  | nil => exact absurd rfl front_ne
  | cons first front =>
      simp only [List.cons_append, List.cons.injEq] at bytes_eq
      obtain ⟨rfl, body_eq⟩ := bytes_eq
      obtain ⟨back, last, rfl⟩ : ∃ back' last, back = back' ++ [last] :=
        ⟨back.dropLast, back.getLast back_ne, (List.dropLast_append_getLast back_ne).symm⟩
      rw [← List.append_assoc] at body_eq
      obtain ⟨rfl, -⟩ := List.append_inj' body_eq rfl
      obtain ⟨mode, front_scans, inside⟩ := stays.2 front back rfl
      have step_eq : ScanState.start.step 0x22 = some ⟨.inside, 0⟩ := rfl
      rw [scan_cons, step_eq, Option.bind_some, front_scans] at scans
      obtain rfl := Option.some.inj scans
      exact inside

/-! ## Values -/

/-- A byte that is neither a quote nor a bracket. -/
def PlainByte (byte : UInt8) : Prop :=
  byte ≠ 0x22 ∧ byte ≠ 0x5b ∧ byte ≠ 0x7b ∧ byte ≠ 0x5d ∧ byte ≠ 0x7d

/-- The shapes the bytes of one value can have. -/
inductive ValueBytes : List UInt8 → Prop
  | bracketed {bytes : List UInt8} (bracketed : Bracketed bytes) : ValueBytes bytes
  | quoted {bytes : List UInt8} (quoted : Quoted bytes) : ValueBytes bytes
  | plain {bytes : List UInt8} (bytes_ne : bytes ≠ []) (plain : ∀ byte ∈ bytes, PlainByte byte) :
      ValueBytes bytes

theorem scan_plain {bytes : List UInt8} (plain : ∀ byte ∈ bytes, PlainByte byte) :
    scan .start bytes = some .start := by
  induction bytes with
  | nil => rfl
  | cons byte bytes ih =>
      obtain ⟨not_quote, not_open, not_brace, not_close, not_end⟩ := plain byte (by simp)
      have step_eq : ScanState.start.step byte = some .start := by
        simp [ScanState.step, ScanState.start, Mode.read, ScanState.turned, not_quote, not_open,
          not_brace, not_close, not_end]
      rw [scan_cons, step_eq]
      exact ih fun other other_mem => plain other (List.mem_cons_of_mem _ other_mem)

theorem ValueBytes.balanced {bytes : List UInt8} (valueBytes : ValueBytes bytes) :
    Balanced bytes := by
  cases valueBytes with
  | bracketed bracketed => exact bracketed.balanced
  | quoted quoted => exact quoted.balanced
  | plain bytes_ne plain => exact ⟨.out, scan_plain plain, Or.inl rfl⟩

theorem ValueBytes.ne_nil {bytes : List UInt8} (valueBytes : ValueBytes bytes) : bytes ≠ [] := by
  cases valueBytes with
  | bracketed bracketed =>
      obtain ⟨opening, body, closing, rfl, _⟩ := bracketed
      exact List.cons_ne_nil _ _
  | quoted quoted =>
      obtain ⟨body, rfl, _⟩ := quoted
      exact List.cons_ne_nil _ _
  | plain bytes_ne _ => exact bytes_ne

/-! ## Alignment -/

/-- An object whose first key starts with an ordinary byte. -/
def Keyed (bytes : List UInt8) : Prop :=
  ∃ letter tail, bytes = 0x7b :: 0x22 :: letter :: tail ∧
    (letter ≠ 0x2c ∧ letter ≠ 0x3a ∧ letter ≠ 0x5d ∧ letter ≠ 0x7d) ∧ Bracketed bytes

theorem step_closed_letter {letter : UInt8} {depth : Nat}
    (ordinary : letter ≠ 0x2c ∧ letter ≠ 0x3a ∧ letter ≠ 0x5d ∧ letter ≠ 0x7d) :
    ScanState.step ⟨.closed, depth⟩ letter = none := by
  obtain ⟨not_comma, not_colon, not_close, not_end⟩ := ordinary
  simp [ScanState.step, Mode.read, not_comma, not_colon, not_close, not_end]

theorem Keyed.bracketed {bytes : List UInt8} (keyed : Keyed bytes) : Bracketed bytes := by
  obtain ⟨_, _, _, _, bracketed⟩ := keyed
  exact bracketed

/-- A keyed object can only start outside strings. -/
theorem Keyed.mode_eq_out {bytes rest : List UInt8} (keyed : Keyed bytes) {state after : ScanState}
    (scans : scan state (bytes ++ rest) = some after) : state.mode = .out := by
  obtain ⟨letter, tail, rfl, ordinary, _⟩ := keyed
  obtain ⟨mode, depth⟩ := state
  have quote_fails : scan ⟨.inside, depth⟩ (0x22 :: letter :: (tail ++ rest)) = none := by
    have quote_eq : ScanState.step ⟨.inside, depth⟩ 0x22 = some ⟨.closed, depth⟩ := rfl
    rw [scan_cons, quote_eq, Option.bind_some, scan_cons, step_closed_letter ordinary]
    rfl
  have brace_fails (brace_eq : ScanState.step ⟨mode, depth⟩ 0x7b = some ⟨.inside, depth⟩) : False := by
    have fails : scan ⟨mode, depth⟩ (0x7b :: 0x22 :: letter :: (tail ++ rest)) = none := by
      rw [scan_cons, brace_eq, Option.bind_some, quote_fails]
    exact absurd (fails.symm.trans scans) (by simp)
  cases mode with
  | out => rfl
  | inside => exact (brace_fails rfl).elim
  | escaped => exact (brace_fails rfl).elim
  | closed => simp [scan_cons, ScanState.step, Mode.read] at scans

/-- No value ends in a keyed object and a value that start at no open bracket. -/
theorem ValueBytes.no_keyed_tail {value front first firstValue : List UInt8}
    (valueBytes : ValueBytes value) (first_keyed : Keyed first)
    (firstValue_bytes : ValueBytes firstValue) (value_eq : value = front ++ (first ++ firstValue))
    (front_scans : scan .start front = some .start) : False := by
  have rest_ne : first ++ firstValue ≠ [] := by
    simp [firstValue_bytes.ne_nil]
  have first_ne : first ≠ [] := by
    obtain ⟨letter, tail, rfl, _⟩ := first_keyed
    exact List.cons_ne_nil _ _
  cases valueBytes with
  | bracketed bracketed =>
      by_cases front_eq : front = []
      · have inner := bracketed.depth_pos (by simpa [front_eq] using value_eq) first_ne
          firstValue_bytes.ne_nil first_keyed.bracketed.scan_eq
        exact absurd inner (by simp [ScanState.start])
      · have inner := bracketed.depth_pos value_eq front_eq rest_ne front_scans
        exact absurd inner (by simp [ScanState.start])
  | quoted quoted =>
      by_cases front_eq : front = []
      · obtain ⟨body, body_eq, _⟩ := quoted
        obtain ⟨letter, tail, rfl, _⟩ := first_keyed
        simp [front_eq, body_eq] at value_eq
      · rcases quoted.mode_eq value_eq front_eq rest_ne front_scans with mode_eq | mode_eq <;>
          simp [ScanState.start] at mode_eq
  | plain _ plain =>
      obtain ⟨letter, tail, rfl, _⟩ := first_keyed
      have quote_plain := plain 0x22 (by simp [value_eq])
      exact quote_plain.1 rfl

/-- Two concatenations of a keyed object and a value never match with a shift. -/
theorem keyed_aligned {shift first firstValue second secondValue : List UInt8}
    (first_keyed : Keyed first) (firstValue_bytes : ValueBytes firstValue)
    (second_keyed : Keyed second) (secondValue_bytes : ValueBytes secondValue)
    (bytes_eq : shift ++ (first ++ firstValue) = second ++ secondValue) : shift = [] := by
  by_contra shift_ne
  obtain ⟨valueMode, value_scans, _⟩ := secondValue_bytes.balanced
  obtain ⟨firstMode, firstValue_scans, _⟩ := firstValue_bytes.balanced
  have total : scan .start (shift ++ (first ++ firstValue)) = some ⟨valueMode, 0⟩ := by
    rw [bytes_eq, scan_append, second_keyed.bracketed.scan_eq]
    exact value_scans
  obtain ⟨⟨mode, depth⟩, shift_scans, rest_scans⟩ := scan_prefix total
  obtain rfl : mode = .out := first_keyed.mode_eq_out rest_scans
  have depth_eq : depth = 0 := by
    have under_first := scan_under first_keyed.bracketed.scan_eq depth
    have under_value := scan_under firstValue_scans depth
    have start_eq : ScanState.start.under depth = ⟨.out, depth⟩ := by
      simp [ScanState.start, ScanState.under]
    rw [start_eq] at under_first
    rw [scan_append, under_first, Option.bind_some] at rest_scans
    have start_under : scan ⟨.out, depth⟩ firstValue = some ⟨firstMode, 0 + depth⟩ := by
      rw [← start_eq]
      exact under_value
    rw [start_under] at rest_scans
    have state_eq := congrArg ScanState.depth (Option.some.inj rest_scans)
    simpa using state_eq
  subst depth_eq
  rcases List.append_eq_append_iff.mp bytes_eq with
    ⟨middle, second_eq, rest_eq⟩ | ⟨middle, shift_eq, value_eq⟩
  · by_cases middle_eq : middle = []
    · have value_eq : secondValue = [] ++ (first ++ firstValue) := by
        simpa [middle_eq] using rest_eq.symm
      exact secondValue_bytes.no_keyed_tail first_keyed firstValue_bytes value_eq rfl
    · have inner := second_keyed.bracketed.depth_pos second_eq shift_ne middle_eq shift_scans
      exact absurd inner (by simp)
  · rw [shift_eq, scan_append, second_keyed.bracketed.scan_eq, Option.bind_some] at shift_scans
    exact secondValue_bytes.no_keyed_tail first_keyed firstValue_bytes value_eq shift_scans

end Json
