import Baley.Mcp.Atom

/-!
# What may still follow

For each state of the decoder the rests of a line that complete a text.  A byte that is taken leaves
just the rests that it started, and a byte that is refused started none.
-/

namespace Baley.Mcp.Frame

open Json.Grammar

/-! ## Rests -/

/-- A rest of one kind after whitespace. -/
def Spaced (kind : List UInt8 → Prop) (rest : List UInt8) : Prop :=
  ∃ space tail, rest = space ++ tail ∧ Spaces space ∧ kind tail

/-- What may follow a value within the open containers. -/
def After (depth : Nat) : List Open → List UInt8 → Prop
  | [], rest => Spaces rest
  | .array :: stack, rest =>
      ∃ items tail, rest = items ++ 0x5d :: tail ∧ MoreItems (depth - (stack.length + 1)) items ∧
        After depth stack tail
  | .object :: stack, rest =>
      ∃ members tail, rest = members ++ 0x7d :: tail ∧
        MoreMembers (depth - (stack.length + 1)) members ∧ After depth stack tail

def ValueAfter (depth : Nat) (stack : List Open) (rest : List UInt8) : Prop :=
  ∃ value tail, rest = value ++ tail ∧ IsValue (depth - stack.length) value ∧ After depth stack tail

def ColonAfter (depth : Nat) (stack : List Open) : List UInt8 → Prop :=
  Spaced fun rest => ∃ tail, rest = 0x3a :: tail ∧ Spaced (ValueAfter depth stack) tail

def KeyAfter (depth : Nat) (stack : List Open) (rest : List UInt8) : Prop :=
  ∃ key tail, rest = key ++ tail ∧ IsString key ∧ ColonAfter depth stack tail

/-- A closing byte of the innermost container. -/
def ClosingAfter (closing : UInt8) (depth : Nat) (stack : List Open) (rest : List UInt8) : Prop :=
  ∃ tail, rest = closing :: tail ∧ After depth stack.tail tail

/-- The rest of an atom of which some bytes were read. -/
def AtomAfter (depth : Nat) (stack : List Open) (atom rest : List UInt8) : Prop :=
  ∃ more tail, rest = more ++ tail ∧ IsAtom (atom ++ more) ∧ After depth stack tail

def BodyAfter (next : List UInt8 → Prop) (rest : List UInt8) : Prop :=
  ∃ body tail, rest = body ++ tail ∧ IsBody body ∧ next tail

def HexAfter (left : Nat) (next : List UInt8 → Prop) (rest : List UInt8) : Prop :=
  ∃ digits tail, rest = digits ++ tail ∧ digits.length = left ∧
    (∀ digit ∈ digits, IsHexDigit digit) ∧ BodyAfter next tail

/-- The rest of a string and what may follow it. -/
def StringAfter (next : List UInt8 → Prop) : Escape → List UInt8 → Prop
  | .plain => BodyAfter next
  | .slash => fun rest =>
      ∃ byte tail, rest = byte :: tail ∧
        (byte ∈ escapable ∧ BodyAfter next tail ∨ byte = 0x75 ∧ HexAfter 4 next tail)
  | .hex left => HexAfter left next

/-- What is expected outside strings and atoms. -/
def Wanted (depth : Nat) (stack : List Open) : Expect → List UInt8 → Prop
  | .value => Spaced (ValueAfter depth stack)
  | .valueOrEnd => fun rest =>
      Spaced (ClosingAfter 0x5d depth stack) rest ∨ Spaced (ValueAfter depth stack) rest
  | .keyOrEnd => fun rest =>
      Spaced (ClosingAfter 0x7d depth stack) rest ∨ Spaced (KeyAfter depth stack) rest
  | .key => Spaced (KeyAfter depth stack)
  | .colon => ColonAfter depth stack
  | .commaOrEnd => After depth stack
  | .done => After depth stack

/-- What may follow the bytes read so far, with at most so many containers around each other. -/
def Remaining (depth : Nat) (decoder : Decoder) : List UInt8 → Prop :=
  match decoder.token with
  | .none => Wanted depth decoder.stack decoder.expect
  | .str key escape =>
      StringAfter (if key then ColonAfter depth decoder.stack else After depth decoder.stack) escape
  | .atom start => AtomAfter depth decoder.stack (decoder.frame.drop start)

/-! ## The first byte of a rest -/

section FirstByte

variable {depth : Nat} {stack : List Open} {byte : UInt8} {rest : List UInt8}

def IsSpaceByte (byte : UInt8) : Prop :=
  byte = 0x20 ∨ byte = 0x09 ∨ byte = 0x0a ∨ byte = 0x0d

instance (byte : UInt8) : Decidable (IsSpaceByte byte) := by
  unfold IsSpaceByte
  infer_instance

theorem spaced_cons {kind : List UInt8 → Prop} :
    Spaced kind (byte :: rest) ↔ IsSpaceByte byte ∧ Spaced kind rest ∨ kind (byte :: rest) := by
  constructor
  · rintro ⟨space, tail, same, spaces, held⟩
    cases space with
    | nil =>
        rw [List.nil_append] at same
        exact .inr (same ▸ held)
    | cons first space =>
        cases same
        obtain ⟨first_space, spaces⟩ := spaces_cons.mp spaces
        exact .inl ⟨first_space, space, tail, rfl, spaces, held⟩
  · rintro (⟨space_byte, space, tail, rfl, spaces, held⟩ | held)
    · exact ⟨byte :: space, tail, rfl, spaces_cons.mpr ⟨space_byte, spaces⟩, held⟩
    · exact ⟨[], byte :: rest, rfl, spaces_nil, held⟩

theorem spaced_of {kind : List UInt8 → Prop} (held : kind rest) : Spaced kind rest :=
  ⟨[], rest, rfl, spaces_nil, held⟩

theorem moreItems_cons {items : List UInt8} :
    MoreItems depth (byte :: items) ↔
      IsSpaceByte byte ∧ MoreItems depth items ∨
        byte = 0x2c ∧ ∃ after item more, items = after ++ (item ++ more) ∧ Spaces after ∧
          IsValue depth item ∧ MoreItems depth more := by
  constructor
  · intro held
    generalize whole_eq : byte :: items = whole at held
    cases held with
    | done spaces =>
        subst whole_eq
        obtain ⟨space_byte, spaces⟩ := spaces_cons.mp spaces
        exact .inl ⟨space_byte, .done spaces⟩
    | @item _ before after item more before_spaces after_spaces isValue held =>
        cases before with
        | nil =>
            cases whole_eq
            exact .inr ⟨rfl, after, item, more, rfl, after_spaces, isValue, held⟩
        | cons first before =>
            cases whole_eq
            obtain ⟨space_byte, before_spaces⟩ := spaces_cons.mp before_spaces
            exact .inl ⟨space_byte, .item before_spaces after_spaces isValue held⟩
  · rintro (⟨space_byte, held⟩ | ⟨rfl, after, item, more, rfl, after_spaces, isValue, held⟩)
    · cases held with
      | done spaces => exact .done (spaces_cons.mpr ⟨space_byte, spaces⟩)
      | @item _ before after item more before_spaces after_spaces isValue held =>
          exact .item (spaces_cons.mpr ⟨space_byte, before_spaces⟩) after_spaces isValue held
    · exact .item spaces_nil after_spaces isValue held

theorem moreMembers_cons {members : List UInt8} :
    MoreMembers depth (byte :: members) ↔
      IsSpaceByte byte ∧ MoreMembers depth members ∨
        byte = 0x2c ∧ ∃ after member more, members = after ++ (member ++ more) ∧ Spaces after ∧
          IsMember depth member ∧ MoreMembers depth more := by
  constructor
  · intro held
    generalize whole_eq : byte :: members = whole at held
    cases held with
    | done spaces =>
        subst whole_eq
        obtain ⟨space_byte, spaces⟩ := spaces_cons.mp spaces
        exact .inl ⟨space_byte, .done spaces⟩
    | @member _ before after member more before_spaces after_spaces isMember held =>
        cases before with
        | nil =>
            cases whole_eq
            exact .inr ⟨rfl, after, member, more, rfl, after_spaces, isMember, held⟩
        | cons first before =>
            cases whole_eq
            obtain ⟨space_byte, before_spaces⟩ := spaces_cons.mp before_spaces
            exact .inl ⟨space_byte, .member before_spaces after_spaces isMember held⟩
  · rintro (⟨space_byte, held⟩ | ⟨rfl, after, member, more, rfl, after_spaces, isMember, held⟩)
    · cases held with
      | done spaces => exact .done (spaces_cons.mpr ⟨space_byte, spaces⟩)
      | @member _ before after member more before_spaces after_spaces isMember held =>
          exact .member (spaces_cons.mpr ⟨space_byte, before_spaces⟩) after_spaces isMember held
    · exact .member spaces_nil after_spaces isMember held

/-- After an item of an array stand spaces, a comma and the next item, or the closing bracket. -/
theorem after_array_cons :
    After depth (.array :: stack) (byte :: rest) ↔
      IsSpaceByte byte ∧ After depth (.array :: stack) rest ∨
        byte = 0x2c ∧ Spaced (ValueAfter depth (.array :: stack)) rest ∨
          byte = 0x5d ∧ After depth stack rest := by
  constructor
  · rintro ⟨items, tail, same, more, after⟩
    cases items with
    | nil =>
        cases same
        exact .inr (.inr ⟨rfl, after⟩)
    | cons first items =>
        cases same
        rcases moreItems_cons.mp more with
          ⟨space_byte, more⟩ | ⟨rfl, space, item, more', rfl, spaces, isValue, more⟩
        · exact .inl ⟨space_byte, items, tail, rfl, more, after⟩
        · refine .inr (.inl ⟨rfl, space, item ++ (more' ++ 0x5d :: tail), by simp, spaces, item, _, rfl,
            isValue, more', tail, rfl, more, after⟩)
  · rintro (⟨space_byte, items, tail, rfl, more, after⟩ |
      ⟨rfl, space, _, rfl, spaces, item, _, rfl, isValue, items, tail, rfl, more, after⟩ | ⟨rfl, after⟩)
    · exact ⟨byte :: items, tail, rfl, moreItems_cons.mpr (.inl ⟨space_byte, more⟩), after⟩
    · exact ⟨0x2c :: (space ++ (item ++ items)), tail, by simp,
        moreItems_cons.mpr (.inr ⟨rfl, space, item, items, rfl, spaces, isValue, more⟩), after⟩
    · exact ⟨[], rest, rfl, .done spaces_nil, after⟩

/-- After a member of an object stand spaces, a comma and the next member, or the closing brace. -/
theorem after_object_cons :
    After depth (.object :: stack) (byte :: rest) ↔
      IsSpaceByte byte ∧ After depth (.object :: stack) rest ∨
        byte = 0x2c ∧ Spaced (KeyAfter depth (.object :: stack)) rest ∨
          byte = 0x7d ∧ After depth stack rest := by
  constructor
  · rintro ⟨members, tail, same, more, after⟩
    cases members with
    | nil =>
        cases same
        exact .inr (.inr ⟨rfl, after⟩)
    | cons first members =>
        cases same
        rcases moreMembers_cons.mp more with
          ⟨space_byte, more⟩ | ⟨rfl, space, member, more', rfl, spaces, isMember, held⟩
        · exact .inl ⟨space_byte, members, tail, rfl, more, after⟩
        · cases isMember with
          | @member _ key before between value string before_spaces between_spaces isValue =>
              refine .inr (.inl ⟨rfl, space,
                key ++ (before ++ 0x3a :: (between ++ (value ++ (more' ++ 0x7d :: tail)))),
                by simp, spaces, key, _, rfl, string, before, _, rfl, before_spaces, _, rfl, between, _,
                rfl, between_spaces, value, _, rfl, isValue, more', tail, rfl, held, after⟩)
  · rintro (⟨space_byte, members, tail, rfl, more, after⟩ |
      ⟨rfl, space, _, rfl, spaces, key, _, rfl, string, before, _, rfl, before_spaces, _, rfl, between, _,
        rfl, between_spaces, value, _, rfl, isValue, members, tail, rfl, more, after⟩ | ⟨rfl, after⟩)
    · exact ⟨byte :: members, tail, rfl, moreMembers_cons.mpr (.inl ⟨space_byte, more⟩), after⟩
    · exact ⟨0x2c :: (space ++ (key ++ (before ++ 0x3a :: (between ++ value)) ++ members)), tail,
        by simp, moreMembers_cons.mpr (.inr ⟨rfl, space, _, members, rfl, spaces,
          .member string before_spaces between_spaces isValue, more⟩), after⟩
    · exact ⟨[], rest, rfl, .done spaces_nil, after⟩

theorem after_nil_cons :
    After depth [] (byte :: rest) ↔ IsSpaceByte byte ∧ After depth [] rest :=
  spaces_cons

/-- The bytes a value starts with and what they leave of it. -/
theorem isValue_cons {value : List UInt8} :
    IsValue depth (byte :: value) ↔
      IsAtom (byte :: value) ∨ byte = 0x22 ∧ IsBody value ∨
        byte = 0x5b ∧ (∃ below, depth = below + 1 ∧ ((∃ space, value = space ++ [0x5d] ∧ Spaces space) ∨
          ∃ space item items, value = space ++ (item ++ (items ++ [0x5d])) ∧ Spaces space ∧
            IsValue below item ∧ MoreItems below items)) ∨
        byte = 0x7b ∧ (∃ below, depth = below + 1 ∧ ((∃ space, value = space ++ [0x7d] ∧ Spaces space) ∨
          ∃ space member members, value = space ++ (member ++ (members ++ [0x7d])) ∧ Spaces space ∧
            IsMember below member ∧ MoreMembers below members)) := by
  constructor
  · intro isValue
    generalize whole_eq : byte :: value = whole at isValue
    cases isValue with
    | atom atom => exact .inl (whole_eq ▸ atom)
    | string string =>
        obtain ⟨body, rfl, isBody⟩ := string
        cases whole_eq
        exact .inr (.inl ⟨rfl, isBody⟩)
    | emptyArray spaces =>
        cases whole_eq
        exact .inr (.inr (.inl ⟨rfl, _, rfl, .inl ⟨_, rfl, spaces⟩⟩))
    | array spaces isValue more =>
        cases whole_eq
        exact .inr (.inr (.inl ⟨rfl, _, rfl, .inr ⟨_, _, _, rfl, spaces, isValue, more⟩⟩))
    | emptyObject spaces =>
        cases whole_eq
        exact .inr (.inr (.inr ⟨rfl, _, rfl, .inl ⟨_, rfl, spaces⟩⟩))
    | object spaces first more =>
        cases whole_eq
        exact .inr (.inr (.inr ⟨rfl, _, rfl, .inr ⟨_, _, _, rfl, spaces, first, more⟩⟩))
  · rintro (atom | ⟨rfl, isBody⟩ |
      ⟨rfl, below, rfl, ⟨space, rfl, spaces⟩ | ⟨space, item, items, rfl, spaces, isValue, more⟩⟩ |
      ⟨rfl, below, rfl, ⟨space, rfl, spaces⟩ | ⟨space, member, members, rfl, spaces, first, more⟩⟩)
    · exact .atom atom
    · exact .string ⟨value, rfl, isBody⟩
    · exact .emptyArray spaces
    · exact .array spaces isValue more
    · exact .emptyObject spaces
    · exact .object spaces first more

theorem isValue_ne_nil {value : List UInt8} (isValue : IsValue depth value) : value ≠ [] := by
  rintro rfl
  generalize nothing : ([] : List UInt8) = value at isValue
  cases isValue with
  | atom atom =>
      obtain ⟨first, more, rfl, -⟩ := atom.start
      cases nothing
  | string string =>
      obtain ⟨body, rfl, -⟩ := string
      cases nothing
  | _ => cases nothing

/-- The ways a value can start. -/
theorem valueAfter_cons :
    ValueAfter depth stack (byte :: rest) ↔
      AtomAfter depth stack [byte] rest ∨ byte = 0x22 ∧ BodyAfter (After depth stack) rest ∨
        byte = 0x5b ∧ stack.length < depth ∧ Wanted depth (.array :: stack) .valueOrEnd rest ∨
        byte = 0x7b ∧ stack.length < depth ∧ Wanted depth (.object :: stack) .keyOrEnd rest := by
  constructor
  · rintro ⟨value, tail, same, isValue, after⟩
    obtain ⟨first, value, rfl⟩ := List.exists_cons_of_ne_nil (isValue_ne_nil isValue)
    cases same
    rcases isValue_cons.mp isValue with atom | ⟨rfl, isBody⟩ |
      ⟨rfl, below, below_eq, shape⟩ | ⟨rfl, below, below_eq, shape⟩
    · exact .inl ⟨value, tail, rfl, atom, after⟩
    · exact .inr (.inl ⟨rfl, value, tail, rfl, isBody, after⟩)
    · obtain rfl : below = depth - (stack.length + 1) := by omega
      refine .inr (.inr (.inl ⟨rfl, by omega, ?_⟩))
      rcases shape with ⟨space, rfl, spaces⟩ | ⟨space, item, items, rfl, spaces, isValue, more⟩
      · exact .inl ⟨space, 0x5d :: tail, by simp, spaces, tail, rfl, after⟩
      · exact .inr ⟨space, item ++ (items ++ 0x5d :: tail), by simp, spaces, item, _, rfl, isValue,
          items, tail, rfl, more, after⟩
    · obtain rfl : below = depth - (stack.length + 1) := by omega
      refine .inr (.inr (.inr ⟨rfl, by omega, ?_⟩))
      rcases shape with ⟨space, rfl, spaces⟩ | ⟨space, member, members, rfl, spaces, isMember, more⟩
      · exact .inl ⟨space, 0x7d :: tail, by simp, spaces, tail, rfl, after⟩
      · cases isMember with
        | @member _ key before between value string before_spaces between_spaces held =>
            exact .inr ⟨space, key ++ (before ++ 0x3a :: (between ++ (value ++ (members ++ 0x7d :: tail)))),
              by simp, spaces, key, _, rfl, string, before, _, rfl, before_spaces, _, rfl, between, _,
              rfl, between_spaces, value, _, rfl, held, members, tail, rfl, more, after⟩
  · rintro (⟨value, tail, rfl, atom, after⟩ | ⟨rfl, body, tail, rfl, isBody, after⟩ |
      ⟨rfl, shallow, shape⟩ | ⟨rfl, shallow, shape⟩)
    · exact ⟨byte :: value, tail, rfl, .atom atom, after⟩
    · exact ⟨0x22 :: body, tail, rfl, .string ⟨body, rfl, isBody⟩, after⟩
    · have depth_eq : depth - stack.length = depth - (stack.length + 1) + 1 := by omega
      rcases shape with ⟨space, _, rfl, spaces, tail, rfl, after⟩ |
        ⟨space, _, rfl, spaces, item, _, rfl, isValue, items, tail, rfl, more, after⟩
      · refine ⟨0x5b :: (space ++ [0x5d]), tail, by simp, ?_, after⟩
        rw [depth_eq]
        exact .emptyArray spaces
      · refine ⟨0x5b :: (space ++ (item ++ (items ++ [0x5d]))), tail, by simp, ?_, after⟩
        rw [depth_eq]
        exact .array spaces isValue more
    · have depth_eq : depth - stack.length = depth - (stack.length + 1) + 1 := by omega
      rcases shape with ⟨space, _, rfl, spaces, tail, rfl, after⟩ |
        ⟨space, _, rfl, spaces, key, _, rfl, string, before, _, rfl, before_spaces, _, rfl, between, _,
          rfl, between_spaces, value, _, rfl, isValue, members, tail, rfl, more, after⟩
      · refine ⟨0x7b :: (space ++ [0x7d]), tail, by simp, ?_, after⟩
        rw [depth_eq]
        exact .emptyObject spaces
      · refine ⟨0x7b :: (space ++ (key ++ (before ++ 0x3a :: (between ++ value)) ++ (members ++ [0x7d]))),
          tail, by simp, ?_, after⟩
        rw [depth_eq]
        exact .object spaces (.member string before_spaces between_spaces isValue) more

theorem keyAfter_cons :
    KeyAfter depth stack (byte :: rest) ↔ byte = 0x22 ∧ BodyAfter (ColonAfter depth stack) rest := by
  constructor
  · rintro ⟨_, tail, same, ⟨body, rfl, isBody⟩, after⟩
    cases same
    exact ⟨rfl, body, tail, rfl, isBody, after⟩
  · rintro ⟨rfl, body, tail, rfl, isBody, after⟩
    exact ⟨0x22 :: body, tail, rfl, ⟨body, rfl, isBody⟩, after⟩

theorem closingAfter_cons {closing : UInt8} :
    ClosingAfter closing depth stack (byte :: rest) ↔ byte = closing ∧ After depth stack.tail rest := by
  constructor
  · rintro ⟨tail, same, after⟩
    cases same
    exact ⟨rfl, after⟩
  · rintro ⟨rfl, after⟩
    exact ⟨rest, rfl, after⟩

theorem colonAfter_cons :
    ColonAfter depth stack (byte :: rest) ↔
      IsSpaceByte byte ∧ ColonAfter depth stack rest ∨
        byte = 0x3a ∧ Spaced (ValueAfter depth stack) rest := by
  rw [ColonAfter, spaced_cons]
  refine or_congr_right ⟨?_, ?_⟩
  · rintro ⟨tail, same, spaced⟩
    cases same
    exact ⟨rfl, spaced⟩
  · rintro ⟨rfl, spaced⟩
    exact ⟨rest, rfl, spaced⟩

/-- The ways a string can go on. -/
theorem bodyAfter_cons {next : List UInt8 → Prop} :
    BodyAfter next (byte :: rest) ↔
      byte = 0x22 ∧ next rest ∨ byte = 0x5c ∧ StringAfter next .slash rest ∨
        (0x20 ≤ byte ∧ byte ≠ 0x22 ∧ byte ≠ 0x5c) ∧ BodyAfter next rest := by
  constructor
  · rintro ⟨body, tail, same, isBody, held⟩
    cases isBody with
    | closing =>
        cases same
        exact .inl ⟨rfl, held⟩
    | plain printable not_quote not_backslash isBody =>
        cases same
        exact .inr (.inr ⟨⟨printable, not_quote, not_backslash⟩, _, tail, rfl, isBody, held⟩)
    | escaped escapes isBody =>
        cases same
        exact .inr (.inl ⟨rfl, _, _, rfl, .inl ⟨escapes, _, tail, rfl, isBody, held⟩⟩)
    | unicode four hex isBody =>
        cases same
        exact .inr (.inl ⟨rfl, _, _, rfl, .inr ⟨rfl, _, _, List.append_assoc _ _ _, four, hex, _, tail,
          rfl, isBody, held⟩⟩)
  · rintro (⟨rfl, held⟩ | ⟨rfl, first, _, rfl, ⟨escapes, body, tail, rfl, isBody, held⟩ |
      ⟨rfl, digits, _, rfl, four, hex, body, tail, rfl, isBody, held⟩⟩ |
      ⟨⟨printable, not_quote, not_backslash⟩, body, tail, rfl, isBody, held⟩)
    · exact ⟨[0x22], rest, rfl, .closing, held⟩
    · exact ⟨0x5c :: first :: body, tail, rfl, .escaped escapes isBody, held⟩
    · exact ⟨0x5c :: 0x75 :: (digits ++ body), tail, by simp, .unicode four hex isBody, held⟩
    · exact ⟨byte :: body, tail, rfl, .plain printable not_quote not_backslash isBody, held⟩

theorem slashAfter_cons {next : List UInt8 → Prop} :
    StringAfter next .slash (byte :: rest) ↔
      byte ∈ escapable ∧ BodyAfter next rest ∨ byte = 0x75 ∧ HexAfter 4 next rest := by
  constructor
  · rintro ⟨_, _, ⟨⟩, follows⟩
    exact follows
  · exact fun follows => ⟨byte, rest, rfl, follows⟩

theorem hexAfter_zero {next : List UInt8 → Prop} : HexAfter 0 next rest ↔ BodyAfter next rest := by
  constructor
  · rintro ⟨digits, tail, rfl, none_left, -, body⟩
    obtain rfl := List.length_eq_zero_iff.mp none_left
    exact body
  · exact fun body => ⟨[], rest, rfl, rfl, by simp, body⟩

theorem hexAfter_succ_cons {next : List UInt8 → Prop} {left : Nat} :
    HexAfter (left + 1) next (byte :: rest) ↔ IsHexDigit byte ∧ HexAfter left next rest := by
  constructor
  · rintro ⟨digits, tail, same, count, hex, body⟩
    obtain ⟨first, digits, rfl⟩ := List.exists_cons_of_length_eq_add_one count
    cases same
    obtain ⟨first_hex, hex⟩ := List.forall_mem_cons.mp hex
    exact ⟨first_hex, digits, tail, rfl, by simpa using count, hex, body⟩
  · rintro ⟨first_hex, digits, tail, rfl, count, hex, body⟩
    exact ⟨byte :: digits, tail, rfl, by simpa using count,
      List.forall_mem_cons.mpr ⟨first_hex, hex⟩, body⟩

end FirstByte

end Baley.Mcp.Frame
