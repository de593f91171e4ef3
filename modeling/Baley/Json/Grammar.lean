import Mathlib.Data.List.TakeDrop
import Mathlib.Data.List.TakeWhile
import Mathlib.Data.UInt

/-!
# The grammar of JSON over bytes

The bytes of one JSON text, with a bound on the nesting of arrays and objects.  A string is judged by
its bytes alone: that they spell characters is left to the encoding.
-/

namespace Json.Grammar

/-! ## Whitespace and strings -/

def Spaces (bytes : List UInt8) : Prop :=
  ∀ byte ∈ bytes, byte = 0x20 ∨ byte = 0x09 ∨ byte = 0x0a ∨ byte = 0x0d

def IsHexDigit (byte : UInt8) : Prop :=
  0x30 ≤ byte ∧ byte ≤ 0x39 ∨ 0x41 ≤ byte ∧ byte ≤ 0x46 ∨ 0x61 ≤ byte ∧ byte ≤ 0x66

instance (byte : UInt8) : Decidable (IsHexDigit byte) := by
  unfold IsHexDigit
  infer_instance

/-- What a backslash may stand before, besides the letter of four hex digits. -/
def escapable : List UInt8 :=
  [0x22, 0x5c, 0x2f, 0x62, 0x66, 0x6e, 0x72, 0x74]

/-- The bytes of a string after its opening quote. -/
inductive IsBody : List UInt8 → Prop
  | closing : IsBody [0x22]
  | plain {byte : UInt8} {rest : List UInt8} (printable : 0x20 ≤ byte) (not_quote : byte ≠ 0x22)
      (not_backslash : byte ≠ 0x5c) (body : IsBody rest) : IsBody (byte :: rest)
  | escaped {byte : UInt8} {rest : List UInt8} (escapes : byte ∈ escapable) (body : IsBody rest) :
      IsBody (0x5c :: byte :: rest)
  | unicode {digits rest : List UInt8} (four : digits.length = 4)
      (hex : ∀ digit ∈ digits, IsHexDigit digit) (body : IsBody rest) :
      IsBody (0x5c :: 0x75 :: (digits ++ rest))

def IsString (bytes : List UInt8) : Prop :=
  ∃ body, bytes = 0x22 :: body ∧ IsBody body

/-! ## Literals and numbers -/

def IsDigit (byte : UInt8) : Prop :=
  0x30 ≤ byte ∧ byte ≤ 0x39

instance (byte : UInt8) : Decidable (IsDigit byte) := by
  unfold IsDigit
  infer_instance

def Digits (bytes : List UInt8) : Prop :=
  bytes ≠ [] ∧ ∀ byte ∈ bytes, IsDigit byte

def IsWhole (bytes : List UInt8) : Prop :=
  bytes = [0x30] ∨ Digits bytes ∧ bytes.head? ≠ some 0x30

def IsFraction (bytes : List UInt8) : Prop :=
  bytes = [] ∨ ∃ digits, bytes = 0x2e :: digits ∧ Digits digits

def IsExponent (bytes : List UInt8) : Prop :=
  bytes = [] ∨ ∃ mark sign digits, bytes = mark :: (sign ++ digits) ∧ (mark = 0x65 ∨ mark = 0x45) ∧
    (sign = [] ∨ sign = [0x2b] ∨ sign = [0x2d]) ∧ Digits digits

def IsNumber (bytes : List UInt8) : Prop :=
  ∃ minus whole fraction exponent, bytes = minus ++ (whole ++ (fraction ++ exponent)) ∧
    (minus = [] ∨ minus = [0x2d]) ∧ IsWhole whole ∧ IsFraction fraction ∧ IsExponent exponent

def trueBytes : List UInt8 := [0x74, 0x72, 0x75, 0x65]

def falseBytes : List UInt8 := [0x66, 0x61, 0x6c, 0x73, 0x65]

def nullBytes : List UInt8 := [0x6e, 0x75, 0x6c, 0x6c]

/-- A literal or a number. -/
def IsAtom (bytes : List UInt8) : Prop :=
  bytes = trueBytes ∨ bytes = falseBytes ∨ bytes = nullBytes ∨ IsNumber bytes

/-! ## Values -/

mutual

/-- The bytes of one value with at most as many arrays and objects around each other. -/
inductive IsValue : Nat → List UInt8 → Prop
  | atom {depth : Nat} {bytes : List UInt8} (atom : IsAtom bytes) : IsValue depth bytes
  | string {depth : Nat} {bytes : List UInt8} (string : IsString bytes) : IsValue depth bytes
  | emptyArray {depth : Nat} {space : List UInt8} (spaces : Spaces space) :
      IsValue (depth + 1) (0x5b :: (space ++ [0x5d]))
  | array {depth : Nat} {space item items : List UInt8} (spaces : Spaces space)
      (isValue : IsValue depth item) (more : MoreItems depth items) :
      IsValue (depth + 1) (0x5b :: (space ++ (item ++ (items ++ [0x5d]))))
  | emptyObject {depth : Nat} {space : List UInt8} (spaces : Spaces space) :
      IsValue (depth + 1) (0x7b :: (space ++ [0x7d]))
  | object {depth : Nat} {space member members : List UInt8} (spaces : Spaces space)
      (first : IsMember depth member) (more : MoreMembers depth members) :
      IsValue (depth + 1) (0x7b :: (space ++ (member ++ (members ++ [0x7d]))))

/-- What stands between an item of an array and its closing bracket. -/
inductive MoreItems : Nat → List UInt8 → Prop
  | done {depth : Nat} {space : List UInt8} (spaces : Spaces space) : MoreItems depth space
  | item {depth : Nat} {before after item items : List UInt8} (before_spaces : Spaces before)
      (after_spaces : Spaces after) (isValue : IsValue depth item) (more : MoreItems depth items) :
      MoreItems depth (before ++ 0x2c :: (after ++ (item ++ items)))

inductive IsMember : Nat → List UInt8 → Prop
  | member {depth : Nat} {key before after value : List UInt8} (string : IsString key)
      (before_spaces : Spaces before) (after_spaces : Spaces after) (isValue : IsValue depth value) :
      IsMember depth (key ++ (before ++ 0x3a :: (after ++ value)))

/-- What stands between a member of an object and its closing brace. -/
inductive MoreMembers : Nat → List UInt8 → Prop
  | done {depth : Nat} {space : List UInt8} (spaces : Spaces space) : MoreMembers depth space
  | member {depth : Nat} {before after member members : List UInt8} (before_spaces : Spaces before)
      (after_spaces : Spaces after) (next : IsMember depth member)
      (more : MoreMembers depth members) :
      MoreMembers depth (before ++ 0x2c :: (after ++ (member ++ members)))

end

/-- One value between whitespace. -/
def IsText (depth : Nat) (bytes : List UInt8) : Prop :=
  ∃ before value after, bytes = before ++ (value ++ after) ∧ Spaces before ∧ IsValue depth value ∧
    Spaces after

mutual

/-- More nesting may be allowed. -/
theorem IsValue.mono {depth depth' : Nat} {bytes : List UInt8} (deeper : depth ≤ depth') :
    IsValue depth bytes → IsValue depth' bytes
  | .atom atom => .atom atom
  | .string string => .string string
  | .emptyArray spaces => by
      obtain ⟨below, rfl⟩ := Nat.exists_eq_add_of_le' (Nat.one_le_of_lt (Nat.lt_of_succ_le deeper))
      exact .emptyArray spaces
  | .array spaces isValue more => by
      obtain ⟨below, rfl⟩ := Nat.exists_eq_add_of_le' (Nat.one_le_of_lt (Nat.lt_of_succ_le deeper))
      have deeper := Nat.le_of_succ_le_succ deeper
      exact .array spaces (isValue.mono deeper) (more.mono deeper)
  | .emptyObject spaces => by
      obtain ⟨below, rfl⟩ := Nat.exists_eq_add_of_le' (Nat.one_le_of_lt (Nat.lt_of_succ_le deeper))
      exact .emptyObject spaces
  | .object spaces first more => by
      obtain ⟨below, rfl⟩ := Nat.exists_eq_add_of_le' (Nat.one_le_of_lt (Nat.lt_of_succ_le deeper))
      have deeper := Nat.le_of_succ_le_succ deeper
      exact .object spaces (first.mono deeper) (more.mono deeper)

theorem MoreItems.mono {depth depth' : Nat} {bytes : List UInt8} (deeper : depth ≤ depth') :
    MoreItems depth bytes → MoreItems depth' bytes
  | .done spaces => .done spaces
  | .item before_spaces after_spaces isValue more =>
      .item before_spaces after_spaces (isValue.mono deeper) (more.mono deeper)

theorem IsMember.mono {depth depth' : Nat} {bytes : List UInt8} (deeper : depth ≤ depth') :
    IsMember depth bytes → IsMember depth' bytes
  | .member string before_spaces after_spaces isValue =>
      .member string before_spaces after_spaces (isValue.mono deeper)

theorem MoreMembers.mono {depth depth' : Nat} {bytes : List UInt8} (deeper : depth ≤ depth') :
    MoreMembers depth bytes → MoreMembers depth' bytes
  | .done spaces => .done spaces
  | .member before_spaces after_spaces next more =>
      .member before_spaces after_spaces (next.mono deeper) (more.mono deeper)

end

theorem IsText.mono {depth depth' : Nat} {bytes : List UInt8} (text : IsText depth bytes)
    (deeper : depth ≤ depth') : IsText depth' bytes := by
  obtain ⟨before, value, after, rfl, before_spaces, isValue, after_spaces⟩ := text
  exact ⟨before, value, after, rfl, before_spaces, isValue.mono deeper, after_spaces⟩

/-! ## Lemmas -/

theorem spaces_nil : Spaces [] := by
  simp [Spaces]

theorem spaces_cons {byte : UInt8} {rest : List UInt8} :
    Spaces (byte :: rest) ↔
      (byte = 0x20 ∨ byte = 0x09 ∨ byte = 0x0a ∨ byte = 0x0d) ∧ Spaces rest := by
  simp [Spaces]

theorem isNumber_zero : IsNumber [0x30] :=
  ⟨[], [0x30], [], [], rfl, .inl rfl, .inl rfl, .inl rfl, .inl rfl⟩

theorem isString_empty : IsString [0x22, 0x22] :=
  ⟨[0x22], rfl, .closing⟩

/-- The bytes that atoms are written with. -/
def atomBytes : List UInt8 :=
  trueBytes ++ falseBytes ++ nullBytes ++ [0x2d, 0x2b, 0x2e, 0x45] ++
    [0x30, 0x31, 0x32, 0x33, 0x34, 0x35, 0x36, 0x37, 0x38, 0x39]

theorem IsDigit.mem_atomBytes {byte : UInt8} (digit : IsDigit byte) : byte ∈ atomBytes := by
  obtain ⟨low, high⟩ := digit
  rw [UInt8.le_iff_toNat_le] at low high
  have low : 48 ≤ byte.toNat := low
  have high : byte.toNat ≤ 57 := high
  simp only [atomBytes, List.mem_append, List.mem_cons, ← UInt8.toNat_inj]
  simp
  omega

theorem IsAtom.subset {bytes : List UInt8} (atom : IsAtom bytes) : ∀ byte ∈ bytes, byte ∈ atomBytes := by
  rcases atom with rfl | rfl | rfl | ⟨minus, whole, fraction, exponent, rfl, minus_eq, isWhole, isFraction, isExponent⟩
  · decide +kernel
  · decide +kernel
  · decide +kernel
  · have of_digits {digits : List UInt8} (all : Digits digits) : ∀ byte ∈ digits, byte ∈ atomBytes :=
      fun byte byte_mem => (all.2 byte byte_mem).mem_atomBytes
    have minus_subset : ∀ byte ∈ minus, byte ∈ atomBytes := by
      rcases minus_eq with rfl | rfl <;> decide +kernel
    have whole_subset : ∀ byte ∈ whole, byte ∈ atomBytes := by
      rcases isWhole with rfl | ⟨digits, -⟩
      · decide +kernel
      · exact of_digits digits
    have fraction_subset : ∀ byte ∈ fraction, byte ∈ atomBytes := by
      rcases isFraction with rfl | ⟨digits, rfl, all⟩
      · simp
      · exact List.forall_mem_cons.mpr ⟨by decide, of_digits all⟩
    have exponent_subset : ∀ byte ∈ exponent, byte ∈ atomBytes := by
      rcases isExponent with rfl | ⟨mark, sign, digits, rfl, mark_eq, sign_eq, all⟩
      · simp
      · refine List.forall_mem_cons.mpr ⟨?_, List.forall_mem_append.mpr ⟨?_, of_digits all⟩⟩
        · rcases mark_eq with rfl | rfl <;> decide
        · rcases sign_eq with rfl | rfl | rfl <;> decide +kernel
    simp only [List.forall_mem_append]
    exact ⟨minus_subset, whole_subset, fraction_subset, exponent_subset⟩

theorem Digits.head {digits : List UInt8} (all : Digits digits) :
    ∃ first rest, digits = first :: rest ∧ IsDigit first := by
  obtain ⟨first, rest, rfl⟩ := List.exists_cons_of_ne_nil all.1
  exact ⟨first, rest, rfl, all.2 first List.mem_cons_self⟩

/-- The bytes that atoms start with. -/
def IsAtomStart (byte : UInt8) : Prop :=
  byte = 0x2d ∨ IsDigit byte ∨ byte = 0x74 ∨ byte = 0x66 ∨ byte = 0x6e

theorem IsAtom.start {bytes : List UInt8} (atom : IsAtom bytes) :
    ∃ first rest, bytes = first :: rest ∧ IsAtomStart first := by
  rcases atom with rfl | rfl | rfl | ⟨minus, whole, fraction, exponent, rfl, minus_eq, isWhole, -, -⟩
  · exact ⟨_, _, rfl, by simp [IsAtomStart]⟩
  · exact ⟨_, _, rfl, by simp [IsAtomStart]⟩
  · exact ⟨_, _, rfl, by simp [IsAtomStart]⟩
  · rcases minus_eq with rfl | rfl
    · rcases isWhole with rfl | ⟨all, -⟩
      · exact ⟨_, _, rfl, .inr (.inl (by decide))⟩
      · obtain ⟨first, rest, rfl, digit⟩ := all.head
        exact ⟨_, _, rfl, .inr (.inl digit)⟩
    · exact ⟨_, _, rfl, .inl rfl⟩

end Json.Grammar
