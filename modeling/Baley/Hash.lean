import Baley.Canonical

/-!
# Digests

A SHA-256 digest is thirty-two bytes, written as sixty-four lower-case hex digits wherever it is
text.
-/

namespace Baley

open Json

/-- A SHA-256 digest. -/
structure Hash where
  bytes : List UInt8
  length_eq : bytes.length = 32
  deriving DecidableEq

/-- The digest of thirty-two equal bytes. -/
def Hash.replicate (byte : UInt8) : Hash :=
  ⟨List.replicate 32 byte, by simp⟩

instance : Inhabited Hash := ⟨.replicate 0⟩

def hexByte (byte : UInt8) : Text :=
  [hexDigit (byte.toNat / 16), hexDigit (byte.toNat % 16)]

/-- The lower-case hex digits. -/
def Hash.toHex (hash : Hash) : String :=
  String.ofList (hash.bytes.flatMap hexByte)

def readHexBytes : Text → Option (List UInt8)
  | [] => some []
  | [_] => none
  | high :: low :: rest => do
      let high ← hexValue high
      let low ← hexValue low
      let bytes ← readHexBytes rest
      some (UInt8.ofNat (high * 16 + low) :: bytes)

/-- The digest from its hex digits, either case. -/
def Hash.fromHex (text : String) : Option Hash :=
  match readHexBytes text.toList with
  | none => none
  | some bytes => if length_eq : bytes.length = 32 then some ⟨bytes, length_eq⟩ else none

theorem readHexBytes_hexByte (bytes : List UInt8) :
    readHexBytes (bytes.flatMap hexByte) = some bytes := by
  induction bytes with
  | nil => rfl
  | cons byte bytes ih =>
      have byte_lt : byte.toNat < 256 := byte.toNat_lt
      have high := hexValue_hexDigit (byte.toNat / 16) (by omega)
      have low := hexValue_hexDigit (byte.toNat % 16) (by omega)
      have value_eq : byte.toNat / 16 * 16 + byte.toNat % 16 = byte.toNat := by omega
      simp only [List.flatMap_cons, hexByte, List.cons_append, List.nil_append, readHexBytes, high,
        low, ih, value_eq, UInt8.ofNat_toNat, Option.bind_eq_bind, Option.bind_some]

@[simp]
theorem Hash.fromHex_toHex (hash : Hash) : Hash.fromHex hash.toHex = some hash := by
  simp [Hash.fromHex, Hash.toHex, readHexBytes_hexByte, hash.length_eq]

/-- What every hex digit satisfies, every character of a digest's text satisfies. -/
theorem Hash.forall_mem_toHex (hash : Hash) {holds : Char → Prop} (digits : ∀ n < 16, holds (hexDigit n)) :
    ∀ c ∈ hash.toHex.toList, holds c := by
  rw [Hash.toHex, String.toList_ofList]
  intro c c_mem
  obtain ⟨byte, -, c_mem⟩ := List.mem_flatMap.mp c_mem
  have byte_lt : byte.toNat < 256 := byte.toNat_lt
  simp only [hexByte, List.mem_cons, List.not_mem_nil, or_false] at c_mem
  rcases c_mem with rfl | rfl
  · exact digits _ (by omega)
  · exact digits _ (by omega)

theorem Hash.toHex_injective : Function.Injective Hash.toHex := by
  intro first second hex_eq
  have read_eq := congrArg Hash.fromHex hex_eq
  rw [Hash.fromHex_toHex, Hash.fromHex_toHex] at read_eq
  exact Option.some.inj read_eq

end Baley
