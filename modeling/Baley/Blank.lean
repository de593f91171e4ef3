import Mathlib.Data.String.Basic

/-!
# Blank texts

A text that is empty or only white space says nothing.  Texts kept inside events are bounded in
bytes as written.
-/

namespace Baley

/-- The code points with the Unicode property White_Space. -/
def isWhiteSpace (c : Char) : Bool :=
  (0x9 ≤ c.toNat && c.toNat ≤ 0xd) || c.toNat = 0x20 || c.toNat = 0x85 || c.toNat = 0xa0 ||
    c.toNat = 0x1680 || (0x2000 ≤ c.toNat && c.toNat ≤ 0x200a) || c.toNat = 0x2028 ||
    c.toNat = 0x2029 || c.toNat = 0x202f || c.toNat = 0x205f || c.toNat = 0x3000

/-- Whether nothing is left of a text once it is trimmed. -/
def isBlank (text : String) : Bool :=
  text.toList.all isWhiteSpace

/-- The most bytes of a text kept inside an event. -/
def inlineTextLimit : Nat := 4096

end Baley
