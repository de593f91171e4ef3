import Baley.Json.Grammar
import Baley.Json.Reader

/-!
# A reader of JSON bytes that keeps every member

The tree of a JSON text: each object with its members in order, a repeated name kept.  Nesting has no
bound, and a string is read for the characters it spells, which it may fail to: bytes that are not
UTF-8 and halves of a surrogate pair are then left as they are.
-/

namespace Json

/-- A value as written.  A literal or a number stands for itself, and a string that spells no
characters has none. -/
inductive Tree
  | atom
  | string (spelled : Option String)
  | array (items : List Tree)
  | object (members : List (Option String × Tree))

namespace Tree

open Grammar

/-- A reader of bytes returns what it read and the bytes after it. -/
abbrev Reads (α : Type) := List UInt8 → Option (α × List UInt8)

def isSpaceByte (byte : UInt8) : Bool :=
  byte = 0x20 || byte = 0x0a || byte = 0x09 || byte = 0x0d

def skipSpaces (bytes : List UInt8) : List UInt8 :=
  bytes.dropWhile isSpaceByte

/-- How many bytes an escape takes after its backslash. -/
def escapeWidth : List UInt8 → Option Nat
  | [] => none
  | byte :: rest =>
      let digits := rest.take 4
      if escapable.contains byte then some 1
      else if byte = 0x75 && digits.length = 4 && digits.all fun digit => IsHexDigit digit then some 5
      else none

/-- The bytes of a string after its opening quote, without its closing one. -/
def readBody : Nat → Reads (List UInt8)
  | 0, _ => none
  | _ + 1, [] => none
  | fuel + 1, byte :: rest =>
      if byte = 0x22 then some ([], rest)
      else if byte = 0x5c then do
        let width ← escapeWidth rest
        let (body, after) ← readBody fuel (rest.drop width)
        some (byte :: (rest.take width ++ body), after)
      else if byte < 0x20 then none
      else do
        let (body, after) ← readBody fuel rest
        some (byte :: body, after)

/-- The characters the body of a string spells. -/
def spelled (body : List UInt8) : Option String := do
  let text ← String.fromUTF8? (body ++ [0x22]).toByteArray
  let (content, _) ← readString text.toList
  some content

/-- A string after its opening quote. -/
def readSpelled (bytes : List UInt8) : Option (Option String × List UInt8) := do
  let (body, rest) ← readBody (bytes.length + 1) bytes
  some (spelled body, rest)

/-- The bytes that end a literal or a number. -/
def endsAtom (byte : UInt8) : Bool :=
  isSpaceByte byte || byte = 0x2c || byte = 0x5d || byte = 0x7d

def isAtom (bytes : List UInt8) : Bool :=
  let text := bytes.map fun byte => Char.ofNat byte.toNat
  bytes = trueBytes || bytes = falseBytes || bytes = nullBytes ||
    (readNumber text).any fun (_, rest) => rest.isEmpty

/-- A literal or a number, up to what ends it. -/
def readAtom (bytes : List UInt8) : Option (Tree × List UInt8) :=
  let token := bytes.takeWhile fun byte => !endsAtom byte
  if isAtom token then some (.atom, bytes.drop token.length) else none

/-- One or more items up to the closing bracket. -/
def readItems (read : Reads Tree) : Nat → Reads (List Tree)
  | 0, _ => none
  | fuel + 1, bytes => do
      let (item, rest) ← read bytes
      match skipSpaces rest with
      | [] => none
      | byte :: rest =>
          if byte = 0x2c then do
            let (items, rest) ← readItems read fuel rest
            some (item :: items, rest)
          else if byte = 0x5d then some ([item], rest)
          else none

/-- A member's name and the colon after it. -/
def readName (bytes : List UInt8) : Option (Option String × List UInt8) :=
  match skipSpaces bytes with
  | [] => none
  | byte :: rest =>
      if byte = 0x22 then do
        let (name, rest) ← readSpelled rest
        match skipSpaces rest with
        | [] => none
        | byte :: rest => if byte = 0x3a then some (name, rest) else none
      else none

/-- One or more members up to the closing brace. -/
def readMembers (read : Reads Tree) : Nat → Reads (List (Option String × Tree))
  | 0, _ => none
  | fuel + 1, bytes => do
      let (name, rest) ← readName bytes
      let (value, rest) ← read rest
      match skipSpaces rest with
      | [] => none
      | byte :: rest =>
          if byte = 0x2c then do
            let (members, rest) ← readMembers read fuel rest
            some ((name, value) :: members, rest)
          else if byte = 0x7d then some ([(name, value)], rest)
          else none

/-- What an opening bracket starts: nothing up to the closing one, or what `more` reads. -/
def readEnclosed {α : Type} (closing : UInt8) (more : Reads (List α)) (bytes : List UInt8) :
    Option (List α × List UInt8) :=
  match skipSpaces bytes with
  | [] => none
  | byte :: rest => if byte = closing then some ([], rest) else more bytes

/-- A value, with a bound on its nesting. -/
def readTreeWithin : Nat → Reads Tree
  | 0, _ => none
  | depth + 1, bytes =>
      match skipSpaces bytes with
      | [] => none
      | byte :: rest =>
          if byte = 0x22 then (readSpelled rest).map fun (text, rest) => (.string text, rest)
          else if byte = 0x5b then
            (readEnclosed 0x5d (readItems (readTreeWithin depth) rest.length) rest).map
              fun (items, rest) => (.array items, rest)
          else if byte = 0x7b then
            (readEnclosed 0x7d (readMembers (readTreeWithin depth) rest.length) rest).map
              fun (members, rest) => (.object members, rest)
          else readAtom (byte :: rest)

end Tree

/-- The tree of a whole JSON text.  No text nests deeper than it is long. -/
def readTree (bytes : List UInt8) : Option Tree := do
  let (tree, rest) ← Tree.readTreeWithin (bytes.length + 1) bytes
  if (Tree.skipSpaces rest).isEmpty then some tree else none

namespace Tree

/-- The value of a name that spells a text. -/
def lookup (name : String) (members : List (Option String × Tree)) : Option Tree :=
  (members.find? fun member => member.1 = some name).map Prod.snd

mutual

/-- No object of the tree gives two members one name. -/
def Distinct : Tree → Prop
  | .atom => True
  | .string _ => True
  | .array items => AllDistinct items
  | .object members => (members.filterMap Prod.fst).Nodup ∧ MembersDistinct members

def AllDistinct : List Tree → Prop
  | [] => True
  | item :: items => Distinct item ∧ AllDistinct items

def MembersDistinct : List (Option String × Tree) → Prop
  | [] => True
  | (_, value) :: members => Distinct value ∧ MembersDistinct members

end

end Tree

end Json
