import Baley.Json.Value

/-!
# A reader of JSON text with a bound on nesting

The reader takes the number of brackets it may still open.  Recursion is on that number, so a text
that nests too deeply is refused rather than followed.  An array or object body is read by a
combinator over the reader of its items.
-/

namespace Json

/-- Text as a list of characters. -/
abbrev Text := List Char

/-- A reader returns what it read and the text after it. -/
abbrev Reader (α : Type) := Text → Option (α × Text)

def isSpace (c : Char) : Bool :=
  c == ' ' || c == '\n' || c == '\t' || c == '\r'

def skipSpace : Text → Text
  | [] => []
  | c :: rest => if isSpace c then skipSpace rest else c :: rest

/-! ## Strings -/

def hexValue (c : Char) : Option Nat :=
  if '0' ≤ c ∧ c ≤ '9' then some (c.toNat - 48)
  else if 'a' ≤ c ∧ c ≤ 'f' then some (c.toNat - 87)
  else if 'A' ≤ c ∧ c ≤ 'F' then some (c.toNat - 55)
  else none

def readHex4 : Reader Nat
  | a :: b :: c :: d :: rest => do
      let a ← hexValue a
      let b ← hexValue b
      let c ← hexValue c
      let d ← hexValue d
      some (((a * 16 + b) * 16 + c) * 16 + d, rest)
  | _ => none

/-- The character after `\u`, a surrogate pair being two escapes. -/
def readUnicode (text : Text) : Option (Char × Text) := do
  let (unit, rest) ← readHex4 text
  if 0xDC00 ≤ unit ∧ unit < 0xE000 then none
  else if 0xD800 ≤ unit ∧ unit < 0xDC00 then
    match rest with
    | '\\' :: 'u' :: rest => do
        let (low, rest) ← readHex4 rest
        if 0xDC00 ≤ low ∧ low < 0xE000 then
          some (Char.ofNat (0x10000 + (unit - 0xD800) * 0x400 + (low - 0xDC00)), rest)
        else none
    | _ => none
  else some (Char.ofNat unit, rest)

/-- The character an escape names, after its backslash. -/
def readEscape : Reader Char
  | '"' :: rest => some ('"', rest)
  | '\\' :: rest => some ('\\', rest)
  | '/' :: rest => some ('/', rest)
  | 'b' :: rest => some ('\x08', rest)
  | 'f' :: rest => some ('\x0c', rest)
  | 'n' :: rest => some ('\n', rest)
  | 'r' :: rest => some ('\r', rest)
  | 't' :: rest => some ('\t', rest)
  | 'u' :: rest => readUnicode rest
  | _ => none

/-- The characters of a string up to its closing quote. -/
def readChars : Nat → Reader Text
  | 0, _ => none
  | _ + 1, [] => none
  | fuel + 1, c :: rest =>
      if c = '"' then some ([], rest)
      else if c = '\\' then do
        let (c, rest) ← readEscape rest
        let (cs, rest) ← readChars fuel rest
        some (c :: cs, rest)
      else if c.toNat < 0x20 then none
      else do
        let (cs, rest) ← readChars fuel rest
        some (c :: cs, rest)

/-- A string after its opening quote. -/
def readString (text : Text) : Option (String × Text) :=
  (readChars (text.length + 1) text).map fun (chars, rest) => (String.ofList chars, rest)

/-! ## Numbers -/

def readWhole (text : Text) : Option (Text × Text) :=
  match text with
  | '0' :: rest => if (rest.takeWhile Char.isDigit).isEmpty then some (['0'], rest) else none
  | _ =>
      let digits := text.takeWhile Char.isDigit
      if digits.isEmpty then none else some (digits, text.dropWhile Char.isDigit)

def readFraction : Reader Text
  | '.' :: rest =>
      let digits := rest.takeWhile Char.isDigit
      if digits.isEmpty then none else some ('.' :: digits, rest.dropWhile Char.isDigit)
  | text => some ([], text)

def readSign : Text → Text × Text
  | '+' :: rest => (['+'], rest)
  | '-' :: rest => (['-'], rest)
  | text => ([], text)

def readExponent (text : Text) : Option (Text × Text) :=
  match text with
  | [] => some ([], [])
  | mark :: rest =>
      if mark = 'e' ∨ mark = 'E' then
        let (sign, rest) := readSign rest
        let digits := rest.takeWhile Char.isDigit
        if digits.isEmpty then none
        else some (mark :: (sign ++ digits), rest.dropWhile Char.isDigit)
      else some ([], text)

def readMinus : Text → Text × Text
  | '-' :: rest => (['-'], rest)
  | text => ([], text)

/-- A number keeps its source text. -/
def readNumber (text : Text) : Option (String × Text) := do
  let (minus, rest) := readMinus text
  let (whole, rest) ← readWhole rest
  let (fraction, rest) ← readFraction rest
  let (exponent, rest) ← readExponent rest
  some (String.ofList (minus ++ whole ++ fraction ++ exponent), rest)

/-! ## Arrays and objects -/

/-- One or more items up to the closing bracket. -/
def readItems (read : Reader Value) : Nat → Reader (List Value)
  | 0, _ => none
  | fuel + 1, text => do
      let (item, rest) ← read text
      match skipSpace rest with
      | ',' :: rest => do
          let (items, rest) ← readItems read fuel rest
          some (item :: items, rest)
      | ']' :: rest => some ([item], rest)
      | _ => none

def readKey (text : Text) : Option (String × Text) :=
  match skipSpace text with
  | '"' :: rest => do
      let (key, rest) ← readString rest
      match skipSpace rest with
      | ':' :: rest => some (key, rest)
      | _ => none
  | _ => none

/-- One or more members up to the closing brace. -/
def readEntries (read : Reader Value) : Nat → Reader (List (String × Value))
  | 0, _ => none
  | fuel + 1, text => do
      let (key, rest) ← readKey text
      let (value, rest) ← read rest
      match skipSpace rest with
      | ',' :: rest => do
          let (entries, rest) ← readEntries read fuel rest
          some ((key, value) :: entries, rest)
      | '}' :: rest => some ([(key, value)], rest)
      | _ => none

def readArray (read : Reader Value) (text : Text) : Option (Value × Text) :=
  match skipSpace text with
  | ']' :: rest => some (.array [], rest)
  | _ => (readItems read text.length text).map fun (items, rest) => (.array items, rest)

def readObject (read : Reader Value) (text : Text) : Option (Value × Text) :=
  match skipSpace text with
  | '}' :: rest => some (.object [], rest)
  | _ =>
      (readEntries read text.length text).map fun (entries, rest) => (.ofEntries entries, rest)

def readLiteral (word : Text) (value : Value) (text : Text) : Option (Value × Text) :=
  if word.isPrefixOf text then some (value, text.drop word.length) else none

/-- A value.  Opening a bracket takes one from the remaining depth and fails when that leaves
none. -/
def readValue : Nat → Reader Value
  | 0, _ => none
  | remaining + 1, text =>
      match skipSpace text with
      | [] => none
      | c :: rest =>
          if c = '"' then (readString rest).map fun (text, rest) => (.string text, rest)
          else if c = '[' then
            if remaining = 0 then none else readArray (readValue remaining) rest
          else if c = '{' then
            if remaining = 0 then none else readObject (readValue remaining) rest
          else if c = 'n' then readLiteral ['u', 'l', 'l'] .null rest
          else if c = 't' then readLiteral ['r', 'u', 'e'] (.bool true) rest
          else if c = 'f' then readLiteral ['a', 'l', 's', 'e'] (.bool false) rest
          else (readNumber (c :: rest)).map fun (text, rest) => (.number text, rest)

/-- A whole text holding one value, with `limit` one more than the brackets it may nest. -/
def readDocument (limit : Nat) (text : String) : Option Value := do
  let (value, rest) ← readValue limit text.toList
  if (skipSpace rest).isEmpty then some value else none

example : readDocument 128 " \x7b\"b\": [1, -0.5e3], \"a\\u0041\" : null\x7d" =
    some (.object [("aA", .null), ("b", .array [.number "1", .number "-0.5e3"])]) := by
  rfl

end Json
