import Mathlib.Data.List.Basic

/-!
# Words of the shell

A simple shell command, without substitutions, redirections or comments, is written piece by piece.
Its segments stand between separators, and the words of a segment between blanks; quoting joins
pieces into one word and leaves their characters alone.
-/

namespace Shell

/-- A character that means something to the shell outside quotes. -/
def special : List Char :=
  ['\x27', '\x22', '\x5c', '$', '\x60', ';', '|', '&', '\n', '(', ')', '\x7b', '\x7d', '<', '>', ' ',
    '\t', '\x00']

/-- What a backslash escapes between double quotes, besides a newline. -/
def escapable : List Char :=
  ['$', '\x60', '\x22', '\x5c']

/-- A piece of what stands between double quotes. -/
inductive Quoted where
  | plain (c : Char)
  | escaped (c : Char)
  /-- A newline that is continued. -/
  | continued
  /-- A backslash that escapes nothing, and the character after it. -/
  | backslash (c : Char)

/-- A piece of a command. -/
inductive Piece where
  | plain (c : Char)
  | escaped (c : Char)
  /-- A newline that is continued. -/
  | continued
  | single (quoted : List Char)
  | double (quoted : List Quoted)
  | blank (c : Char)
  | separator (c : Char)

namespace Quoted

/-- How a piece is written. -/
def text : Quoted → List Char
  | plain c => [c]
  | escaped c => ['\x5c', c]
  | continued => ['\x5c', '\n']
  | backslash c => ['\x5c', c]

/-- What a piece means. -/
def chars : Quoted → List Char
  | plain c => [c]
  | escaped c => [c]
  | continued => []
  | backslash c => ['\x5c', c]

/-- A piece that is read as it was written. -/
def Readable : Quoted → Prop
  | plain c => c ∉ escapable ∧ c ≠ '\x00'
  | escaped c => c ∈ escapable
  | continued => True
  | backslash c => c ∉ escapable ∧ c ≠ '\n' ∧ c ≠ '\x00'

end Quoted

namespace Piece

/-- How a piece is written. -/
def text : Piece → List Char
  | plain c => [c]
  | escaped c => ['\x5c', c]
  | continued => ['\x5c', '\n']
  | single quoted => '\x27' :: quoted ++ ['\x27']
  | double quoted => '\x22' :: quoted.flatMap Quoted.text ++ ['\x22']
  | blank c => [c]
  | separator c => [c]

/-- What a piece adds to its word. -/
def chars : Piece → List Char
  | plain c => [c]
  | escaped c => [c]
  | continued => []
  | single quoted => quoted
  | double quoted => quoted.flatMap Quoted.chars
  | blank _ => []
  | separator _ => []

/-- Whether a piece is part of a word: a continued newline is part of none. -/
def inWord : Piece → Bool
  | plain _ => true
  | escaped _ => true
  | continued => false
  | single _ => true
  | double _ => true
  | blank _ => false
  | separator _ => false

def isBlank : Piece → Bool
  | blank _ => true
  | _ => false

def isSeparator : Piece → Bool
  | separator _ => true
  | _ => false

end Piece

/-- A piece that is read as it was written. -/
def Piece.Readable : Piece → Prop
  | plain c => c ∉ special
  | escaped c => c ≠ '\n' ∧ c ≠ '\x00'
  | continued => True
  | single quoted => ∀ c ∈ quoted, c ≠ '\x27' ∧ c ≠ '\x00'
  | double quoted => ∀ piece ∈ quoted, piece.Readable
  | blank c => c = ' ' ∨ c = '\t'
  | separator c => c = ';' ∨ c = '|' ∨ c = '&' ∨ c = '\n'

/-- Whether a word is started after a piece. -/
def Piece.starts (started : Bool) : Piece → Bool
  | continued => started
  | piece => piece.inWord

/-- No word starts with a `#`, which would start a comment. -/
def Uncommented : Bool → List Piece → Prop
  | _, [] => True
  | started, piece :: rest =>
      (piece = .plain '#' → started = true) ∧ Uncommented (piece.starts started) rest

/-- Pieces that are read as they were written. -/
def Readable (pieces : List Piece) : Prop :=
  (∀ piece ∈ pieces, piece.Readable) ∧ Uncommented false pieces

/-- What a command is written as. -/
def text (pieces : List Piece) : List Char :=
  pieces.flatMap Piece.text

/-- The words of one segment. -/
def words (pieces : List Piece) : List (List Char) :=
  ((pieces.splitOnP Piece.isBlank).filter fun word => word.any Piece.inWord).map fun word =>
    word.flatMap Piece.chars

/-- The words of each segment. -/
def segments (pieces : List Piece) : List (List (List Char)) :=
  (pieces.splitOnP Piece.isSeparator).map words

end Shell
