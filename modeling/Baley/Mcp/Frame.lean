import Baley.Json.Reader
import Baley.Json.Scan

/-!
# Bounded lines

One frame is one line of JSON.  The decoder keeps a frame while it is inside two bounds, on its bytes
and on its nesting, and a fault discards the frame through its newline and names the id read before.
-/

namespace Baley.Mcp.Frame

open Json

/-- The most bytes a frame may hold before its newline. -/
def maxFrameBytes : Nat := 4194304

/-- The deepest nesting of arrays and objects a frame may hold. -/
def maxDepth : Nat := 128

/-- The longest id, as written on the wire, that a fault repeats. -/
def maxIdBytes : Nat := 256

/-- What was wrong with a frame; the decoder has no other kinds. -/
inductive FaultKind where
  | tooLarge
  | tooDeep
  | malformed
  deriving DecidableEq, Repr

/-- A frame the decoder discarded. -/
structure Fault where
  kind : FaultKind
  /-- The top-level id read before the fault. -/
  id : Option Value

/-- What one byte did to the decoder. -/
inductive Step where
  | more
  | frame (bytes : List UInt8)
  | fault (fault : Fault)

inductive Open where
  | object
  | array
  deriving DecidableEq

inductive Expect where
  | value
  | valueOrEnd
  | keyOrEnd
  | key
  | colon
  | commaOrEnd
  | done
  deriving DecidableEq

inductive Escape where
  | plain
  | slash
  | hex (left : Nat)
  deriving DecidableEq

inductive Token where
  | none
  | str (key : Bool) (escape : Escape)
  | atom (start : Nat)
  deriving DecidableEq

/-! ## Bytes and atoms -/

def isSpace (byte : UInt8) : Bool :=
  byte = 0x20 || byte = 0x09 || byte = 0x0d

def isDelimiter (byte : UInt8) : Bool :=
  isSpace byte || byte = 0x2c || byte = 0x5d || byte = 0x7d

def isAsciiDigit (byte : UInt8) : Bool :=
  0x30 ≤ byte && byte ≤ 0x39

def isAsciiHexDigit (byte : UInt8) : Bool :=
  isAsciiDigit byte || 0x41 ≤ byte && byte ≤ 0x46 || 0x61 ≤ byte && byte ≤ 0x66

/-- How many digits stand from a place on. -/
def digitsFrom (text : List UInt8) (place : Nat) : Nat :=
  ((text.drop place).takeWhile isAsciiDigit).length

/-- The place after the digits of a number before its fraction. -/
def wholeEnd (text : List UInt8) (place : Nat) : Option Nat :=
  match text[place]? with
  | none => none
  | some first =>
      if first = 0x30 then some (place + 1)
      else if isAsciiDigit first then some (place + digitsFrom text place)
      else none

def fractionEnd (text : List UInt8) (place : Nat) : Option Nat :=
  if text[place]? = some 0x2e then
    let count := digitsFrom text (place + 1)
    if count = 0 then none else some (place + (1 + count))
  else some place

/-- The place after a sign that may stand at a place. -/
def signEnd (text : List UInt8) (place : Nat) : Nat :=
  if text[place]? = some 0x2b ∨ text[place]? = some 0x2d then place + 1 else place

def exponentEnd (text : List UInt8) (place : Nat) : Option Nat :=
  if text[place]? = some 0x65 ∨ text[place]? = some 0x45 then
    let place := signEnd text (place + 1)
    let count := digitsFrom text place
    if count = 0 then none else some (place + count)
  else some place

def validNumber (text : List UInt8) : Bool :=
  let finish := do
    let place ← wholeEnd text (if text.head? = some 0x2d then 1 else 0)
    let place ← fractionEnd text place
    exponentEnd text place
  finish = some text.length

def validAtom (text : List UInt8) : Bool :=
  text = [0x74, 0x72, 0x75, 0x65] || text = [0x66, 0x61, 0x6c, 0x73, 0x65] ||
    text = [0x6e, 0x75, 0x6c, 0x6c] || validNumber text

/-- The text that bytes encode. -/
def fromUtf8 (bytes : List UInt8) : Option String :=
  String.fromUTF8? bytes.toByteArray

/-- The value of an id: a string, or an integer of 64 bits. -/
def idValue (text : List UInt8) : Option Value := do
  match ← readDocument 128 (← fromUtf8 text) with
  | .string content => some (.string content)
  | .number digits =>
      if (Value.number digits).asI64.isSome || (Value.number digits).asU64.isSome then
        some (.number digits)
      else none
  | _ => none

/-! ## The decoder -/

/-- The byte state machine; the innermost open container comes first. -/
structure Decoder where
  frame : List UInt8
  stack : List Open
  expect : Expect
  token : Token
  started : Bool
  skipping : Bool
  keyLen : Nat
  keyHead : UInt8 × UInt8
  keyIsId : Bool
  idSlot : Bool
  idStart : Option Nat
  id : Option Value

namespace Decoder

/-- A decoder at the start of a frame. -/
def new : Decoder where
  frame := []
  stack := []
  expect := .value
  token := .none
  started := false
  skipping := false
  keyLen := 0
  keyHead := (0, 0)
  keyIsId := false
  idSlot := false
  idStart := none
  id := none

/-- A value ended; the id is read if this was its value. -/
def valueDone (decoder : Decoder) (finish : Nat) : Decoder :=
  { decoder with
    idStart := none
    id :=
      match decoder.idStart with
      | some start =>
          if finish - start ≤ maxIdBytes then
            idValue ((decoder.frame.take finish).drop start)
          else decoder.id
      | none => decoder.id
    expect := if decoder.stack.isEmpty then .done else .commaOrEnd }

def close (decoder : Decoder) : Decoder :=
  { decoder with stack := decoder.stack.tail }.valueDone decoder.frame.length

def finishAtom (decoder : Decoder) (start finish : Nat) : Decoder × Option FaultKind :=
  if validAtom ((decoder.frame.take finish).drop start) then
    ({ decoder with token := .none }.valueDone finish, none)
  else (decoder, some .malformed)

def stringDone (decoder : Decoder) (key : Bool) : Decoder :=
  if key then
    { decoder with
      keyIsId := decoder.keyLen = 2 && decoder.keyHead = (0x69, 0x64)
      expect := .colon }
  else decoder.valueDone decoder.frame.length

/-- A plain byte of a key of the outermost container is kept if it is one of the first two. -/
def noteKey (decoder : Decoder) (byte : UInt8) : Decoder :=
  if decoder.stack.length = 1 then
    match decoder.keyLen with
    | 0 => { decoder with keyHead := (byte, decoder.keyHead.2) }
    | 1 => { decoder with keyHead := (decoder.keyHead.1, byte) }
    | _ => decoder
  else decoder

/-- A string goes on after a byte. -/
def stringOn (decoder : Decoder) (key : Bool) (next : Escape) : Decoder × Option FaultKind :=
  ({ decoder with
      keyLen := if key then decoder.keyLen + 1 else decoder.keyLen
      token := .str key next }, none)

def stringByte (decoder : Decoder) (byte : UInt8) (key : Bool) (escape : Escape) :
    Decoder × Option FaultKind :=
  match escape with
  | .plain =>
      if byte = 0x22 then ({ decoder with token := .none }.stringDone key, none)
      else if byte = 0x5c then decoder.stringOn key .slash
      else if byte ≤ 31 then (decoder, some .malformed)
      else (if key then decoder.noteKey byte else decoder).stringOn key .plain
  | .slash =>
      if byte = 0x22 ∨ byte = 0x5c ∨ byte = 0x2f ∨ byte = 0x62 ∨ byte = 0x66 ∨ byte = 0x6e ∨
          byte = 0x72 ∨ byte = 0x74 then
        decoder.stringOn key .plain
      else if byte = 0x75 then decoder.stringOn key (.hex 4)
      else (decoder, some .malformed)
  | .hex left =>
      if isAsciiHexDigit byte then
        decoder.stringOn key (if left = 1 then .plain else .hex (left - 1))
      else (decoder, some .malformed)

def startValue (decoder : Decoder) (byte : UInt8) : Decoder × Option FaultKind :=
  let here := decoder.frame.length - 1
  let idSlot := decoder.idSlot
  let decoder := { decoder with idSlot := false }
  if byte = 0x7b ∨ byte = 0x5b then
    if decoder.stack.length = maxDepth then (decoder, some .tooDeep)
    else if byte = 0x7b then
      ({ decoder with stack := .object :: decoder.stack, expect := .keyOrEnd }, none)
    else ({ decoder with stack := .array :: decoder.stack, expect := .valueOrEnd }, none)
  else if byte = 0x22 ∨ byte = 0x2d ∨ isAsciiDigit byte ∨ byte = 0x74 ∨ byte = 0x66 ∨ byte = 0x6e then
    ({ decoder with
        idStart := if idSlot then some here else decoder.idStart
        token := if byte = 0x22 then .str false .plain else .atom here }, none)
  else (decoder, some .malformed)

def structural (decoder : Decoder) (byte : UInt8) : Decoder × Option FaultKind :=
  match decoder.expect with
  | .value => decoder.startValue byte
  | .valueOrEnd => if byte = 0x5d then (decoder.close, none) else decoder.startValue byte
  | .keyOrEnd =>
      if byte = 0x7d then (decoder.close, none)
      else if byte = 0x22 then
        ({ decoder with keyLen := 0, keyHead := (0, 0), token := .str true .plain }, none)
      else (decoder, some .malformed)
  | .key =>
      if byte = 0x22 then
        ({ decoder with keyLen := 0, keyHead := (0, 0), token := .str true .plain }, none)
      else (decoder, some .malformed)
  | .colon =>
      if byte = 0x3a then
        ({ decoder with idSlot := decoder.keyIsId && decoder.id.isNone, expect := .value }, none)
      else (decoder, some .malformed)
  | .commaOrEnd =>
      if byte = 0x2c then
        ({ decoder with
            expect := if decoder.stack.head? = some .object then .key else .value }, none)
      else if byte = 0x7d ∧ decoder.stack.head? = some .object then (decoder.close, none)
      else if byte = 0x5d ∧ decoder.stack.head? = some .array then (decoder.close, none)
      else (decoder, some .malformed)
  | .done => (decoder, some .malformed)

/-- A byte outside strings and atoms. -/
def between (decoder : Decoder) (byte : UInt8) : Decoder × Option FaultKind :=
  if isSpace byte then (decoder, none) else { decoder with started := true }.structural byte

/-- Take one byte, which the frame already holds. -/
def advance (decoder : Decoder) (byte : UInt8) : Decoder × Option FaultKind :=
  match decoder.token with
  | .str key escape => decoder.stringByte byte key escape
  | .atom start =>
      if isDelimiter byte then
        match decoder.finishAtom start (decoder.frame.length - 1) with
        | (decoder, some kind) => (decoder, some kind)
        | (decoder, none) => decoder.between byte
      else (decoder, none)
  | .none => decoder.between byte

/-- A fault discards the frame; the rest of the line is skipped unless it is over. -/
def fault (decoder : Decoder) (kind : FaultKind) (skip : Bool) : Step × Decoder :=
  (.fault { kind, id := decoder.id }, { new with skipping := skip })

/-- The newline ends a frame, unless the line is blank. -/
def endOfLine (decoder : Decoder) : Step × Decoder :=
  if !decoder.started then (.more, { decoder with frame := [] })
  else
    let (decoder, faulted) :=
      match decoder.token with
      | .atom start => decoder.finishAtom start decoder.frame.length
      | _ => (decoder, none)
    match faulted with
    | some kind => decoder.fault kind false
    | none =>
        if decoder.token = .none ∧ decoder.expect = .done ∧ (fromUtf8 decoder.frame).isSome then
          (.frame decoder.frame, new)
        else decoder.fault .malformed false

/-- Feed one byte. -/
def push (decoder : Decoder) (byte : UInt8) : Step × Decoder :=
  if decoder.skipping then
    (.more, if byte = 0x0a then { decoder with skipping := false } else decoder)
  else if byte = 0x0a then decoder.endOfLine
  else if decoder.frame.length = maxFrameBytes then decoder.fault .tooLarge true
  else
    match { decoder with frame := decoder.frame ++ [byte] }.advance byte with
    | (decoder, none) => (.more, decoder)
    | (decoder, some kind) => decoder.fault kind true

end Decoder

/-! ## The reader -/

/-- What the reader found next on the input. -/
inductive Next where
  | frame (bytes : List UInt8)
  | fault (fault : Fault)
  /-- The input ended; a partial frame at the end is dropped. -/
  | ended

/-- A reader with the bytes it has read and not yet fed. -/
structure FrameReader where
  decoder : Decoder
  buffer : List UInt8
  ended : Bool

/-- What waiting for the source comes to. -/
inductive Read where
  /-- Some bytes were read; none when the input has ended. -/
  | bytes (chunk : List UInt8)
  /-- The caller dropped the call that waits. -/
  | cancelled
  | failed

namespace FrameReader

def new : FrameReader where
  decoder := .new
  buffer := []
  ended := false

/-- Feed the buffer until something is ready. -/
def drain (decoder : Decoder) : List UInt8 → Option Next × Decoder × List UInt8
  | [] => (none, decoder, [])
  | byte :: rest =>
      match decoder.push byte with
      | (.more, decoder) => drain decoder rest
      | (.frame bytes, decoder) => (some (.frame bytes), decoder, rest)
      | (.fault fault, decoder) => (some (.fault fault), decoder, rest)

/-- One call: what it returns, if it returns without an error, and the reads that are left. -/
def next (reader : FrameReader) (reads : List Read) : Option Next × FrameReader × List Read :=
  match drain reader.decoder reader.buffer with
  | (some next, decoder, buffer) => (some next, { reader with decoder, buffer }, reads)
  | (none, decoder, buffer) =>
      let reader : FrameReader := { reader with decoder, buffer }
      if reader.ended then (some .ended, reader, reads)
      else
        match reads with
        | [] => (none, reader, [])
        | .cancelled :: reads => (none, reader, reads)
        | .failed :: reads => (none, reader, reads)
        | .bytes chunk :: reads =>
            next { reader with buffer := chunk, ended := chunk.isEmpty } reads
  termination_by reads.length

/-- What so many calls one after another returned. -/
def calls : Nat → FrameReader → List Read → List Next
  | 0, _, _ => []
  | n + 1, reader, reads =>
      match reader.next reads with
      | (some next, reader, reads) => next :: calls n reader reads
      | (none, reader, reads) => calls n reader reads

end FrameReader

end Baley.Mcp.Frame
