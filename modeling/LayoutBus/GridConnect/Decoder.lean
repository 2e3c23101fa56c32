import LayoutBus.GridConnect.Text

/-!
# Reading a stream of GridConnect text

A bridge delivers text byte by byte, possibly cut off or surrounded by other bytes.  A decoder
skips everything before a colon and starts over at every colon, so it finds the next frame after
any garbage.

* `Decoder` holds the bytes since the last colon, or nothing while it waits for one.
* `Decoder.push` takes one byte and answers with a frame, an error, or nothing yet.
* `Decoder.feed` takes many.
-/

namespace LayoutBus.GridConnect

/-- A decoder of a stream of text. -/
inductive Decoder where
  /-- Waiting for a colon. -/
  | idle
  /-- Inside the identifier; `seen` are the bytes since the colon. -/
  | header (seen : List UInt8)
  /-- Past the identifier; `seen` are the bytes since the colon. -/
  | data (seen : List UInt8)
deriving DecidableEq, Repr

namespace Decoder

/-- What a decoder answers to a byte, if it answers. -/
abbrev Answer := Option (Except Error Frame)

/-- The bytes that the decoder keeps. -/
def seen : Decoder → List UInt8
  | idle => []
  | header bytes | data bytes => bytes

/-- The bytes with one more, if a text can be that long. -/
def store? (bytes : List UInt8) (b : UInt8) : Option (List UInt8) :=
  if bytes.length < maxLength then some (bytes ++ [b]) else none

/-- Gives up the frame. -/
def fail (e : Error) : Decoder × Answer := (idle, some (.error e))

/-- Keeps the byte and stays in the given part of the text, or gives up a text that is too
long. -/
def keep (part : List UInt8 → Decoder) (bytes : List UInt8) (b : UInt8) : Decoder × Answer :=
  match store? bytes b with
  | some bytes => (part bytes, none)
  | none => fail (.tooManyDataBytes (maxDataDigits / 2 + 1))

/-- Takes one byte. -/
def push (d : Decoder) (b : UInt8) : Decoder × Answer :=
  if b = start then (header [b], none)
  else match d with
    | idle => (idle, none)
    | header bytes =>
      if bytes.length = 1 then
        match readIdKind b with
        | .ok () => keep header bytes b
        | .error e => fail e
      else if ¬ Hex.isDigit b then keep data bytes b
      else if bytes.length = 2 + identifierDigits then
        fail (.invalidIdentifierLength (identifierDigits + 1))
      else keep header bytes b
    | data bytes =>
      if b = terminator then
        match store? bytes b with
        | some text => (idle, some (decode text))
        | none => fail .missingTerminator
      else if ¬ Hex.isDigit b then fail (.illegalHexDigit b)
      else keep data bytes b

/-- Takes all bytes, in order, and collects the answer to each. -/
def feed : Decoder → List UInt8 → Decoder × List Answer
  | d, [] => (d, [])
  | d, b :: bytes =>
    let (d, answer) := d.push b
    let (d, answers) := d.feed bytes
    (d, answer :: answers)

end Decoder

end LayoutBus.GridConnect
