import LayoutBus.GridConnect.Hex
import LayoutBus.Wire.Frame

/-!
# Frames as GridConnect text

Serial and network bridges carry a frame as text: a colon, the letter `X` of an extended
identifier, eight hexadecimal digits, the letter `N` of a data frame, two digits for each data
byte, and a semicolon.

* `GridConnect.encode` writes the text of a frame, in upper case.
* `GridConnect.decode` reads a whole text and names the first fault it finds.
* `GridConnect.Spells text f` is the grammar: `text` is one of the spellings of `f`, which differ
  in the case of their digits only.
-/

namespace LayoutBus.GridConnect

/-- The longest text of a frame. -/
def maxLength : Nat := 28

/-- The colon that starts a text. -/
def start : UInt8 := 0x3A

/-- The letter `X` of an extended identifier. -/
def extended : UInt8 := 0x58

/-- The letter `N` of a data frame. -/
def normal : UInt8 := 0x4E

/-- The semicolon that ends a text. -/
def terminator : UInt8 := 0x3B

/-- Digits of an identifier. -/
def identifierDigits : Nat := 8

/-- Digits of the longest data. -/
def maxDataDigits : Nat := 16

/-- Why a text is not the text of a frame. -/
inductive Error where
  /-- There is no text. -/
  | empty
  /-- The text starts with another byte than a colon. -/
  | missingStart (byte : UInt8)
  /-- The letter of the identifier is not `X`; zero stands for a missing letter. -/
  | invalidIdKind (byte : UInt8)
  /-- The identifier has a wrong number of digits. -/
  | invalidIdentifierLength (digits : Nat)
  /-- Not a digit. -/
  | illegalHexDigit (byte : UInt8)
  /-- The identifier has more than 29 bits. -/
  | identifierOutOfRange (id : Nat)
  /-- The letter of the frame is not `N`. -/
  | invalidFrameFormat (byte : UInt8)
  /-- Half a data byte is missing. -/
  | oddDataLength (digits : Nat)
  /-- The data do not fit in a frame. -/
  | tooManyDataBytes (bytes : Nat)
  /-- The text does not end with a semicolon. -/
  | missingTerminator
deriving DecidableEq, Repr

/-- The text of an error. -/
def Error.message : Error → String
  | empty => "Tried to decode an empty buffer"
  | missingStart b => s!"Expected ':' at the start of a frame but got ({b})"
  | invalidIdKind b => s!"Tried to decode ID kind but it was invalid ({b})"
  | invalidIdentifierLength n => s!"Received an identifier with ({n}) digits (should be 8)"
  | illegalHexDigit b => s!"Tried to decode a hex digit but it was out of range ({b})"
  | identifierOutOfRange id =>
    s!"Received a CAN Extended ID ({id}) that was out of the valid range (0..=0x1FFFFFFF)"
  | invalidFrameFormat b => s!"Tried to decode frame format but it was invalid ({b})"
  | oddDataLength n => s!"Received encoded data with a length ({n}) that was not a multiple of 2"
  | tooManyDataBytes n => s!"Received ({n}) data bytes (at most 8 fit in a frame)"
  | missingTerminator => "Frame does not end with ';'"

/-! ### Writing -/

/-- The text of a frame. -/
def encode (f : Frame) : List UInt8 :=
  [start, extended] ++ Hex.digits identifierDigits f.id ++ [normal] ++ Hex.ofBytes f.payload ++
    [terminator]

theorem length_encode (f : Frame) : (encode f).length = 12 + 2 * f.payload.length := by
  simp [encode, identifierDigits]
  omega

/-! ### Reading -/

/-- The letter of the identifier. -/
def readIdKind (b : UInt8) : Except Error Unit :=
  if b = extended then .ok () else .error (.invalidIdKind b)

/-- The letter of the frame. -/
def readFormat (b : UInt8) : Except Error Unit :=
  if b = normal then .ok () else .error (.invalidFrameFormat b)

/-- One digit. -/
def readDigit (b : UInt8) : Except Error Nat :=
  match Hex.value? b with
  | some v => .ok v
  | none => .error (.illegalHexDigit b)

/-- The byte with these two digits. -/
def readByte (high low : UInt8) : Except Error UInt8 := do
  let h ← readDigit high
  let l ← readDigit low
  pure (UInt8.ofNat (h * 16 + l))

/-- The number with these digits. -/
def readNumber (digits : List UInt8) : Except Error Nat :=
  digits.foldlM (fun n b => do pure (n * 16 + (← readDigit b))) 0

/-- The identifier with these digits. -/
def readIdentifier (digits : List UInt8) : Except Error Nat :=
  if digits.length = identifierDigits then do
    let id ← readNumber digits
    if id < Identifier.bound then pure id else throw (.identifierOutOfRange id)
  else .error (.invalidIdentifierLength digits.length)

/-- The bytes with these pairs of digits; a single last digit is left out. -/
def readPairs : List UInt8 → Except Error (List UInt8)
  | high :: low :: rest => do
    let b ← readByte high low
    let bytes ← readPairs rest
    pure (b :: bytes)
  | _ => pure []

/-- The data bytes with these digits. -/
def readData (digits : List UInt8) : Except Error (List UInt8) :=
  if digits.length % 2 ≠ 0 then .error (.oddDataLength digits.length)
  else if maxDataDigits < digits.length then .error (.tooManyDataBytes (digits.length / 2))
  else readPairs digits

/-- The frame with this text between `X` and the semicolon. -/
def readBody (body : List UInt8) : Except Error Frame :=
  match body.dropWhile Hex.isDigit with
  | [] => .error (.invalidIdentifierLength body.length)
  | format :: digits => do
    let id ← readIdentifier (body.takeWhile Hex.isDigit)
    readFormat format
    let data ← readData digits
    match Frame.ofId? id data with
    | some f => pure f
    | none => throw (.tooManyDataBytes data.length)

/-- The frame with this text. -/
def decode : List UInt8 → Except Error Frame
  | [] => .error .empty
  | [b] => if b = start then .error (.invalidIdKind 0) else .error (.missingStart b)
  | b :: kind :: rest =>
    if b ≠ start then .error (.missingStart b)
    else do
      readIdKind kind
      if rest.getLast? = some terminator then readBody rest.dropLast else throw .missingTerminator

/-! ### The grammar -/

/-- The number that digits spell; other bytes count as zero. -/
def numberOf (digits : List UInt8) : Nat :=
  digits.foldl (fun n b => n * 16 + (Hex.value? b).getD 0) 0

/-- The bytes that pairs of digits spell. -/
def bytesOf : List UInt8 → List UInt8
  | high :: low :: rest => UInt8.ofNat (numberOf [high, low]) :: bytesOf rest
  | _ => []

/-- `text` spells `f`. -/
inductive Spells : List UInt8 → Frame → Prop where
  /-- Eight digits of the identifier and an even number of digits of the data, in either case. -/
  | intro (ids data : List UInt8) (f : Frame)
      (length_ids : ids.length = 8) (even_data : data.length % 2 = 0)
      (digits : ∀ b ∈ ids ++ data, Hex.isDigit b = true)
      (id_eq : f.id = numberOf ids) (payload_eq : f.payload = bytesOf data) :
      Spells ([start, extended] ++ ids ++ [normal] ++ data ++ [terminator]) f

end LayoutBus.GridConnect
