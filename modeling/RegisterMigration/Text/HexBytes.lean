import RegisterMigration.Text.Numeral

/-!
# Bytes as hexadecimal text

Byte strings are lists of bytes with the most significant byte first. Two digits are
written for each byte. Reading is lenient about the number of digits: a text stands for
the number it denotes, and that number is laid out in as many bytes as the caller wants.
-/

namespace RegisterMigration.Text

/-! ## Writing -/

/-- The two digits of a byte. -/
def byteDigits (b : UInt8) : List Char :=
  [hexDigit (b.toNat / 16), hexDigit (b.toNat % 16)]

/-- Bytes in lowercase hexadecimal, two digits a byte. -/
def toHex (bytes : List UInt8) : String :=
  String.ofList (bytes.flatMap byteDigits)

/-! ## Reading -/

/-- Why a text does not give the wanted bytes. The text is quoted as it was given. -/
inductive HexError where
  /-- The text is not a hexadecimal number. -/
  | invalid (text : String)
  /-- The number needs more bytes than there are. -/
  | tooLong (text : String) (length : Nat)
  deriving DecidableEq, Repr

/-- The wording of a refused text. -/
def HexError.message : HexError → String
  | .invalid text => s!"invalid hex string '{text}'"
  | .tooLong text length => s!"hex string '{text}' does not fit in {length} bytes"

/-- A text without the `0x` it starts with, however often that is repeated. -/
def dropHexMarks : List Char → List Char
  | '0' :: 'x' :: cs => dropHexMarks cs
  | cs => cs

/-- The digits that a text denotes a number with: trimmed, without `0x` in front and
without the underscores that group them. -/
def hexPayload (s : String) : List Char :=
  (dropHexMarks (trim s.toList)).filter (· != '_')

/-- Pairs up digit values, the higher one first. A digit left over at the end is dropped. -/
def pairDigits : List Nat → List UInt8
  | hi :: lo :: ds => UInt8.ofNat (16 * hi + lo) :: pairDigits ds
  | _ => []

/-- The bytes of a digit string; the first byte has a single digit if the count is odd. -/
def bytesOfDigits (ds : List Nat) : List UInt8 :=
  pairDigits (if ds.length % 2 = 1 then 0 :: ds else ds)

/-- Lays bytes out in exactly `length` bytes by adding or dropping zeros in front. -/
def fitBytes (length : Nat) (bytes : List UInt8) : Option (List UInt8) :=
  if bytes.length ≤ length then
    some (List.replicate (length - bytes.length) 0 ++ bytes)
  else if (bytes.take (bytes.length - length)).all (· == 0) then
    some (bytes.drop (bytes.length - length))
  else none

/-- Reads a hexadecimal number into exactly `length` bytes. -/
def readHexBytes (s : String) (length : Nat) : Except HexError (List UInt8) :=
  match hexPayload s with
  | [] => .error (.invalid s)
  | cs =>
    match cs.mapM hexDigitValue? with
    | none => .error (.invalid s)
    | some ds =>
      match fitBytes length (bytesOfDigits ds) with
      | some bytes => .ok bytes
      | none => .error (.tooLong s length)

/-! ## Reading in slices

The same reading, with the digits cut out of their text two at a time.  A slice is given by
positions in bytes of UTF-8.  It does not exist if a position lies past the end of the text or inside
of a character, and what was cut out need not be a number. -/

/-- What follows the first `n` bytes of a text, if a character ends there. -/
def dropBytes? : Nat → List Char → Option (List Char)
  | 0, cs => some cs
  | _ + 1, [] => none
  | n + 1, c :: cs => if c.utf8Size ≤ n + 1 then dropBytes? (n + 1 - c.utf8Size) cs else none

/-- The first `n` bytes of a text, if a character ends there. -/
def takeBytes? : Nat → List Char → Option (List Char)
  | 0, _ => some []
  | _ + 1, [] => none
  | n + 1, c :: cs =>
    if c.utf8Size ≤ n + 1 then (takeBytes? (n + 1 - c.utf8Size) cs).map (c :: ·) else none

/-- The slice of a text from byte `start` up to byte `stop`. -/
def slice? (start stop : Nat) (text : List Char) : Option (List Char) :=
  if stop < start then none else (dropBytes? start text).bind (takeBytes? (stop - start))

/-- The byte that two digits denote. -/
def byteOfText? (digits : List Char) : Option UInt8 :=
  match readNumeral 16 UInt8.size digits with
  | .ok n => some (UInt8.ofNat n)
  | .error _ => none

/-- The length of a text in bytes. -/
def byteCount : List Char → Nat
  | [] => 0
  | c :: cs => c.utf8Size + byteCount cs

/-- The bytes that the slices at the even positions of a text denote. -/
def bytesOfSlices? (text : List Char) : Option (List UInt8) :=
  (List.range ((byteCount text + 1) / 2)).mapM fun k =>
    (slice? (2 * k) (2 * k + 2) text).bind byteOfText?

/-- Reads a hexadecimal number into exactly `length` bytes, slice by slice.  There is no answer if
a slice does not exist or is not a number. -/
def readHexSlices? (s : String) (length : Nat) : Option (Except HexError (List UInt8)) :=
  let digits := hexPayload s
  if digits.isEmpty || !digits.all fun c => (hexDigitValue? c).isSome then
    some (.error (.invalid s))
  else
    let padded := if byteCount digits % 2 = 1 then '0' :: digits else digits
    (bytesOfSlices? padded).map fun bytes =>
      match fitBytes length bytes with
      | some bytes => .ok bytes
      | none => .error (.tooLong s length)

end RegisterMigration.Text
