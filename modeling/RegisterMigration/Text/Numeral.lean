import RegisterMigration.Text.Blank

/-!
# Unsigned numerals

Reading and writing unsigned numbers in positional notation. A numeral is one or more
digits of the base, of either case, after at most one plus sign; the value has to stay
below a bound, which is the size of the word that will hold it.

A reader stops at the first fault, going from left to right, so of a digit outside the
base and a value out of bounds the one that comes first in the text is reported.
-/

namespace RegisterMigration.Text

/-! ## Digits -/

/-- The value of a hexadecimal digit of either case. -/
def hexDigitValue? (c : Char) : Option Nat :=
  if '0' ≤ c ∧ c ≤ '9' then some (c.toNat - '0'.toNat)
  else if 'a' ≤ c ∧ c ≤ 'f' then some (c.toNat - 'a'.toNat + 10)
  else if 'A' ≤ c ∧ c ≤ 'F' then some (c.toNat - 'A'.toNat + 10)
  else none

/-- The value of a digit in a base up to sixteen. -/
def digitValue? (base : Nat) (c : Char) : Option Nat :=
  (hexDigitValue? c).filter (· < base)

/-- The number that digits of either case denote in a base. -/
def numberOf (base : Nat) (ds : List Char) : Nat :=
  ds.foldl (fun n c => n * base + (hexDigitValue? c).getD 0) 0

/-- The lowercase hexadecimal digit of a number below sixteen. -/
def hexDigit (d : Nat) : Char :=
  if d < 10 then Char.ofNat ('0'.toNat + d) else Char.ofNat ('a'.toNat + (d - 10))

/-! ## Writing -/

/-- A number in hexadecimal, without leading zeros, in capital letters. -/
def upperHex (n : Nat) : String :=
  String.ofList ((Nat.toDigits 16 n).map Char.toUpper)

/-! ## Reading -/

/-- Why a text is not an unsigned numeral. -/
inductive NumeralError where
  /-- There is nothing to read. -/
  | empty
  /-- A character is not a digit of the base. -/
  | invalidDigit
  /-- The digits denote a number out of bounds. -/
  | tooLarge
  deriving DecidableEq, Repr

/-- The wording of each cause. -/
def NumeralError.message : NumeralError → String
  | .empty => "cannot parse integer from empty string"
  | .invalidDigit => "invalid digit found in string"
  | .tooLarge => "number too large to fit in target type"

/-- Reads digits onto the number `n` read so far, keeping it below `bound`. -/
def readDigits (base bound : Nat) : Nat → List Char → Except NumeralError Nat
  | n, [] => .ok n
  | n, c :: cs =>
    match digitValue? base c with
    | none => .error .invalidDigit
    | some d =>
      if n * base + d < bound then readDigits base bound (n * base + d) cs
      else .error .tooLarge

/-- Reads a numeral below `bound`: digits after at most one plus sign. -/
def readNumeral (base bound : Nat) : List Char → Except NumeralError Nat
  | [] => .error .empty
  | ['+'] => .error .invalidDigit
  | '+' :: c :: cs => readDigits base bound 0 (c :: cs)
  | c :: cs => readDigits base bound 0 (c :: cs)

/-- Why a text is not a number, with the text as it was after trimming. -/
structure NumberError where
  text : String
  cause : NumeralError
  deriving DecidableEq, Repr

/-- The wording of a refused number. -/
def NumberError.message (e : NumberError) : String :=
  s!"invalid number '{e.text}': {e.cause.message}"

/-- The base that a trimmed text announces, and the numeral after the announcement. -/
def announcedBase : List Char → Nat × List Char
  | '0' :: 'x' :: cs => (16, cs)
  | '0' :: 'X' :: cs => (16, cs)
  | cs => (10, cs)

/-- Reads a 64-bit number, hexadecimal after `0x` or `0X` and decimal otherwise. -/
def readNumber (s : String) : Except NumberError UInt64 :=
  let text := trim s.toList
  let (base, numeral) := announcedBase text
  match readNumeral base UInt64.size numeral with
  | .ok n => .ok (UInt64.ofNat n)
  | .error cause => .error ⟨String.ofList text, cause⟩

end RegisterMigration.Text
