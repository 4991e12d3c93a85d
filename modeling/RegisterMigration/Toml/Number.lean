import RegisterMigration.Text.Numeral
import RegisterMigration.Toml.Node
import RegisterMigration.Toml.Line

/-!
# TOML numbers

Integers are decimal, with an optional sign and no leading zeros, or hexadecimal, octal or
binary after `0x`, `0o` or `0b`, without a sign. All have to fit 64 bits with a sign.
Floating-point numbers have a fraction, an exponent or both, or are infinite or no number
at all. Single underscores may stand between digits.
-/

namespace RegisterMigration.Toml

/-- Reads the digits of a number that `isDigit` knows, with single underscores between
them. Underscores that no digit follows are left. -/
def digitsTail (isDigit : Char → Bool) : List Char → List Char × List Char
  | [] => ([], [])
  | '_' :: c :: s =>
    if isDigit c then
      let (ds, rest) := digitsTail isDigit s
      (c :: ds, rest)
    else ([], '_' :: c :: s)
  | c :: s =>
    if isDigit c then
      let (ds, rest) := digitsTail isDigit s
      (c :: ds, rest)
    else ([], c :: s)

/-- Reads at least one digit, with single underscores between digits. -/
def digits? (isDigit : Char → Bool) : Reader (List Char)
  | c :: s =>
    if isDigit c then
      let (ds, rest) := digitsTail isDigit s
      some (c :: ds, rest)
    else none
  | [] => none

/-- Whether a character is a decimal digit. -/
def isDecimal (c : Char) : Bool :=
  (Text.digitValue? 10 c).isSome

/-- Takes an optional sign; `true` stands for minus. -/
def sign : List Char → Bool × List Char
  | '+' :: s => (false, s)
  | '-' :: s => (true, s)
  | s => (false, s)

/-- A number as an integer, if it fits 64 bits with a sign. -/
def integer? (negative : Bool) (n : Nat) : Option Node :=
  if negative then if n ≤ UInt64.size / 2 then some (.integer (-(n : Int))) else none
  else if n < UInt64.size / 2 then some (.integer n) else none

/-- Reads an integer in a base other than ten, after the mark of the base. -/
def baseInteger? (base : Nat) (s : List Char) : Option (Node × List Char) :=
  match digits? (fun c => (Text.digitValue? base c).isSome) s with
  | none => none
  | some (ds, rest) => (integer? false (Text.numberOf base ds)).map fun v => (v, rest)

/-- Reads the digits before the point: a zero, or digits that do not start with one. -/
def wholeDigits? : Reader (List Char)
  | '0' :: s => some (['0'], s)
  | s => digits? isDecimal s

/-- Takes an optional fraction; `none` if a point is not followed by a digit. -/
def fraction? : Reader (Option (List Char))
  | '.' :: s => (digits? isDecimal s).map fun (ds, rest) => (some ds, rest)
  | s => some (none, s)

/-- Takes an optional exponent; `none` if its mark is not followed by a number. -/
def exponent? : Reader (Option Int)
  | c :: s =>
    if c = 'e' ∨ c = 'E' then
      let (negative, s) := sign s
      (digits? isDecimal s).map fun (ds, rest) =>
        let n : Int := Text.numberOf 10 ds
        (some (if negative then -n else n), rest)
    else some (none, c :: s)
  | [] => some (none, [])

/-- A floating-point number that a document may hold: any but positive infinity made of
digits. -/
def float? (negative : Bool) (whole fraction : List Char) (exponent : Int) : Option Node :=
  match Decimal.Binary64.ofDecimal negative (Text.numberOf 10 (whole ++ fraction))
      (exponent - fraction.length) with
  | .infinity false => none
  | x => some (.float x)

/-- Reads a decimal number after its sign. -/
def decimal? (negative : Bool) (s : List Char) : Option (Node × List Char) :=
  match wholeDigits? s with
  | none => none
  | some (whole, s) =>
    match fraction? s with
    | none => none
    | some (fraction, s) =>
      match exponent? s with
      | none => none
      | some (exponent, s) =>
        let v :=
          if fraction.isNone && exponent.isNone then integer? negative (Text.numberOf 10 whole)
          else float? negative whole (fraction.getD []) (exponent.getD 0)
        v.map fun v => (v, s)

/-- Reads a number. -/
def number? : Reader Node
  | '0' :: 'x' :: s => baseInteger? 16 s
  | '0' :: 'o' :: s => baseInteger? 8 s
  | '0' :: 'b' :: s => baseInteger? 2 s
  | s =>
    match sign s with
    | (negative, 'i' :: 'n' :: 'f' :: rest) => some (.float (.infinity negative), rest)
    | (_, 'n' :: 'a' :: 'n' :: rest) => some (.float .nan, rest)
    | (negative, rest) => decimal? negative rest

end RegisterMigration.Toml
