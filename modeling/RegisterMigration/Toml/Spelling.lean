import RegisterMigration.Json.Basic
import RegisterMigration.Toml.Line

/-!
# Writing TOML values

A string is written in the plainest of the four ways that shows it without escapes, and
with escapes if there is none. "Plainest" goes from double quotes over single quotes to
three double and three single quotes. Numbers are decimal.
-/

namespace RegisterMigration.Toml

/-! ## Choosing the quotes -/

/-- How a string is quoted. -/
inductive Quoting where
  /-- One double quote on either side. -/
  | basic
  /-- One single quote on either side. -/
  | literal
  /-- Three double quotes on either side. -/
  | multilineBasic
  /-- Three single quotes on either side. -/
  | multilineLiteral
  deriving DecidableEq, Repr

/-- Whether a character cannot be shown: a control character other than tab and line
feed. -/
def needsCode (c : Char) : Bool :=
  (c.toNat < 0x20 && c != '\t' && c != '\n') || c.toNat == 0x7F

/-- The length of the longest run of a character, where `run` of them have just been seen
and the longest run so far had `longest`. -/
def longestRun (q : Char) (run longest : Nat) : List Char → Nat
  | [] => longest
  | c :: s =>
    if c = q then longestRun q (run + 1) (max longest (run + 1)) s else longestRun q 0 longest s

/-- The plainest quotes that show a text without escapes, or else quotes that allow
escapes. -/
def Quoting.choose (s : List Char) : Quoting :=
  let coded := s.any needsCode
  let lines := s.contains '\n'
  let doubles := longestRun '"' 0 0 s
  let singles := longestRun '\'' 0 0 s
  if !coded && !s.contains '\\' && doubles == 0 && !lines then .basic
  else if !coded && singles == 0 && !lines then .literal
  else if !coded && !s.contains '\\' && doubles ≤ 2 then .multilineBasic
  else if !coded && singles ≤ 2 then .multilineLiteral
  else if lines then .multilineBasic
  else .basic

/-! ## Writing strings -/

/-- A character between double quotes, line feeds and quotes apart. -/
def escapeChar (c : Char) : List Char :=
  if c = '\\' then ['\\', '\\']
  else if c = '\t' then ['\\', 't']
  else if c = '\r' then ['\\', 'r']
  else if c.toNat = 0x08 then ['\\', 'b']
  else if c.toNat = 0x0C then ['\\', 'f']
  else if c.toNat < 0x20 ∨ c.toNat = 0x7F then
    '\\' :: 'u' :: '0' :: '0' :: (Json.twoDigits c.toNat).map Char.toUpper
  else [c]

/-- The inside of a string between double quotes. Up to `allowed` quotes in a row stand for
themselves, and the next one is escaped; `run` is how many have just been written. -/
def basicBody (lines : Bool) (allowed run : Nat) : List Char → List Char
  | [] => []
  | c :: s =>
    if c = '"' then
      if run < allowed then '"' :: basicBody lines allowed (run + 1) s
      else '\\' :: '"' :: basicBody lines allowed 0 s
    else if c = '\n' then
      (if lines then ['\n'] else ['\\', 'n']) ++ basicBody lines allowed 0 s
    else escapeChar c ++ basicBody lines allowed 0 s

/-- Three quotes, with a line break behind them if the text goes over several lines. -/
def openQuotes (q : Char) (s : List Char) : List Char :=
  [q, q, q] ++ if s.contains '\n' then ['\n'] else []

/-- A text in given quotes. -/
def Quoting.write (s : List Char) : Quoting → List Char
  | basic => '"' :: basicBody false 0 0 s ++ ['"']
  | literal => '\'' :: s ++ ['\'']
  | multilineBasic => openQuotes '"' s ++ basicBody true 2 0 s ++ ['"', '"', '"']
  | multilineLiteral => openQuotes '\'' s ++ s ++ ['\'', '\'', '\'']

/-- A string as a TOML value. -/
def writeString (s : String) : List Char :=
  (Quoting.choose s.toList).write s.toList

/-! ## Other values -/

/-- A number as a TOML value. -/
def writeNat (n : Nat) : List Char :=
  Nat.toDigits 10 n

/-- A boolean as a TOML value. -/
def writeBool (b : Bool) : List Char :=
  (if b then "true" else "false").toList

/-- An array of two numbers, over four lines. -/
def writePair (a b : Nat) : List Char :=
  "[\n    ".toList ++ writeNat a ++ ",\n    ".toList ++ writeNat b ++ ",\n]".toList

/-- A line that assigns a value, given as it is written, to a bare key. -/
def writeAssignment (key : String) (value : List Char) : List Char :=
  key.toList ++ " = ".toList ++ value ++ ['\n']

/-- The header of one more table under a bare key, after an empty line. -/
def writeElementHeader (key : String) : List Char :=
  "\n[[".toList ++ key.toList ++ "]]\n".toList

end RegisterMigration.Toml
