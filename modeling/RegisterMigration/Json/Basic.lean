import RegisterMigration.Text.Numeral

/-!
# JSON values

A JSON value whose objects keep their fields in the order given, so that the text of a
value is determined by the value. Numbers are natural: nothing here is negative or has a
fraction.
-/

namespace RegisterMigration

/-- A JSON value. -/
inductive Json where
  | null
  | bool (b : Bool)
  | number (n : Nat)
  | string (s : String)
  | array (items : List Json)
  | object (fields : List (String × Json))

namespace Json

/-- A string, or `null` where there is none. -/
def ofString? : Option String → Json
  | none => .null
  | some s => .string s

/-! ## Strings -/

/-- Two hexadecimal digits. -/
def twoDigits (n : Nat) : List Char :=
  [Text.hexDigit (n / 16), Text.hexDigit (n % 16)]

/-- A character inside a string: quotes, backslashes and control characters below the
blank are escaped, and everything else stands for itself. -/
def escapeChar (c : Char) : List Char :=
  if c = '"' then ['\\', '"']
  else if c = '\\' then ['\\', '\\']
  else if c.toNat = 0x08 then ['\\', 'b']
  else if c.toNat = 0x09 then ['\\', 't']
  else if c.toNat = 0x0A then ['\\', 'n']
  else if c.toNat = 0x0C then ['\\', 'f']
  else if c.toNat = 0x0D then ['\\', 'r']
  else if c.toNat < 0x20 then '\\' :: 'u' :: '0' :: '0' :: twoDigits c.toNat
  else [c]

/-- A string in quotes. -/
def quote (s : String) : List Char :=
  '"' :: s.toList.flatMap escapeChar ++ ['"']

end Json

end RegisterMigration
