import RegisterMigration.Text.Numeral
import RegisterMigration.Text.Printable

/-!
# Text quoted in messages

A text that a message quotes is put between double quotes, with escapes for the quotes and
backslashes in it, for line breaks and tabs, and for every character that would not be
seen: blanks other than the space, control and format characters, combining marks, and
code points without a character.
-/

namespace RegisterMigration.Text

/-- A character as a message quotes it. -/
def escapeForMessage (c : Char) : List Char :=
  if c = '"' then ['\\', '"']
  else if c = '\\' then ['\\', '\\']
  else if c = '\n' then ['\\', 'n']
  else if c = '\r' then ['\\', 'r']
  else if c = '\t' then ['\\', 't']
  else if c.toNat = 0 then ['\\', '0']
  else if isVisible c then [c]
  else '\\' :: 'u' :: '\x7b' :: Nat.toDigits 16 c.toNat ++ ['\x7d']

/-- A text as a message quotes it. -/
def quoteForMessage (s : String) : String :=
  String.ofList ('"' :: s.toList.flatMap escapeForMessage ++ ['"'])

end RegisterMigration.Text
