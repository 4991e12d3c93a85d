/-!
# Lines, blanks and remarks

The layout of TOML text. Blanks are spaces and tabs; a line ends with a line feed, with a
carriage return and a line feed, or with the text. A remark runs from `#` to the end of
its line. Control characters other than the tab are allowed nowhere.

A reader takes what it reads off the front of the text and returns the rest.
-/

namespace RegisterMigration.Toml

/-- Takes a value off the front of a text; `none` if the text is malformed there. -/
abbrev Reader (α : Type) := List Char → Option (α × List Char)

/-- Whether a character may stand in strings and remarks: no control character but the
tab. -/
def isTextChar (c : Char) : Bool :=
  c == '\t' || (0x20 ≤ c.toNat && c.toNat != 0x7F)

/-- Drops spaces and tabs. -/
def skipBlanks : List Char → List Char
  | ' ' :: s => skipBlanks s
  | '\t' :: s => skipBlanks s
  | s => s

/-- What follows a line break, if the text starts with one. -/
def lineBreak? : List Char → Option (List Char)
  | '\n' :: s => some s
  | '\r' :: '\n' :: s => some s
  | _ => none

/-- What follows the end of a line: blanks, at most one remark, and a line break or the end
of the text. -/
def lineEnd? (s : List Char) : Option (List Char) :=
  let rest :=
    match skipBlanks s with
    | '#' :: s => s.dropWhile isTextChar
    | s => s
  if rest.isEmpty then some [] else lineBreak? rest

/-- Drops blanks and line breaks. -/
def skipBlankLines : List Char → List Char
  | ' ' :: s => skipBlankLines s
  | '\t' :: s => skipBlankLines s
  | '\n' :: s => skipBlankLines s
  | '\r' :: '\n' :: s => skipBlankLines s
  | s => s

mutual

/-- Drops blanks, line breaks and remarks. -/
def skipFiller : List Char → List Char
  | ' ' :: s => skipFiller s
  | '\t' :: s => skipFiller s
  | '\n' :: s => skipFiller s
  | '\r' :: '\n' :: s => skipFiller s
  | '#' :: s => skipRemark s
  | s => s

/-- Drops the rest of a remark and what `skipFiller` drops after it. -/
def skipRemark : List Char → List Char
  | '\n' :: s => skipFiller s
  | '\r' :: '\n' :: s => skipFiller s
  | c :: s => if isTextChar c then skipRemark s else c :: s
  | [] => []

end

end RegisterMigration.Toml
