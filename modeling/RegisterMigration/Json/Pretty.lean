import RegisterMigration.Json.Basic

/-!
# Indented JSON

The layout for readers: each item and each field on a line of its own, two more blanks in
front for each level. An array or object without contents stays on one line.
-/

namespace RegisterMigration.Json

/-- The end of a line and the blanks that the next one starts with. -/
def newLine (level : Nat) : List Char :=
  '\n' :: List.replicate (2 * level) ' '

mutual

/-- The text of a value that starts `level` levels deep. -/
def prettyChars (level : Nat) : Json → List Char
  | .null => "null".toList
  | .bool b => (if b then "true" else "false").toList
  | .number n => Nat.toDigits 10 n
  | .string s => quote s
  | .array [] => ['[', ']']
  | .array (v :: vs) =>
    '[' :: prettyItems (level + 1) (v :: vs) ++ newLine level ++ [']']
  | .object [] => ['\x7b', '\x7d']
  | .object (f :: fs) =>
    '\x7b' :: prettyFields (level + 1) (f :: fs) ++ newLine level ++ ['\x7d']

/-- Values, each on a line of its own. -/
def prettyItems (level : Nat) : List Json → List Char
  | [] => []
  | [v] => newLine level ++ prettyChars level v
  | v :: vs => newLine level ++ prettyChars level v ++ ',' :: prettyItems level vs

/-- Fields, each on a line of its own. -/
def prettyFields (level : Nat) : List (String × Json) → List Char
  | [] => []
  | [(k, v)] => newLine level ++ quote k ++ ':' :: ' ' :: prettyChars level v
  | (k, v) :: fs =>
    newLine level ++ quote k ++ ':' :: ' ' :: (prettyChars level v ++ ',' :: prettyFields level fs)

end

/-- The indented text of a value. -/
def pretty (v : Json) : String :=
  String.ofList (prettyChars 0 v)

end RegisterMigration.Json
