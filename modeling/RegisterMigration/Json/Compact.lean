import RegisterMigration.Json.Basic

/-!
# Compact JSON

The shortest layout of a JSON value: no blank anywhere outside strings. It is the form
that content is hashed in, so equal texts have to mean equal values.
-/

namespace RegisterMigration.Json

mutual

/-- The compact text of a value. -/
def compactChars : Json → List Char
  | .null => "null".toList
  | .bool b => (if b then "true" else "false").toList
  | .number n => Nat.toDigits 10 n
  | .string s => quote s
  | .array items => '[' :: compactItems items ++ [']']
  | .object fields => '\x7b' :: compactFields fields ++ ['\x7d']

/-- Values with a comma between each two. -/
def compactItems : List Json → List Char
  | [] => []
  | [v] => compactChars v
  | v :: vs => compactChars v ++ ',' :: compactItems vs

/-- Fields with a comma between each two. -/
def compactFields : List (String × Json) → List Char
  | [] => []
  | [(k, v)] => quote k ++ ':' :: compactChars v
  | (k, v) :: fs => quote k ++ ':' :: (compactChars v ++ ',' :: compactFields fs)

end

/-- The compact text of a value. -/
def compact (v : Json) : String :=
  String.ofList (compactChars v)

end RegisterMigration.Json
