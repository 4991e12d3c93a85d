import RegisterMigration.Toml.DateTime
import RegisterMigration.Toml.Quoted

/-!
# Reading TOML keys and values

A key is a path of parts with points between them, each bare or quoted. A value is a
string, a number, a boolean, a date or time, an array, or a table between braces; arrays
and tables nest fewer than eighty deep, and a path has fewer than eighty parts.
-/

namespace RegisterMigration.Toml

/-- The number of nested values, or of parts of a key, that is refused. -/
def depthLimit : Nat := 80

/-! ## Keys -/

/-- Whether a character may stand in a key without quotes. -/
def isBareChar (c : Char) : Bool :=
  ('a' ≤ c && c ≤ 'z') || ('A' ≤ c && c ≤ 'Z') || ('0' ≤ c && c ≤ '9') || c == '_' || c == '-'

/-- Reads one part of a key. -/
def keyPart? (s : List Char) : Option (String × List Char) :=
  match s with
  | '"' :: _ => (lineString? s).map fun (cs, rest) => (String.ofList cs, rest)
  | '\'' :: _ => (lineString? s).map fun (cs, rest) => (String.ofList cs, rest)
  | _ =>
    match s.takeWhile isBareChar with
    | [] => none
    | c :: cs => some (String.ofList (c :: cs), s.dropWhile isBareChar)

/-- Reads the parts of a key, with blanks around each. -/
def keyParts? (s : List Char) : Option (List String × List Char) :=
  match keyPart? (skipBlanks s) with
  | none => none
  | some (part, rest) =>
    match skipBlanks rest with
    | '.' :: rest =>
      if rest.length < s.length then (keyParts? rest).map fun (ps, rest) => (part :: ps, rest)
      else none
    | rest => some ([part], rest)
termination_by s.length

/-- Reads a key, with the blanks around it. -/
def key? (s : List Char) : Option (List String × List Char) :=
  (keyParts? s).filter fun (path, _) => path.length < depthLimit

/-! ## Values -/

/-- Reads the items of an array, after its opening bracket or a comma. A comma may follow
the last item. -/
def items? (value : Reader Node) (s : List Char) : Option (List Node × List Char) :=
  match skipFiller s with
  | ']' :: rest => some ([], rest)
  | start =>
    match value start with
    | none => none
    | some (v, rest) =>
      match skipFiller rest with
      | ']' :: rest => some ([v], rest)
      | ',' :: rest =>
        if rest.length < s.length then
          (items? value rest).map fun (vs, rest) => (v :: vs, rest)
        else none
      | _ => none
termination_by s.length

/-- Reads a key, an equals sign and a value. -/
def assignment? (value : Reader Node) (s : List Char) :
    Option ((List String × Node) × List Char) :=
  match key? s with
  | some (path, '=' :: rest) =>
    (value (skipBlanks rest)).map fun (v, rest) => ((path, v), skipBlanks rest)
  | _ => none

/-- Reads the entries of a table between braces, after the opening brace or a comma. No
comma may follow the last entry. -/
def inlineEntries? (value : Reader Node) (s : List Char) :
    Option (List (List String × Node) × List Char) :=
  match assignment? value s with
  | some (a, '\x7d' :: rest) => some ([a], rest)
  | some (a, ',' :: rest) =>
    if rest.length < s.length then
      (inlineEntries? value rest).map fun (as, rest) => (a :: as, rest)
    else none
  | _ => none
termination_by s.length

/-- Reads a table after its opening brace. -/
def inlineTable? (value : Reader Node) (s : List Char) : Option (Node × List Char) :=
  match skipBlanks s with
  | '\x7d' :: rest => some (.table .inline [], rest)
  | _ =>
    match inlineEntries? value s with
    | none => none
    | some (assignments, rest) =>
      (Entries.assignAll [] assignments).map fun e => (.table .inline e, rest)

/-- Reads a value that is neither an array nor a table. -/
def scalar? (s : List Char) : Option (Node × List Char) :=
  match s with
  | '"' :: _ => (string? s).map fun (cs, rest) => (.string (String.ofList cs), rest)
  | '\'' :: _ => (string? s).map fun (cs, rest) => (.string (String.ofList cs), rest)
  | 't' :: 'r' :: 'u' :: 'e' :: rest => some (.boolean true, rest)
  | 'f' :: 'a' :: 'l' :: 's' :: 'e' :: rest => some (.boolean false, rest)
  | _ =>
    match dateTime? s with
    | some rest => some (.dateTime, rest)
    | none => number? s

/-- Reads a value in which arrays and tables nest at most `depth` deep. -/
def value? : Nat → Reader Node
  | 0, '[' :: _ => none
  | 0, '\x7b' :: _ => none
  | depth + 1, '[' :: s => (items? (value? depth) s).map fun (vs, rest) => (.array vs, rest)
  | depth + 1, '\x7b' :: s => inlineTable? (value? depth) s
  | _, s => scalar? s

end RegisterMigration.Toml
