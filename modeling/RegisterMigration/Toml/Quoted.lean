import RegisterMigration.Text.Numeral
import RegisterMigration.Toml.Line

/-!
# Quoted strings

A TOML string is written in one of four ways: between double quotes or single quotes, each
either once or three times. Double quotes allow escapes, single quotes take every
character as it is. Three quotes allow line breaks; a line break is read as a line feed
however it is written, one directly after the opening quotes is dropped, and one or two
quotes may stand directly before the closing three.

## Main results

* `length_escape_lt` — an escape takes at least one character.
-/

namespace RegisterMigration.Toml

/-! ## Escapes -/

/-- The character with a code point in `n` hexadecimal digits. -/
def codePoint? (n : Nat) (s : List Char) : Option (Char × List Char) :=
  let ds := s.take n
  let code := Text.numberOf 16 ds
  if ds.length = n ∧ ds.all (Text.hexDigitValue? · |>.isSome) ∧ code.isValidChar then
    some (Char.ofNat code, s.drop n)
  else none

/-- Reads an escape after its backslash. -/
def escape? : Reader Char
  | 'b' :: s => some ('\x08', s)
  | 't' :: s => some ('\t', s)
  | 'n' :: s => some ('\n', s)
  | 'f' :: s => some ('\x0c', s)
  | 'r' :: s => some ('\r', s)
  | '"' :: s => some ('"', s)
  | '\\' :: s => some ('\\', s)
  | 'u' :: s => codePoint? 4 s
  | 'U' :: s => codePoint? 8 s
  | _ => none

/-- A code point takes no character back. -/
theorem length_codePoint_le {n : Nat} {s t : List Char} {c : Char}
    (h : codePoint? n s = some (c, t)) : t.length ≤ s.length := by
  simp only [codePoint?] at h
  split at h
  · simp only [Option.some.injEq, Prod.mk.injEq] at h
    simp [← h.2]
  · contradiction

/-- An escape takes at least one character. -/
theorem length_escape_lt {s t : List Char} {c : Char} (h : escape? s = some (c, t)) :
    t.length < s.length := by
  unfold escape? at h
  split at h <;> first
    | contradiction
    | exact Nat.lt_succ_of_le (length_codePoint_le h)
    | simp only [Option.some.injEq, Prod.mk.injEq] at h
      simp [← h.2]

/-! ## Strings on one line -/

/-- Reads a string in double quotes after the opening one. -/
def basic? (s : List Char) : Option (List Char × List Char) :=
  match s with
  | [] => none
  | '"' :: s => some ([], s)
  | '\\' :: s =>
    match h : escape? s with
    | none => none
    | some (c, rest) =>
      have := length_escape_lt h
      (basic? rest).map fun (cs, rest) => (c :: cs, rest)
  | c :: s =>
    if isTextChar c then (basic? s).map fun (cs, rest) => (c :: cs, rest) else none
termination_by s.length

/-- Reads a string in single quotes after the opening one. -/
def literal? : Reader (List Char)
  | [] => none
  | '\'' :: s => some ([], s)
  | c :: s =>
    if isTextChar c then (literal? s).map fun (cs, rest) => (c :: cs, rest) else none

/-! ## Strings on several lines -/

/-- The text without a line break at its beginning. -/
def dropLineBreak (s : List Char) : List Char :=
  (lineBreak? s).getD s

/-- Up to two quotes that stand directly before the closing three, which have been taken off
already. -/
def quotesBeforeEnd (quote : Char) : List Char → List Char × List Char
  | c :: d :: s =>
    if c = quote then if d = quote then ([c, d], s) else ([c], d :: s) else ([], c :: d :: s)
  | [c] => if c = quote then ([c], []) else ([], [c])
  | [] => ([], [])

/-- What follows a line break that is escaped, with the blanks around it and all further
line breaks and blanks. -/
def escapedLineBreak? (s : List Char) : Option (List Char) :=
  (lineBreak? (skipBlanks s)).map skipBlankLines

/-- Skipping takes no character back. -/
theorem length_skipBlanks_le (s : List Char) : (skipBlanks s).length ≤ s.length := by
  fun_induction skipBlanks s <;> simp_all <;> omega

/-- Skipping lines takes no character back. -/
theorem length_skipBlankLines_le (s : List Char) : (skipBlankLines s).length ≤ s.length := by
  fun_induction skipBlankLines s <;> simp_all <;> omega

/-- A line break takes at least one character. -/
theorem length_lineBreak_lt {s t : List Char} (h : lineBreak? s = some t) :
    t.length < s.length := by
  unfold lineBreak? at h
  split at h
  · obtain rfl := Option.some.inj h
    rw [List.length_cons]
    omega
  · obtain rfl := Option.some.inj h
    rw [List.length_cons, List.length_cons]
    omega
  · contradiction

/-- An escaped line break takes at least one character. -/
theorem length_escapedLineBreak_lt {s t : List Char} (h : escapedLineBreak? s = some t) :
    t.length < s.length := by
  obtain ⟨u, hu, rfl⟩ := Option.map_eq_some_iff.1 h
  have h1 := length_lineBreak_lt hu
  have h2 := length_skipBlanks_le s
  have h3 := length_skipBlankLines_le u
  omega

/-- Reads a string in three double quotes after the opening ones. -/
def multilineBasic? (s : List Char) : Option (List Char × List Char) :=
  match s with
  | [] => none
  | '"' :: '"' :: '"' :: s => some (quotesBeforeEnd '"' s)
  | '\\' :: s =>
    match hb : escapedLineBreak? s with
    | some rest =>
      have := length_escapedLineBreak_lt hb
      multilineBasic? rest
    | none =>
      match h : escape? s with
      | none => none
      | some (c, rest) =>
        have := length_escape_lt h
        (multilineBasic? rest).map fun (cs, rest) => (c :: cs, rest)
  | '\r' :: '\n' :: s => (multilineBasic? s).map fun (cs, rest) => ('\n' :: cs, rest)
  | c :: s =>
    if isTextChar c || c == '\n' then
      (multilineBasic? s).map fun (cs, rest) => (c :: cs, rest)
    else none
termination_by s.length

/-- Reads a string in three single quotes after the opening ones. -/
def multilineLiteral? : Reader (List Char)
  | [] => none
  | '\'' :: '\'' :: '\'' :: s => some (quotesBeforeEnd '\'' s)
  | '\r' :: '\n' :: s => (multilineLiteral? s).map fun (cs, rest) => ('\n' :: cs, rest)
  | c :: s =>
    if isTextChar c || c == '\n' then
      (multilineLiteral? s).map fun (cs, rest) => (c :: cs, rest)
    else none

/-! ## Any string -/

/-- Reads a string that may not go over several lines. -/
def lineString? : Reader (List Char)
  | '"' :: s => basic? s
  | '\'' :: s => literal? s
  | _ => none

/-- Reads a string of any of the four kinds. -/
def string? : Reader (List Char)
  | '"' :: '"' :: '"' :: s => multilineBasic? (dropLineBreak s)
  | '\'' :: '\'' :: '\'' :: s => multilineLiteral? (dropLineBreak s)
  | s => lineString? s

end RegisterMigration.Toml
