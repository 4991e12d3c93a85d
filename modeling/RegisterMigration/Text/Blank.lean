/-!
# Blank characters

Names, versions and numbers are read with blanks at both ends dropped, and a name that
holds nothing but blanks counts as empty. "Blank" is the Unicode property `White_Space`:
twenty-five characters, of which core's `Char.isWhitespace` knows the four commonest.

## Main results

* `trim_eq_nil_iff` — trimming leaves nothing exactly when every character is blank.
-/

namespace RegisterMigration.Text

/-- Whether a character has the Unicode property `White_Space`. -/
def isBlank (c : Char) : Bool :=
  let n := c.toNat
  (0x9 ≤ n && n ≤ 0xD) || n == 0x20 || n == 0x85 || n == 0xA0 || n == 0x1680
    || (0x2000 ≤ n && n ≤ 0x200A) || n == 0x2028 || n == 0x2029 || n == 0x202F
    || n == 0x205F || n == 0x3000

/-- A text without the blanks it ends with. -/
def trimEnd (s : List Char) : List Char :=
  (s.reverse.dropWhile isBlank).reverse

/-- A text without the blanks it starts and ends with. -/
def trim (s : List Char) : List Char :=
  trimEnd (s.dropWhile isBlank)

/-- Whether a text holds nothing but blanks. -/
def allBlank (s : String) : Bool :=
  (trim s.toList).isEmpty

/-- Dropping blanks in front leaves nothing exactly when every character is blank. -/
theorem dropWhile_isBlank_eq_nil_iff {s : List Char} :
    s.dropWhile isBlank = [] ↔ ∀ c ∈ s, isBlank c := by
  induction s with
  | nil => simp
  | cons c s ih => by_cases h : isBlank c <;> simp [h, ih]

/-- Trimming leaves nothing exactly when every character is blank. -/
theorem trim_eq_nil_iff {s : List Char} : trim s = [] ↔ ∀ c ∈ s, isBlank c := by
  induction s with
  | nil => simp [trim, trimEnd]
  | cons c s ih =>
    by_cases h : isBlank c
    · simpa [trim, h] using ih
    · simp only [trim, trimEnd, List.reverse_eq_nil_iff, dropWhile_isBlank_eq_nil_iff]
      simp [h]

end RegisterMigration.Text
