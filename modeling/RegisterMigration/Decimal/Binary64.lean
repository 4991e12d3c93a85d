/-!
# Double-precision numbers

A floating-point number of 64 bits as the exact number it stands for: a significand below
`2 ^ 53` times a power of two. Reading a decimal goes through exact fractions, so the
result is the nearest number there is, ties going to the even significand, however long
the decimal.
-/

namespace RegisterMigration.Decimal

/-- A floating-point number of 64 bits. -/
inductive Binary64 where
  | nan
  | infinity (negative : Bool)
  /-- The number `significand * 2 ^ exponent`, with its sign kept apart. -/
  | finite (negative : Bool) (significand : Nat) (exponent : Int)
  deriving DecidableEq, Repr

namespace Binary64

/-- The exponent of the smallest positive number. -/
def minExponent : Int := -1074

/-- The exponent of the largest number. -/
def maxExponent : Int := 971

/-- The number of bits of a significand. -/
def precision : Nat := 53

/-- A fraction divided by a power of two, as a fraction. -/
def scaleDown (num den : Nat) (q : Int) : Nat × Nat :=
  if 0 ≤ q then (num, den <<< q.toNat) else (num <<< (-q).toNat, den)

/-- The whole number nearest to a fraction; halfway, the even one. -/
def roundHalfEven (num den : Nat) : Nat :=
  let whole := num / den
  let twice := 2 * (num % den)
  if twice < den then whole
  else if den < twice then whole + 1
  else whole + whole % 2

/-- The exponent that leaves a fraction `num / den` a significand of 53 bits, or of fewer
where the number is too small for that. -/
def exponentOf (num den : Nat) : Int :=
  let q := (Nat.log2 num : Int) - Nat.log2 den - precision
  let (n, d) := scaleDown num den q
  max (if n / d < 1 <<< precision then q else q + 1) minExponent

/-- The number nearest to the fraction `num / den`, `0 < num` and `0 < den`. -/
def ofFraction (negative : Bool) (num den : Nat) : Binary64 :=
  let q := exponentOf num den
  let (n, d) := scaleDown num den q
  let m := roundHalfEven n d
  let (m, q) := if m = 1 <<< precision then (1 <<< (precision - 1), q + 1) else (m, q)
  if maxExponent < q then .infinity negative else .finite negative m q

/-- The number nearest to `digits * 10 ^ exponent`. -/
def ofDecimal (negative : Bool) (digits : Nat) (exponent : Int) : Binary64 :=
  let top := ((Nat.toDigits 10 digits).length : Int) + exponent
  if digits = 0 ∨ top < -330 then .finite negative 0 minExponent
  else if 330 < top then .infinity negative
  else if 0 ≤ exponent then ofFraction negative (digits * Nat.pow 10 exponent.toNat) 1
  else ofFraction negative digits (Nat.pow 10 (-exponent).toNat)

end Binary64

end RegisterMigration.Decimal
