/-!
# Bit ranges

A stretch of bit positions in a register, counted from the least significant bit, with
both ends included. Written down with its ends exchanged, a range is inverted: it covers
no position, and it is kept as it is so that it can be reported.
-/

namespace RegisterMigration

/-- The bit positions from `lo` to `hi`. -/
structure BitRange where
  lo : UInt32
  hi : UInt32
  deriving DecidableEq, Repr

namespace BitRange

instance : ToString BitRange where
  toString r := s!"[{r.lo},{r.hi}]"

/-- How many positions are covered. -/
def size (r : BitRange) : Nat :=
  r.hi.toNat + 1 - r.lo.toNat

/-- The width that a range is reported with: the distance of its ends and one more, in
32 bits. An inverted range counts as one bit wide. The range of all positions is the only one
whose width wraps around, to zero; with overflow checks the sum would stop the program. -/
def width (r : BitRange) : UInt32 :=
  (if r.lo ≤ r.hi then r.hi - r.lo else 0) + 1

/-- Whether a position is covered. -/
def covers (r : BitRange) (i : Nat) : Bool :=
  r.lo.toNat ≤ i && i ≤ r.hi.toNat

/-- Whether two ranges meet: each starts no later than the other ends. -/
def overlaps (a b : BitRange) : Bool :=
  a.lo ≤ b.hi && b.lo ≤ a.hi

/-- The first `limit` covered positions, or all where there are fewer, lowest first. -/
def firstPositions (r : BitRange) (limit : Nat) : List Nat :=
  (List.range (min limit r.size)).map (r.lo.toNat + ·)

end BitRange

/-- A named bit range of the processor-context register. -/
structure ContextField where
  name : String
  range : BitRange
  deriving DecidableEq, Repr

end RegisterMigration
