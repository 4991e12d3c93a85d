import Mathlib.Algebra.Group.Nat.Defs
import RegisterMigration.BitRange

/-!
# Bit ranges as sets of positions

A range that is not inverted and ends below the top of 32 bits is reported with its exact
size, and two such ranges meet exactly if some position is covered by both.  Both facts fail
for inverted ranges, which is why a loaded language has none.
-/

namespace RegisterMigration.BitRange

/-- Which positions are covered. -/
theorem covers_iff {r : BitRange} {i : Nat} :
    r.covers i ↔ r.lo.toNat ≤ i ∧ i ≤ r.hi.toNat := by
  simp [covers]

/-- The width is counted in 32 bits, which is too few for the range of all positions alone. -/
theorem toNat_width_mod {r : BitRange} (hle : r.lo.toNat ≤ r.hi.toNat) :
    r.width.toNat = r.size % 2 ^ 32 := by
  have hlo : r.lo ≤ r.hi := UInt32.le_iff_toNat_le.2 hle
  rw [width, if_pos hlo, UInt32.toNat_add, UInt32.toNat_sub_of_le _ _ hlo, size]
  simp only [UInt32.toNat_one]
  omega

/-- The reported width is the number of covered positions, as long as it fits 32 bits. -/
theorem toNat_width {r : BitRange} (hle : r.lo.toNat ≤ r.hi.toNat)
    (htop : r.hi.toNat + 1 < 2 ^ 32) : r.width.toNat = r.size := by
  rw [toNat_width_mod hle, size]
  omega

/-- A range is reported with at most 64 positions if it has no more, and by mistake if it has all
that there are. -/
theorem not_lt_width_iff {r : BitRange} : ¬ 64 < r.width ↔ r.size ≤ 64 ∨ r.size = 2 ^ 32 := by
  have hhi := r.hi.toNat_lt
  have hsize : r.size = r.hi.toNat + 1 - r.lo.toNat := rfl
  have hlimit : (64 : UInt32).toNat = 64 := rfl
  rw [UInt32.lt_iff_toNat_lt, hlimit]
  by_cases hle : r.lo.toNat ≤ r.hi.toNat
  · rw [toNat_width_mod hle]
    omega
  · have hinverted : ¬ r.lo ≤ r.hi := fun h => hle (UInt32.le_iff_toNat_le.1 h)
    have hone : r.width.toNat = 1 := by
      rw [width, if_neg hinverted]
      rfl
    omega

/-- A position is its distance from the low end, in 32 bits as well. -/
theorem toNat_lo_add {r : BitRange} {i : Nat} (hi : i < r.size) :
    (r.lo + UInt32.ofNat i).toNat = r.lo.toNat + i := by
  have hhi := r.hi.toNat_lt
  rw [size] at hi
  rw [UInt32.toNat_add, UInt32.toNat_ofNat']
  omega

/-- Ranges that are reported with the same width cover as many positions. -/
theorem width_eq_iff {a b : BitRange} (ha : a.lo.toNat ≤ a.hi.toNat)
    (hatop : a.hi.toNat + 1 < 2 ^ 32) (hb : b.lo.toNat ≤ b.hi.toNat)
    (hbtop : b.hi.toNat + 1 < 2 ^ 32) : a.width = b.width ↔ a.size = b.size := by
  rw [← UInt32.toNat_inj, toNat_width ha hatop, toNat_width hb hbtop]

/-- Ranges meet exactly if they share a position. -/
theorem overlaps_iff {a b : BitRange} (ha : a.lo.toNat ≤ a.hi.toNat)
    (hb : b.lo.toNat ≤ b.hi.toNat) :
    a.overlaps b ↔ ∃ i, a.covers i ∧ b.covers i := by
  simp only [overlaps, Bool.and_eq_true, decide_eq_true_eq, UInt32.le_iff_toNat_le, covers_iff]
  constructor
  · intro h
    rcases h with ⟨h1, h2⟩
    exact ⟨max a.lo.toNat b.lo.toNat, by omega⟩
  · intro h
    rcases h with ⟨i, h1, h2⟩
    omega

/-- Meeting is mutual. -/
theorem overlaps_comm (a b : BitRange) : a.overlaps b = b.overlaps a := by
  simp only [overlaps, Bool.and_comm]

end RegisterMigration.BitRange
