import RegisterMigration.Proofs.PackedValue.Operations

/-!
# Shifts near the top of 32 bits

Placing a value moves its bits up by the shift, with positions counted as they are: what would land above
the new width is lost, and every other bit of the result is unknown.  Taking bits out likewise reads only
from positions that the value has.  This is how every result looks that there is.  But the positions are
added in 32 bits before they are compared with a width, and where a sum does not fit, there is no result:
also for bits that should be lost, or for positions from which there is nothing to be read.

So placing depends on the highest known bit alone, and taking out does not depend on the value at all.  Of
all values of a width, each is placed exactly if the shift and the width fit 32 bits together.

## Main results

* `placesExactly_of_eq_ok`, `extractsExactly_of_eq_ok` — what there is, is exact.
* `placesExactly_iff`, `extractsExactly_iff` — when there is a result.
* `forall_placesExactly_iff` — for which widths and shifts every value is placed.
* `placed_extracted_exact_iff` — both operations at every shift.
-/

namespace RegisterMigration.PartialValue

variable {v x : PartialValue} {register : RegisterId} {width shift : UInt32}

/-- Whether placing a value moves each bit up by the shift, and drops what would land above the new
width. -/
def PlacesExactly (v : PartialValue) (register : RegisterId) (width shift : UInt32) : Prop :=
  ∃ x, v.placed register width shift = .ok x ∧ x.register = register ∧ x.width = width ∧
    ∀ j, x.bit j =
      if j < width.toNat ∧ shift.toNat ≤ j ∧ j < shift.toNat + v.width.toNat then v.bit (j - shift.toNat)
      else none

/-- Whether taking bits out reads each bit at the shift above its place, and nothing from beyond the
value. -/
def ExtractsExactly (v : PartialValue) (register : RegisterId) (width shift : UInt32) : Prop :=
  ∃ x, v.extracted register width shift = .ok x ∧ x.register = register ∧ x.width = width ∧
    ∀ j, x.bit j =
      if j < width.toNat ∧ j + shift.toNat < v.width.toNat then v.bit (j + shift.toNat) else none

/-! ## What there is -/

/-- A value that is placed is the value that is moved up. -/
theorem placesExactly_of_eq_ok (h : v.placed register width shift = .ok x) :
    v.PlacesExactly register width shift := by
  obtain ⟨_, rfl⟩ := ifFits_eq_ok_iff.1 h
  refine ⟨_, h, rfl, rfl, fun j => ?_⟩
  rw [bit_raised]
  by_cases hinside : j < shift.toNat + v.width.toNat
  · simp only [hinside, and_true]
    exact if_congr and_comm rfl rfl
  · have hnone : v.bit (j - shift.toNat) = none := bit_eq_none_of_le (by omega)
    rw [hnone, ite_self, ite_self]

/-- What is taken out of a value is the value that is moved down. -/
theorem extractsExactly_of_eq_ok (h : v.extracted register width shift = .ok x) :
    v.ExtractsExactly register width shift := by
  obtain ⟨_, rfl⟩ := ifFits_eq_ok_iff.1 h
  refine ⟨_, h, rfl, rfl, fun j => ?_⟩
  rw [bit_lowered, Nat.add_comm shift.toNat j]
  by_cases hinside : j + shift.toNat < v.width.toNat
  · simp only [hinside, and_true]
  · have hnone : v.bit (j + shift.toNat) = none := bit_eq_none_of_le (Nat.le_of_not_lt hinside)
    rw [hnone, ite_self, ite_self]

/-! ## When there is a result -/

/-- A value is placed exactly if all its known bits have positions of 32 bits. -/
theorem placesExactly_iff : v.PlacesExactly register width shift ↔
    ∀ i, (v.bit i).isSome → i + shift.toNat < 2 ^ 32 := by
  constructor
  · rintro ⟨x, hx, -⟩
    exact fitsAt_iff.1 (ifFits_eq_ok_iff.1 hx).1
  · intro hfits
    exact placesExactly_of_eq_ok (ifFits_of (fitsAt_iff.2 hfits) _)

theorem placed_eq_error_iff : v.placed register width shift = .error .overflow ↔
    ∃ i, (v.bit i).isSome ∧ 2 ^ 32 ≤ i + shift.toNat := by
  rw [placed, ifFits_eq_error_iff, fitsAt_iff]
  simp only [not_forall, exists_prop, Nat.not_lt]
  rfl

/-- Bits are taken out exactly if the last of them is read at a position of 32 bits. -/
theorem extractsExactly_iff : v.ExtractsExactly register width shift ↔
    width = 0 ∨ shift.toNat + width.toNat ≤ 2 ^ 32 := by
  constructor
  · rintro ⟨x, hx, -⟩
    exact (ifFits_eq_ok_iff.1 hx).1
  · intro hfits
    exact extractsExactly_of_eq_ok (ifFits_of hfits _)

theorem extracted_eq_error_iff : v.extracted register width shift = .error .overflow ↔
    width ≠ 0 ∧ 2 ^ 32 < shift.toNat + width.toNat := by
  rw [extracted, ifFits_eq_error_iff, not_or, Nat.not_le]
  rfl

/-- All values of a width are placed exactly if they fit 32 bits together with the shift. -/
theorem forall_placesExactly_iff {size : UInt32} :
    (∀ v : PartialValue, v.width = size → v.PlacesExactly register width shift) ↔
      size = 0 ∨ shift.toNat + size.toNat ≤ 2 ^ 32 := by
  constructor
  · intro hall
    -- Of the value that is known as a whole, the highest bit needs the highest position.
    have hfits := placesExactly_iff.1 (hall (known ⟨0⟩ size 0) rfl) (size.toNat - 1)
    rw [bit_known] at hfits
    rcases Nat.eq_zero_or_pos size.toNat with hzero | hpos
    · exact Or.inl (UInt32.toNat_inj.1 hzero)
    · rw [if_pos (Nat.sub_lt hpos Nat.one_pos)] at hfits
      have hlast := hfits rfl
      exact Or.inr (by omega)
  · rintro hfits v rfl
    refine placesExactly_iff.2 fun i hi => ?_
    have hinside := lt_width_of_isSome hi
    rcases hfits with hzero | hle
    · rw [hzero] at hinside
      exact absurd hinside (Nat.not_lt_zero i)
    · omega

/-- Placing and taking out at every shift, on values and on packed values.  What there is, is exact.  But
there is nothing if a position does not fit: when placing, one of a known bit, and when taking out, one
that is read, whether or not it is a position of the value. -/
theorem placed_extracted_exact_iff (v : PartialValue) (register : RegisterId) (width shift : UInt32) :
    (v.pack.placed register width shift = (v.placed register width shift).map pack ∧
      v.pack.extracted register width shift = (v.extracted register width shift).map pack) ∧
    (v.PlacesExactly register width shift ∨ v.placed register width shift = .error .overflow) ∧
    (v.ExtractsExactly register width shift ∨ v.extracted register width shift = .error .overflow) ∧
    (v.PlacesExactly register width shift ↔ ∀ i, (v.bit i).isSome → i + shift.toNat < 2 ^ 32) ∧
    (v.ExtractsExactly register width shift ↔ width = 0 ∨ shift.toNat + width.toNat ≤ 2 ^ 32) ∧
    (v.placed register width shift = .error .overflow ↔
      ∃ i, (v.bit i).isSome ∧ 2 ^ 32 ≤ i + shift.toNat) ∧
    (v.extracted register width shift = .error .overflow ↔
      width ≠ 0 ∧ 2 ^ 32 < shift.toNat + width.toNat) ∧
    ((∀ u : PartialValue, u.width = v.width → u.PlacesExactly register width shift) ↔
      v.width = 0 ∨ shift.toNat + v.width.toNat ≤ 2 ^ 32) := by
  refine ⟨⟨PackedValue.placed_pack v register width shift,
      PackedValue.extracted_pack v register width shift⟩, ?_, ?_, placesExactly_iff,
    extractsExactly_iff, placed_eq_error_iff, extracted_eq_error_iff, forall_placesExactly_iff⟩
  · cases hplaced : v.placed register width shift with
    | error e => exact Or.inr rfl
    | ok x => exact Or.inl (placesExactly_of_eq_ok hplaced)
  · cases hextracted : v.extracted register width shift with
    | error e => exact Or.inr rfl
    | ok x => exact Or.inl (extractsExactly_of_eq_ok hextracted)

/-- At the highest shift all bits of a short value should be lost, but all bits except the lowest have no
position, and there is no result. -/
theorem not_forall_placesExactly :
    ¬ ∀ (v : PartialValue) (register : RegisterId) (width shift : UInt32),
      v.PlacesExactly register width shift ∧ v.ExtractsExactly register width shift := by
  intro hall
  obtain ⟨x, hx, -⟩ := (hall (known ⟨0⟩ 8 0xff) ⟨0⟩ 8 4294967295).1
  have hstops : (known ⟨0⟩ 8 0xff).placed ⟨0⟩ 8 4294967295 = .error .overflow := by decide
  rw [hstops] at hx
  cases hx

end RegisterMigration.PartialValue
