import Mathlib.Algebra.Group.Nat.Defs
import RegisterMigration.Proofs.PartialValue.Counting

/-!
# Moving values up and down again

A value that is moved up keeps all its bits below the new width and loses the others.  Moving it down
again gives back what was kept.  This needs positions of 32 bits only: they are, where a value and the
place that it is moved to fit 32 bits together.

## Main results

* `knownCount_raised` — how many known bits are kept.
* `knownCount_raised_eq_iff`, `lowered_raised_eq_iff` — when nothing is lost.
* `fitsAt_iff`, `placed_of_le`, `extracted_of_le` — when there are positions for all bits.
-/

namespace RegisterMigration.PartialValue

variable {v : PartialValue} {register : RegisterId} {width shift : UInt32}

/-- The known bits that are kept are those that stay below the new width. -/
theorem knownCount_raised :
    (v.raised register width shift).knownCount =
      (v.knownPositions.filter fun i => shift.toNat + i < width.toNat).card := by
  rw [knownCount_eq_card]
  symm
  refine Finset.card_bij (fun i _ => shift.toNat + i) ?_ ?_ ?_
  · intro i hi
    obtain ⟨hknown, hlt⟩ := Finset.mem_filter.1 hi
    rw [mem_knownPositions, bit_raised, if_pos ⟨by omega, hlt⟩, Nat.add_sub_cancel_left]
    exact mem_knownPositions.1 hknown
  · intro i _ j _ hij
    omega
  · intro j hj
    rw [mem_knownPositions, bit_raised] at hj
    split at hj
    · rename_i hboth
      refine ⟨j - shift.toNat, Finset.mem_filter.2 ⟨mem_knownPositions.2 hj, ?_⟩, ?_⟩
      · omega
      · omega
    · cases hj

/-- As many bits are known as before exactly if all known bits stay below the new width. -/
theorem knownCount_raised_eq_iff :
    (v.raised register width shift).knownCount = v.knownCount ↔
      ∀ i, (v.bit i).isSome → shift.toNat + i < width.toNat := by
  rw [knownCount_raised, knownCount_eq_card, Finset.card_filter_eq_iff]
  exact forall_congr' fun i => by rw [mem_knownPositions]

/-- Moving the value down again gives it back exactly if all known bits stay below the new
width. -/
theorem lowered_raised_eq_iff :
    (v.raised register width shift).lowered v.register v.width shift = v ↔
      ∀ i, (v.bit i).isSome → shift.toNat + i < width.toNat := by
  have hbit : ∀ i, ((v.raised register width shift).lowered v.register v.width shift).bit i =
      if shift.toNat + i < width.toNat then v.bit i else none := by
    intro i
    rw [bit_lowered, bit_raised, Nat.add_sub_cancel_left]
    by_cases hi : i < v.width.toNat
    · rw [if_pos hi]
      simp only [Nat.le_add_right, true_and]
    · rw [if_neg hi, bit_eq_none_of_le (Nat.le_of_not_lt hi), ite_self]
  constructor
  · intro heq i hi
    by_contra hge
    rw [← heq, hbit, if_neg hge] at hi
    cases hi
  · intro hkept
    refine ext_bit rfl rfl fun i => ?_
    rw [hbit]
    split
    · rfl
    · rename_i hge
      cases hi : v.bit i with
      | none => rfl
      | some b => exact absurd (hkept i (by rw [hi]; rfl)) hge

/-! ## Positions of 32 bits -/

theorem fitsAt_iff :
    v.fitsAt shift ↔ ∀ i, (v.bit i).isSome → i + shift.toNat < UInt32.size := by
  unfold fitsAt
  rw [List.all_eq_true]
  constructor
  · intro hall i hi
    have hinside := lt_width_of_isSome hi
    have hfits := hall i (List.mem_range.2 hinside)
    rw [Bool.or_eq_true, Option.isNone_iff_eq_none, decide_eq_true_iff] at hfits
    rcases hfits with hnone | hlt
    · rw [hnone] at hi
      cases hi
    · exact hlt
  · intro hall i _
    rw [Bool.or_eq_true, decide_eq_true_iff]
    cases hi : v.bit i with
    | none => exact Or.inl rfl
    | some b => exact Or.inr (hall i (by rw [hi]; rfl))

/-- Where a value and its place fit 32 bits together, so do all its positions. -/
theorem placed_of_le (h : shift.toNat + v.width.toNat ≤ 2 ^ 32) :
    v.placed register width shift = .ok (v.raised register width shift) := by
  refine ifFits_of (fitsAt_iff.2 fun i hi => ?_) _
  have hinside := lt_width_of_isSome hi
  rw [UInt32.size]
  omega

theorem extracted_of_le (h : shift.toNat + width.toNat ≤ 2 ^ 32) :
    v.extracted register width shift = .ok (v.lowered register width shift) :=
  ifFits_of (Or.inr h) _

end RegisterMigration.PartialValue
