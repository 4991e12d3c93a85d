import Mathlib.Data.Finset.Card
import RegisterMigration.PartialValue

/-!
# Counting known bits

How many bits of a value are known is the size of the set of its known positions.  Values are
compared through these sets: if every known bit of one value has a known bit of another for
its source, and no source is used twice, the first value knows no more than the second.

## Main results

* `countP_isSome_eq_card` — counting entries of a table is counting their indices.
* `knownCount_eq_card` — the count is the size of `knownPositions`.
* `knownCount_le_of_injOn` — a copy that uses no source twice knows no more.
* `knownCount_eq_of_bit_eq` — the same bits are as many.
* `two_le_knownCount`, `knownCount_single_le` — two known bits, and a single one.
-/

namespace RegisterMigration

/-! ## Tables in which entries are missing -/

theorem toList_eq_map_join {α : Type} (xs : Array (Option α)) :
    xs.toList = (List.range xs.size).map fun i => xs[i]?.join := by
  apply List.ext_getElem
  · simp
  · intro i h1 h2
    have hi : i < xs.size := by simpa using h1
    simp [hi]

/-- There are as many entries as there are indices of one. -/
theorem countP_isSome_eq_card {α : Type} (xs : Array (Option α)) :
    xs.countP Option.isSome = ((Finset.range xs.size).filter fun i => xs[i]?.join.isSome).card := by
  have hdecide : (Option.isSome ∘ fun i : Nat => xs[i]?.join) =
      fun i => decide (xs[i]?.join.isSome = true) := by
    funext i
    simp
  rw [← Array.countP_toList, toList_eq_map_join, List.countP_map, List.countP_eq_length_filter,
    hdecide]
  rfl

namespace PartialValue

/-! ## Known bits -/

/-- The positions of the known bits. -/
def knownPositions (v : PartialValue) : Finset Nat :=
  (Finset.range v.width.toNat).filter fun i => (v.bit i).isSome

theorem lt_width_of_isSome {v : PartialValue} {i : Nat} (h : (v.bit i).isSome) :
    i < v.width.toNat := by
  by_contra hge
  rw [bit_eq_none_of_le (Nat.le_of_not_lt hge)] at h
  cases h

theorem mem_knownPositions {v : PartialValue} {i : Nat} :
    i ∈ v.knownPositions ↔ (v.bit i).isSome := by
  rw [knownPositions, Finset.mem_filter, Finset.mem_range]
  exact and_iff_right_of_imp lt_width_of_isSome

/-- The bits of a value, one by one. -/
theorem bits_toList (v : PartialValue) :
    v.bits.toList = (List.range v.width.toNat).map v.bit := by
  rw [toList_eq_map_join, v.size_bits]
  rfl

/-- The number of known bits is the size of the set of their positions. -/
theorem knownCount_eq_card (v : PartialValue) : v.knownCount = v.knownPositions.card := by
  rw [knownCount, countP_isSome_eq_card, v.size_bits]
  rfl

/-- No more bits are known than there are. -/
theorem knownCount_le_width (v : PartialValue) : v.knownCount ≤ v.width.toNat := by
  rw [knownCount_eq_card, knownPositions]
  exact (Finset.card_filter_le _ _).trans (Finset.card_range _).le

/-- A value is unknown if each of its bits is. -/
theorem isUnknown_iff {v : PartialValue} : v.isUnknown ↔ ∀ i, v.bit i = none := by
  rw [isUnknown, ← Array.all_toList, bits_toList, List.all_map, List.all_eq_true]
  constructor
  · intro hall i
    by_contra hsome
    have hlt := lt_width_of_isSome (Option.isSome_iff_ne_none.2 hsome)
    exact hsome (Option.isNone_iff_eq_none.1 (hall i (List.mem_range.2 hlt)))
  · intro hnone i _
    exact Option.isNone_iff_eq_none.2 (hnone i)

/-- A value is fully known if each of its bits is. -/
theorem isFullyKnown_iff {v : PartialValue} :
    v.isFullyKnown ↔ ∀ i < v.width.toNat, (v.bit i).isSome := by
  rw [isFullyKnown, beq_iff_eq, knownCount_eq_card, knownPositions]
  constructor
  · intro hcount i hi
    have hall := Finset.card_filter_eq_iff.1 (hcount.trans (Finset.card_range _).symm)
    exact hall i (Finset.mem_range.2 hi)
  · intro hall
    rw [Finset.card_filter_eq_iff.2 fun i hi => hall i (Finset.mem_range.1 hi), Finset.card_range]

/-- A value whose known bits have distinct known bits of another value for their sources
knows no more than that value. -/
theorem knownCount_le_of_injOn {v w : PartialValue} (source : Nat → Nat)
    (hknown : ∀ i, (w.bit i).isSome → (v.bit (source i)).isSome)
    (hinj : ∀ i j, (w.bit i).isSome → (w.bit j).isSome → source i = source j → i = j) :
    w.knownCount ≤ v.knownCount := by
  rw [knownCount_eq_card, knownCount_eq_card]
  refine Finset.card_le_card_of_injOn source (fun i hi => ?_) fun i hi j hj hij => ?_
  · exact mem_knownPositions.2 (hknown i (mem_knownPositions.1 hi))
  · exact hinj i j (mem_knownPositions.1 hi) (mem_knownPositions.1 hj) hij

/-- Values with the same bits know as many. -/
theorem knownCount_eq_of_bit_eq {v w : PartialValue} (h : ∀ i, w.bit i = v.bit i) :
    w.knownCount = v.knownCount := by
  have hpositions : w.knownPositions = v.knownPositions := by
    ext i
    rw [mem_knownPositions, mem_knownPositions, h]
  rw [knownCount_eq_card, knownCount_eq_card, hpositions]

theorem two_le_knownCount {v : PartialValue} {i j : Nat} (hne : i ≠ j)
    (hi : (v.bit i).isSome) (hj : (v.bit j).isSome) : 2 ≤ v.knownCount := by
  rw [knownCount_eq_card]
  exact Finset.one_lt_card.2
    ⟨i, mem_knownPositions.2 hi, j, mem_knownPositions.2 hj, hne⟩

/-- The value of which only one bit is known, which is set. -/
def single (register : RegisterId) (width : UInt32) (p : Nat) : PartialValue :=
  (unknown register width).withBit p (some true)

theorem bit_single {register : RegisterId} {width : UInt32} {p i : Nat} :
    (single register width p).bit i = if i = p ∧ i < width.toNat then some true else none := by
  rw [single, bit_withBit, bit_unknown]
  rfl

/-- A value of which one bit is known tells the position of that bit from every other one. -/
theorem eq_of_bit_single_eq {register : RegisterId} {width : UInt32} {p q : Nat}
    (hp : p < width.toNat)
    (h : (single register width p).bit q = (single register width p).bit p) : q = p := by
  have hknown : (single register width p).bit p = some true := by
    rw [bit_single, if_pos ⟨rfl, hp⟩]
  rw [hknown, bit_single] at h
  by_contra hne
  rw [if_neg fun hboth => hne hboth.1] at h
  cases h

theorem knownCount_single_le (register : RegisterId) (width : UInt32) (p : Nat) :
    (single register width p).knownCount ≤ 1 := by
  rw [knownCount_eq_card, Finset.card_le_one]
  intro i hi j hj
  rw [mem_knownPositions, bit_single] at hi hj
  split at hi
  · split at hj
    · omega
    · cases hj
  · cases hi

end PartialValue

end RegisterMigration
