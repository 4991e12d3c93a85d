import Mathlib.Data.Nat.Bitwise
import RegisterMigration.PartialValue

/-!
# The bytes of a value

A value is spelled as two strings of bytes, the mask and the known bits, both from the most
significant byte on.  Memory is addressed the other way in a little-endian language, so bytes are
numbered here from the least significant one.  Byte `k` of the mask and byte `k` of the known bits
belong together: they say of bits `8 * k` to `8 * k + 7` which are known and which are set.

Every byte is thus laid out from eight bits, and to compare two bytes it is enough to compare the
bits that they are laid out from.

## Main results

* `Binary.getElem?_reverse_toBigEndian` — the bytes of a number, from the least significant one.
* `ofBigEndian_maskBytes`, `ofBigEndian_valueBytes` — the bytes of a value spell it in full.
* `byte_eq_ofBits` — a byte of a value is laid out from the bits of the value.
* `byte_eq_low` — a byte of which the low bits are those of another byte.
-/

namespace RegisterMigration

/-! ## Bytes of numbers -/

namespace Binary

/-- Byte `k` of a number, counted from the least significant one. -/
theorem getElem?_reverse_toBigEndian (length n k : Nat) :
    (toBigEndian length n).reverse[k]? =
      if k < length then some (UInt8.ofNat (n / 256 ^ k)) else none := by
  induction length generalizing n k with
  | zero => simp [toBigEndian]
  | succ length ih =>
      rw [toBigEndian, List.reverse_append, List.reverse_singleton, List.singleton_append]
      cases k with
      | zero => simp
      | succ k =>
          rw [List.getElem?_cons_succ, ih, Nat.div_div_eq_div_mul, ← Nat.pow_succ']
          simp only [Nat.add_lt_add_iff_right]

/-- The bits of a byte are those of the number that it is cut out of. -/
theorem testBit_byte (n k j : Nat) :
    (UInt8.ofNat (n / 256 ^ k)).toNat.testBit j = (decide (j < 8) && n.testBit (8 * k + j)) := by
  have hpow : 256 ^ k = 2 ^ (8 * k) := by rw [Nat.pow_mul]
  rw [UInt8.toNat_ofNat', Nat.testBit_mod_two_pow, hpow, Nat.testBit_div_two_pow, Nat.add_comm j]

/-- Bytes with the same eight bits are the same. -/
theorem eq_of_testBit_eq {a b : UInt8} (h : ∀ j < 8, a.toNat.testBit j = b.toNat.testBit j) :
    a = b := by
  rw [← UInt8.toNat_inj]
  refine Nat.eq_of_testBit_eq fun j => ?_
  by_cases hj : j < 8
  · exact h j hj
  · have htop : 2 ^ 8 ≤ 2 ^ j := Nat.pow_le_pow_right (by decide) (by omega)
    rw [Nat.testBit_lt_two_pow (Nat.lt_of_lt_of_le a.toNat_lt htop),
      Nat.testBit_lt_two_pow (Nat.lt_of_lt_of_le b.toNat_lt htop)]

end Binary

/-! ## Bytes of values -/

/-- A byte of a register's contents: which of its bits are known, and which of these are set. -/
structure PartialByte where
  mask : UInt8
  value : UInt8
  deriving DecidableEq, Repr

namespace PartialByte

/-- The byte of which nothing is known. -/
def unknown : PartialByte :=
  ⟨0, 0⟩

/-- The lowest `n` bits of a byte; the bits above them are cleared. -/
def low (b : PartialByte) (n : Nat) : PartialByte :=
  ⟨b.mask &&& UInt8.ofNat (2 ^ n - 1), b.value &&& UInt8.ofNat (2 ^ n - 1)⟩

/-- The byte whose bit `j` is `f j`. -/
def ofBits (f : Nat → Option Bool) : PartialByte where
  mask := UInt8.ofNat (Binary.ofBits ((List.range 8).map fun j => (f j).isSome))
  value := UInt8.ofNat (Binary.ofBits ((List.range 8).map fun j => f j == some true))

variable {f g : Nat → Option Bool}

theorem ofBits_congr (h : ∀ j < 8, f j = g j) : ofBits f = ofBits g := by
  have hmap : ∀ p : Option Bool → Bool,
      (List.range 8).map (fun j => p (f j)) = (List.range 8).map fun j => p (g j) := by
    intro p
    refine List.map_congr_left fun j hj => ?_
    rw [h j (List.mem_range.1 hj)]
  rw [ofBits, ofBits, hmap Option.isSome, hmap (· == some true)]

theorem testBit_ofBits (p : Nat → Bool) {j : Nat} (hj : j < 8) :
    (UInt8.ofNat (Binary.ofBits ((List.range 8).map p))).toNat.testBit j = p j := by
  have hbit := Binary.testBit_byte (Binary.ofBits ((List.range 8).map p)) 0 j
  rw [Nat.pow_zero, Nat.div_one] at hbit
  rw [hbit, Binary.testBit_ofBits]
  simp [hj]

theorem ofBits_eq_unknown (h : ∀ j < 8, f j = none) : ofBits f = unknown := by
  rw [ofBits_congr h]
  rfl

/-- Which bits are left when the lowest `n` are kept. -/
theorem testBit_and_low (b : UInt8) (n : Nat) {j : Nat} (hj : j < 8) :
    (b &&& UInt8.ofNat (2 ^ n - 1)).toNat.testBit j = (b.toNat.testBit j && decide (j < n)) := by
  have hkeep := Binary.testBit_byte (2 ^ n - 1) 0 j
  rw [Nat.pow_zero, Nat.div_one, Nat.mul_zero, Nat.zero_add, Nat.testBit_two_pow_sub_one,
    decide_eq_true hj, Bool.true_and] at hkeep
  rw [UInt8.toNat_and, Nat.testBit_and, hkeep]

/-- Clearing the bits from `n` on makes them unknown. -/
theorem low_ofBits (f : Nat → Option Bool) (n : Nat) :
    (ofBits f).low n = ofBits fun j => if j < n then f j else none := by
  rw [low, ofBits, ofBits, mk.injEq]
  constructor <;> refine Binary.eq_of_testBit_eq fun j hj => ?_
  · rw [testBit_and_low _ n hj, testBit_ofBits _ hj, testBit_ofBits _ hj]
    by_cases hn : j < n <;> simp [hn]
  · rw [testBit_and_low _ n hj, testBit_ofBits _ hj, testBit_ofBits _ hj]
    by_cases hn : j < n <;> simp [hn]

end PartialByte

namespace PartialValue

/-- Byte `k` of a value, counted from the least significant one.  Nothing is known past the last
byte. -/
def byte (v : PartialValue) (k : Nat) : PartialByte where
  mask := v.maskBytes.reverse.getD k 0
  value := v.valueBytes.reverse.getD k 0

theorem testBit_mask (v : PartialValue) (i : Nat) : v.mask.testBit i = (v.bit i).isSome := by
  rw [mask, Binary.testBit_ofBits, bit, List.getElem?_map, Array.getElem?_toList]
  cases v.bits[i]? <;> rfl

theorem testBit_value (v : PartialValue) (i : Nat) :
    v.value.testBit i = (v.bit i == some true) := by
  rw [value, Binary.testBit_ofBits, bit, List.getElem?_map, Array.getElem?_toList]
  cases v.bits[i]? <;> rfl

theorem value_lt (v : PartialValue) : v.value < 2 ^ v.width.toNat := by
  apply Nat.lt_pow_two_of_testBit
  intro i hi
  rw [testBit_value, bit_eq_none_of_le hi]
  rfl

/-- The bytes of a value have room for its bits. -/
theorem two_pow_le_bytes (width : UInt32) : 2 ^ width.toNat ≤ 256 ^ byteLength width := by
  calc 2 ^ width.toNat ≤ 2 ^ (8 * byteLength width) :=
        Nat.pow_le_pow_right (by decide) (by rw [byteLength]; omega)
    _ = 256 ^ byteLength width := Nat.pow_mul 2 8 _

/-- A byte of a value is laid out from the value's bits. -/
theorem byte_eq_ofBits (v : PartialValue) (k : Nat) :
    v.byte k = .ofBits fun j => v.bit (8 * k + j) := by
  by_cases hk : k < byteLength v.width
  · rw [byte, PartialByte.ofBits, PartialByte.mk.injEq, maskBytes, valueBytes]
    simp only [List.getD_eq_getElem?_getD, Binary.getElem?_reverse_toBigEndian, if_pos hk,
      Option.getD_some]
    constructor <;> refine Binary.eq_of_testBit_eq fun j hj => ?_
    · rw [Binary.testBit_byte, PartialByte.testBit_ofBits _ hj, testBit_mask, decide_eq_true hj,
        Bool.true_and]
    · rw [Binary.testBit_byte, PartialByte.testBit_ofBits _ hj, testBit_value, decide_eq_true hj,
        Bool.true_and]
  · have hpast : ∀ j < 8, v.bit (8 * k + j) = none := by
      intro j _
      refine bit_eq_none_of_le ?_
      rw [byteLength] at hk
      omega
    rw [PartialByte.ofBits_eq_unknown hpast, byte, maskBytes, valueBytes]
    simp only [List.getD_eq_getElem?_getD, Binary.getElem?_reverse_toBigEndian, if_neg hk,
      Option.getD_none]
    rfl

/-- Byte `k` of a value that has the bits of byte `i` of another one, as far as these lie below
`size`. -/
theorem byte_eq_low {v w : PartialValue} {i k size : Nat}
    (h : ∀ j, w.bit (8 * k + j) = if 8 * k + j < size then v.bit (8 * i + j) else none) :
    w.byte k = (v.byte i).low (size - 8 * k) := by
  rw [byte_eq_ofBits, byte_eq_ofBits, PartialByte.low_ofBits]
  refine PartialByte.ofBits_congr fun j _ => ?_
  rw [h]
  by_cases hj : 8 * k + j < size
  · rw [if_pos hj, if_pos (by omega)]
  · rw [if_neg hj, if_neg (by omega)]

end PartialValue

end RegisterMigration
