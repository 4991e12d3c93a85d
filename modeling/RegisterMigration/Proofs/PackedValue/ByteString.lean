import RegisterMigration.PackedValue
import RegisterMigration.Proofs.PartialValue.Bytes

/-!
# Bits of byte strings

A packed value keeps two strings of bytes, and everything that is done to them is a matter of single
bits.  `bitAt` numbers these from the lowest bit of the first byte on, and past the last byte no bit is
set.  Strings of one length with the same bits are the same, so strings are compared bit by bit.

## Main results

* `Binary.eq_of_bitAt_eq` — strings of one length with the same bits are the same.
* `Binary.testBit_ofBigEndian`, `Binary.bitAt_reverse_toBigEndian` — the bits of the number that a
  string spells.
* `Binary.bitAt_zipWith` — what is done to two strings byte by byte is done to them bit by bit.
* `PackedValue.bitAt_setBit`, `PackedValue.bitAt_clearBit` — writing a single bit.
-/

namespace RegisterMigration

namespace Binary

/-- Bit `i` of a string of bytes, counted from the lowest bit of the first byte on. -/
def bitAt (bytes : List UInt8) (i : Nat) : Bool :=
  (bytes.getD (i / 8) 0).toNat.testBit (i % 8)

variable {a b bytes : List UInt8} {i : Nat}

theorem bitAt_eq_false_of_le (h : 8 * bytes.length ≤ i) : bitAt bytes i = false := by
  have hpast : bytes.length ≤ i / 8 := by omega
  rw [bitAt, List.getD_eq_getElem?_getD, List.getElem?_eq_none hpast]
  exact Nat.zero_testBit _

theorem eq_of_bitAt_eq (hlength : a.length = b.length)
    (h : ∀ i < 8 * a.length, bitAt a i = bitAt b i) : a = b := by
  refine List.ext_getElem hlength fun k ha hb => eq_of_testBit_eq fun j hj => ?_
  have hbit := h (8 * k + j) (by omega)
  have hbyte : (8 * k + j) / 8 = k := by omega
  have hplace : (8 * k + j) % 8 = j := by omega
  rwa [bitAt, bitAt, hbyte, hplace, List.getD_eq_getElem _ _ ha, List.getD_eq_getElem _ _ hb] at hbit

theorem bitAt_replicate_zero (n i : Nat) : bitAt (.replicate n 0) i = false := by
  rw [bitAt, List.getD_eq_getElem?_getD, List.getElem?_replicate]
  split <;> exact Nat.zero_testBit _

theorem bitAt_cons (b : UInt8) (bytes : List UInt8) (i : Nat) :
    bitAt (b :: bytes) i = if i < 8 then b.toNat.testBit i else bitAt bytes (i - 8) := by
  rw [bitAt]
  by_cases hi : i < 8
  · rw [if_pos hi, Nat.div_eq_of_lt hi, Nat.mod_eq_of_lt hi, List.getD_cons_zero]
  · have hbyte : i / 8 = (i - 8) / 8 + 1 := by omega
    have hplace : i % 8 = (i - 8) % 8 := by omega
    rw [if_neg hi, hbyte, hplace, List.getD_cons_succ, bitAt]

/-- The bits of a byte string from the most significant byte on are those of its number. -/
theorem testBit_ofBigEndian (bytes : List UInt8) (i : Nat) :
    (ofBigEndian bytes).testBit i = bitAt bytes.reverse i := by
  obtain ⟨low, rfl⟩ : ∃ low : List UInt8, bytes = low.reverse := ⟨_, (List.reverse_reverse _).symm⟩
  rw [List.reverse_reverse]
  induction low generalizing i with
  | nil => simp [ofBigEndian, bitAt]
  | cons b low ih =>
      have hnumber : ofBigEndian (b :: low).reverse = 2 ^ 8 * ofBigEndian low.reverse + b.toNat := by
        rw [ofBigEndian, List.reverse_cons, List.foldl_append]
        rfl
      rw [hnumber, bitAt_cons, Nat.testBit_two_pow_mul_add _ b.toNat_lt, ih]

/-- The low bytes of a number have the low bits of the number. -/
theorem bitAt_reverse_toBigEndian (length n i : Nat) :
    bitAt (toBigEndian length n).reverse i = (decide (i < 8 * length) && n.testBit i) := by
  rw [bitAt, List.getD_eq_getElem?_getD, getElem?_reverse_toBigEndian]
  by_cases hi : i < 8 * length
  · have hplace : i % 8 < 8 := Nat.mod_lt i (by decide)
    rw [if_pos (by omega), Option.getD_some, testBit_byte, Nat.div_add_mod, decide_eq_true hplace,
      decide_eq_true hi]
  · rw [if_neg (by omega), decide_eq_false hi]
    exact Nat.zero_testBit _

/-- Two strings taken together byte by byte are taken together bit by bit. -/
theorem bitAt_zipWith {f : UInt8 → UInt8 → UInt8} {g : Bool → Bool → Bool}
    (hlength : a.length = b.length) (hfalse : g false false = false)
    (h : ∀ x y : UInt8, ∀ j < 8, (f x y).toNat.testBit j = g (x.toNat.testBit j) (y.toNat.testBit j))
    (i : Nat) : bitAt (List.zipWith f a b) i = g (bitAt a i) (bitAt b i) := by
  by_cases hi : i < 8 * a.length
  · have ha : i / 8 < a.length := by omega
    have hb : i / 8 < b.length := by omega
    have hzip : i / 8 < (List.zipWith f a b).length := by
      rw [List.length_zipWith]
      omega
    rw [bitAt, bitAt, bitAt, List.getD_eq_getElem _ _ hzip, List.getD_eq_getElem _ _ ha,
      List.getD_eq_getElem _ _ hb, List.getElem_zipWith]
    exact h _ _ _ (Nat.mod_lt i (by decide))
  · have ha : 8 * a.length ≤ i := Nat.le_of_not_lt hi
    have hb : 8 * b.length ≤ i := hlength ▸ ha
    have hzip : 8 * (List.zipWith f a b).length ≤ i := by
      rw [List.length_zipWith]
      omega
    rw [bitAt_eq_false_of_le hzip, bitAt_eq_false_of_le ha, bitAt_eq_false_of_le hb, hfalse]

theorem bitAt_and (hlength : a.length = b.length) (i : Nat) :
    bitAt (List.zipWith (· &&& ·) a b) i = (bitAt a i && bitAt b i) :=
  bitAt_zipWith hlength rfl
    (fun x y j _ => by rw [UInt8.toNat_and, Nat.testBit_and]) i

theorem bitAt_or (hlength : a.length = b.length) (i : Nat) :
    bitAt (List.zipWith (· ||| ·) a b) i = (bitAt a i || bitAt b i) :=
  bitAt_zipWith hlength rfl
    (fun x y j _ => by rw [UInt8.toNat_or, Nat.testBit_or]) i

/-- What is done to one byte is done to its eight bits. -/
theorem bitAt_modify (bytes : List UInt8) (k : Nat) (f : UInt8 → UInt8) (i : Nat) :
    bitAt (bytes.modify k f) i =
      if i / 8 = k ∧ k < bytes.length then (f (bytes.getD k 0)).toNat.testBit (i % 8)
      else bitAt bytes i := by
  rw [bitAt, bitAt, List.getD_eq_getElem?_getD, List.getElem?_modify]
  by_cases hk : k < bytes.length
  · by_cases hik : i / 8 = k
    · rw [if_pos ⟨hik, hk⟩, hik, List.getElem?_eq_getElem hk, List.getD_eq_getElem _ _ hk]
      simp
    · rw [if_neg fun hboth => hik hboth.1, List.getD_eq_getElem?_getD]
      simp [Ne.symm hik]
  · rw [if_neg fun hboth => hk hboth.2, List.getD_eq_getElem?_getD]
    by_cases hik : k = i / 8
    · rw [List.getElem?_eq_none (by omega)]
      rfl
    · simp [hik]

theorem testBit_not (x : UInt8) {j : Nat} (hj : j < 8) :
    (~~~x).toNat.testBit j = !x.toNat.testBit j := by
  have hlt : x.toNat < 2 ^ 8 := x.toNat_lt
  have hnot : (~~~x).toNat = 2 ^ 8 - (x.toNat + 1) := by
    rw [UInt8.toNat_not, UInt8.size]
    omega
  rw [hnot, Nat.testBit_two_pow_sub_succ hlt, decide_eq_true hj, Bool.true_and]

end Binary

namespace PackedValue

open Binary

/-! ## Reading and writing one bit -/

theorem byteOf_eq (i : UInt32) : byteOf i = i.toNat / 8 := by
  rw [byteOf, UInt32.toNat_div]
  rfl

theorem toNat_placeOf (i : UInt32) : (placeOf i).toNat = i.toNat % 8 := by
  have height : (8 : UInt32).toNat = 8 := rfl
  rw [placeOf, UInt32.toNat_toUInt8, UInt32.toNat_mod, height]
  omega

theorem isSet_eq (bytes : List UInt8) (i : UInt32) : isSet bytes i = bitAt bytes i.toNat := by
  rw [isSet, bitAt, byteOf_eq, Bool.eq_iff_iff, beq_iff_eq, ← UInt8.toNat_inj, UInt8.toNat_and,
    UInt8.toNat_shiftRight, toNat_placeOf]
  simp [Nat.testBit]

/-- The byte of which one bit is set. -/
theorem testBit_flag (i : UInt32) {j : Nat} (hj : j < 8) :
    ((1 : UInt8) <<< placeOf i).toNat.testBit j = decide (j = i.toNat % 8) := by
  rw [UInt8.toNat_shiftLeft, toNat_placeOf, Nat.testBit_mod_two_pow, decide_eq_true hj, Bool.true_and,
    Nat.mod_mod, UInt8.toNat_one, Nat.one_shiftLeft, Nat.testBit_two_pow]
  exact decide_eq_decide.2 eq_comm

/-- Setting a bit of the string leaves all other bits alone. -/
theorem bitAt_setBit {bytes : List UInt8} {i : UInt32} (hi : i.toNat < 8 * bytes.length) (j : Nat) :
    bitAt (setBit bytes i) j = (decide (j = i.toNat) || bitAt bytes j) := by
  have hplace : j % 8 < 8 := Nat.mod_lt j (by decide)
  rw [setBit, byteOf_eq, bitAt_modify]
  by_cases hbyte : j / 8 = i.toNat / 8
  · rw [if_pos ⟨hbyte, by omega⟩, UInt8.toNat_or, Nat.testBit_or, testBit_flag i hplace, ← hbyte,
      Bool.or_comm, bitAt]
    congr 1
    exact decide_eq_decide.2 (by omega)
  · have hne : ¬ j = i.toNat := by
      rintro rfl
      exact hbyte rfl
    rw [if_neg fun hboth => hbyte hboth.1, decide_eq_false hne, Bool.false_or]

/-- Clearing a bit of the string leaves all other bits alone. -/
theorem bitAt_clearBit {bytes : List UInt8} {i : UInt32} (hi : i.toNat < 8 * bytes.length) (j : Nat) :
    bitAt (clearBit bytes i) j = (!decide (j = i.toNat) && bitAt bytes j) := by
  have hplace : j % 8 < 8 := Nat.mod_lt j (by decide)
  rw [clearBit, byteOf_eq, bitAt_modify]
  by_cases hbyte : j / 8 = i.toNat / 8
  · rw [if_pos ⟨hbyte, by omega⟩, UInt8.toNat_and, Nat.testBit_and, testBit_not _ hplace,
      testBit_flag i hplace, ← hbyte, Bool.and_comm, bitAt]
    congr 2
    exact decide_eq_decide.2 (by omega)
  · have hne : ¬ j = i.toNat := by
      rintro rfl
      exact hbyte rfl
    rw [if_neg fun hboth => hbyte hboth.1, decide_eq_false hne, Bool.not_false, Bool.true_and]

@[simp] theorem length_setBit (bytes : List UInt8) (i : UInt32) :
    (setBit bytes i).length = bytes.length :=
  List.length_modify _ _ _

@[simp] theorem length_clearBit (bytes : List UInt8) (i : UInt32) :
    (clearBit bytes i).length = bytes.length :=
  List.length_modify _ _ _

end PackedValue

end RegisterMigration
