import RegisterMigration.Proofs.PackedValue.ByteString
import RegisterMigration.Proofs.PartialValue.Counting

/-!
# Canonical packed values

A packed value is canonical if both of its strings are exactly as long as the register, nothing
outside the register is marked as known, and nothing is stored where nothing is known.  So there is
no choice left in how bits are kept: canonical values with the same bits have the same bytes, and they
are the packed forms of values.

A write keeps a canonical value canonical, and so does a list of writes.  What the list leaves in a
bit is settled without regard to its order if all writes to one bit agree.

## Main results

* `Canonical.eq_of_bit_eq` — canonical values with the same bits are the same.
* `canonical_pack`, `Canonical.eq_pack` — the canonical values are the packed forms.
* `Canonical.put`, `bit_put` — one write.
* `puts_pack` — what a list of writes makes of a packed value.
-/

namespace RegisterMigration.PackedValue

open Binary

/-- What every packed value is kept like. -/
structure Canonical (v : PackedValue) : Prop where
  length_mask : v.mask.length = byteLength v.width
  length_value : v.value.length = byteLength v.width
  /-- Nothing outside the register is marked as known. -/
  inside : ∀ i, bitAt v.mask i → i < v.width.toNat
  /-- Nothing is stored where nothing is known. -/
  masked : ∀ i, bitAt v.value i → bitAt v.mask i

variable {v w : PackedValue} {p q : PartialValue}

theorem lt_bits_of_lt_width {n : Nat} (width : UInt32) (h : n < width.toNat) :
    n < 8 * byteLength width := by
  rw [byteLength]
  omega

/-- A bit is known if the mask says so, and then it is what is stored. -/
theorem bit_eq (v : PackedValue) (i : UInt32) :
    v.bit i = if i < v.width ∧ bitAt v.mask i.toNat then some (bitAt v.value i.toNat) else none := by
  rw [bit, isSet_eq, isSet_eq]
  by_cases hi : i < v.width
  · rw [if_neg (UInt32.not_le.2 hi)]
    simp only [hi, true_and]
  · rw [if_pos (UInt32.not_lt.1 hi), if_neg fun hboth => hi hboth.1]

/-! ## Canonical values are packed forms -/

/-- Nothing is known past the bits of the last byte. -/
theorem bit_eq_none_of_bits_le {i : Nat} (hi : ¬ i < 8 * byteLength p.width) : p.bit i = none :=
  PartialValue.bit_eq_none_of_le (Nat.le_of_not_lt fun h => hi (lt_bits_of_lt_width _ h))

theorem bitAt_mask_pack (p : PartialValue) (i : Nat) : bitAt p.pack.mask i = (p.bit i).isSome := by
  rw [PartialValue.pack, PartialValue.maskBytes, bitAt_reverse_toBigEndian, PartialValue.testBit_mask]
  by_cases hi : i < 8 * byteLength p.width
  · rw [decide_eq_true hi, Bool.true_and]
  · rw [bit_eq_none_of_bits_le hi, Option.isSome_none, Bool.and_false]

theorem bitAt_value_pack (p : PartialValue) (i : Nat) :
    bitAt p.pack.value i = (p.bit i == some true) := by
  rw [PartialValue.pack, PartialValue.valueBytes, bitAt_reverse_toBigEndian,
    PartialValue.testBit_value]
  by_cases hi : i < 8 * byteLength p.width
  · rw [decide_eq_true hi, Bool.true_and]
  · rw [bit_eq_none_of_bits_le hi, decide_eq_false hi]
    rfl

theorem canonical_pack (p : PartialValue) : p.pack.Canonical where
  length_mask := by simp [PartialValue.pack, PartialValue.maskBytes]
  length_value := by simp [PartialValue.pack, PartialValue.valueBytes]
  inside i hi := by
    rw [bitAt_mask_pack] at hi
    exact PartialValue.lt_width_of_isSome hi
  masked i hi := by
    rw [bitAt_value_pack, beq_iff_eq] at hi
    rw [bitAt_mask_pack, hi]
    rfl

/-- Strings as long as the register that have the bits of a value make up its packed form. -/
theorem eq_pack_of_bitAt (hregister : v.register = p.register) (hwidth : v.width = p.width)
    (hlengthMask : v.mask.length = byteLength p.width)
    (hlengthValue : v.value.length = byteLength p.width)
    (hmask : ∀ i, bitAt v.mask i = (p.bit i).isSome)
    (hvalue : ∀ i, bitAt v.value i = (p.bit i == some true)) : v = p.pack := by
  refine PackedValue.ext hregister hwidth ?_ ?_
  · refine eq_of_bitAt_eq (hlengthMask.trans (canonical_pack p).length_mask.symm) fun i _ => ?_
    rw [hmask, bitAt_mask_pack]
  · refine eq_of_bitAt_eq (hlengthValue.trans (canonical_pack p).length_value.symm) fun i _ => ?_
    rw [hvalue, bitAt_value_pack]

/-- The packed form of a value has its bits. -/
@[simp] theorem bit_pack (p : PartialValue) (i : UInt32) : p.pack.bit i = p.bit i.toNat := by
  rw [bit_eq, bitAt_mask_pack, bitAt_value_pack]
  cases hbit : p.bit i.toNat with
  | none => exact if_neg fun hboth => nomatch hboth.2
  | some b =>
      have hlt : i < p.width := by
        refine UInt32.lt_iff_toNat_lt.2 (PartialValue.lt_width_of_isSome ?_)
        rw [hbit]
        rfl
      rw [if_pos ⟨hlt, rfl⟩]
      cases b <;> rfl

theorem toNat_ofNat_of_lt {n : Nat} {width : UInt32} (h : n < width.toNat) :
    (UInt32.ofNat n).toNat = n := by
  rw [UInt32.toNat_ofNat']
  exact Nat.mod_eq_of_lt (Nat.lt_trans h width.toNat_lt)

theorem ofNat_lt {n : Nat} {width : UInt32} (h : n < width.toNat) : UInt32.ofNat n < width := by
  rw [UInt32.lt_iff_toNat_lt, toNat_ofNat_of_lt h]
  exact h

/-- The mask of a canonical value follows from its bits. -/
theorem Canonical.bitAt_mask (hv : v.Canonical) (n : Nat) :
    bitAt v.mask n = (decide (n < v.width.toNat) && (v.bit (.ofNat n)).isSome) := by
  by_cases hn : n < v.width.toNat
  · rw [decide_eq_true hn, Bool.true_and, bit_eq, toNat_ofNat_of_lt hn]
    by_cases hset : bitAt v.mask n = true
    · rw [if_pos ⟨ofNat_lt hn, hset⟩, hset]
      rfl
    · rw [if_neg fun hboth => hset hboth.2, Option.isSome_none]
      exact Bool.eq_false_iff.2 hset
  · rw [decide_eq_false hn, Bool.false_and]
    exact Bool.eq_false_iff.2 fun hset => hn (hv.inside n hset)

/-- What a canonical value stores follows from its bits. -/
theorem Canonical.bitAt_value (hv : v.Canonical) (n : Nat) :
    bitAt v.value n = (decide (n < v.width.toNat) && v.bit (.ofNat n) == some true) := by
  by_cases hset : bitAt v.mask n = true
  · have hn := hv.inside n hset
    rw [decide_eq_true hn, Bool.true_and, bit_eq, toNat_ofNat_of_lt hn, if_pos ⟨ofNat_lt hn, hset⟩]
    cases bitAt v.value n <;> rfl
  · have hnone : (decide (n < v.width.toNat) && v.bit (.ofNat n) == some true) = false := by
      rw [hv.bitAt_mask] at hset
      cases hbit : v.bit (.ofNat n) with
      | none => exact Bool.and_false _
      | some b =>
          rw [hbit, Option.isSome_some, Bool.and_true] at hset
          rw [Bool.eq_false_iff.2 hset, Bool.false_and]
    rw [hnone]
    exact Bool.eq_false_iff.2 fun hvalue => hset (hv.masked n hvalue)

/-- Canonical values with the same bits have the same bytes. -/
theorem Canonical.eq_of_bit_eq (hv : v.Canonical) (hw : w.Canonical)
    (hregister : v.register = w.register) (hwidth : v.width = w.width)
    (hbit : ∀ i, v.bit i = w.bit i) : v = w := by
  have hmask : v.mask = w.mask := by
    refine eq_of_bitAt_eq (by rw [hv.length_mask, hw.length_mask, hwidth]) fun n _ => ?_
    rw [hv.bitAt_mask, hw.bitAt_mask, hwidth, hbit]
  have hvalue : v.value = w.value := by
    refine eq_of_bitAt_eq (by rw [hv.length_value, hw.length_value, hwidth]) fun n _ => ?_
    rw [hv.bitAt_value, hw.bitAt_value, hwidth, hbit]
  exact PackedValue.ext hregister hwidth hmask hvalue

/-- A canonical value is the packed form of any value with its bits. -/
theorem Canonical.eq_pack (hv : v.Canonical) (hregister : v.register = p.register)
    (hwidth : v.width = p.width) (hbit : ∀ i < p.width, v.bit i = p.bit i.toNat) : v = p.pack := by
  refine hv.eq_of_bit_eq (canonical_pack p) hregister hwidth fun i => ?_
  rw [bit_pack]
  by_cases hi : i < p.width
  · exact hbit i hi
  · rw [bit_eq, hwidth, if_neg fun hboth => hi hboth.1, PartialValue.bit_eq_none_of_le]
    exact UInt32.le_iff_toNat_le.1 (UInt32.not_lt.1 hi)

/-! ## Writes -/

theorem put_of_le {i : UInt32} (hi : v.width ≤ i) (b : Option Bool) : v.put i b = v := by
  unfold put
  exact if_pos hi

theorem put_of_lt {i : UInt32} (hi : i < v.width) (b : Option Bool) :
    v.put i b = { v with
      mask := if b.isSome then setBit v.mask i else clearBit v.mask i
      value := if b = some true then setBit v.value i else clearBit v.value i } := by
  unfold put
  rw [if_neg (UInt32.not_le.2 hi)]
  cases b with
  | none => rfl
  | some b => cases b <;> rfl

/-- Apart from its bits, a write changes nothing. -/
theorem shape_put (v : PackedValue) (i : UInt32) (b : Option Bool) :
    (v.put i b).register = v.register ∧ (v.put i b).width = v.width ∧
      (v.put i b).mask.length = v.mask.length ∧ (v.put i b).value.length = v.value.length := by
  by_cases hi : i < v.width
  · rw [put_of_lt hi]
    refine ⟨rfl, rfl, ?_, ?_⟩ <;> dsimp only <;> split <;> simp
  · rw [put_of_le (UInt32.not_lt.1 hi)]
    exact ⟨rfl, rfl, rfl, rfl⟩

@[simp] theorem register_put (v : PackedValue) (i : UInt32) (b : Option Bool) :
    (v.put i b).register = v.register :=
  (shape_put v i b).1

@[simp] theorem width_put (v : PackedValue) (i : UInt32) (b : Option Bool) :
    (v.put i b).width = v.width :=
  (shape_put v i b).2.1

/-- A write sets or clears the bit in each of the two strings, and leaves all else alone. -/
theorem Canonical.bitAt_put (hv : v.Canonical) {i : UInt32} (hi : i < v.width) (b : Option Bool)
    (n : Nat) :
    bitAt (v.put i b).mask n = (if n = i.toNat then b.isSome else bitAt v.mask n) ∧
      bitAt (v.put i b).value n = (if n = i.toNat then b == some true else bitAt v.value n) := by
  have hlt := lt_bits_of_lt_width v.width (UInt32.lt_iff_toNat_lt.1 hi)
  have hmask : i.toNat < 8 * v.mask.length := by rw [hv.length_mask]; exact hlt
  have hvalue : i.toNat < 8 * v.value.length := by rw [hv.length_value]; exact hlt
  rw [put_of_lt hi]
  constructor
  · cases b with
    | none => by_cases hn : n = i.toNat <;> simp [bitAt_clearBit hmask, hn]
    | some b => by_cases hn : n = i.toNat <;> simp [bitAt_setBit hmask, hn]
  · by_cases hb : b = some true
    · by_cases hn : n = i.toNat <;> simp [bitAt_setBit hvalue, hb, hn]
    · by_cases hn : n = i.toNat <;> simp [bitAt_clearBit hvalue, hb, hn]

/-- A write keeps a value canonical. -/
theorem Canonical.put (hv : v.Canonical) (i : UInt32) (b : Option Bool) : (v.put i b).Canonical := by
  by_cases hi : i < v.width
  · refine ⟨?_, ?_, fun n hn => ?_, fun n hn => ?_⟩
    · rw [(shape_put v i b).2.2.1, width_put, hv.length_mask]
    · rw [(shape_put v i b).2.2.2, width_put, hv.length_value]
    · rw [(hv.bitAt_put hi b n).1] at hn
      rw [width_put]
      split at hn
      · rename_i heq
        rw [heq]
        exact UInt32.lt_iff_toNat_lt.1 hi
      · exact hv.inside n hn
    · rw [(hv.bitAt_put hi b n).2] at hn
      rw [(hv.bitAt_put hi b n).1]
      split at hn
      · rename_i heq
        rw [if_pos heq, beq_iff_eq.1 hn]
        rfl
      · rename_i hne
        rw [if_neg hne]
        exact hv.masked n hn
  · rw [put_of_le (UInt32.not_lt.1 hi)]
    exact hv

/-- What a write leaves in the bits. -/
theorem Canonical.bit_put (hv : v.Canonical) (i : UInt32) (b : Option Bool) (j : UInt32) :
    (v.put i b).bit j = if j = i ∧ j < v.width then b else v.bit j := by
  by_cases hi : i < v.width
  · rw [bit_eq, width_put, (hv.bitAt_put hi b j.toNat).1, (hv.bitAt_put hi b j.toNat).2]
    by_cases hj : j = i
    · subst hj
      rw [if_pos rfl, if_pos rfl]
      cases b with
      | none => simp [hi]
      | some b => cases b <;> simp [hi]
    · have hne : j.toNat ≠ i.toNat := fun heq => hj (UInt32.toNat_inj.1 heq)
      rw [if_neg hne, if_neg hne, ← bit_eq, if_neg fun hboth : j = i ∧ j < v.width => hj hboth.1]
  · rw [put_of_le (UInt32.not_lt.1 hi), if_neg]
    rintro ⟨rfl, hj⟩
    exact hi hj

variable {writes : List (UInt32 × Option Bool)}

@[simp] theorem register_puts (v : PackedValue) (writes : List (UInt32 × Option Bool)) :
    (v.puts writes).register = v.register := by
  induction writes generalizing v with
  | nil => rfl
  | cons write writes ih => exact (ih _).trans (register_put v _ _)

@[simp] theorem width_puts (v : PackedValue) (writes : List (UInt32 × Option Bool)) :
    (v.puts writes).width = v.width := by
  induction writes generalizing v with
  | nil => rfl
  | cons write writes ih => exact (ih _).trans (width_put v _ _)

/-- A list of writes keeps a value canonical. -/
theorem Canonical.puts (hv : v.Canonical) (writes : List (UInt32 × Option Bool)) :
    (v.puts writes).Canonical := by
  induction writes generalizing v with
  | nil => exact hv
  | cons write writes ih => exact ih (hv.put write.1 write.2)

/-- What a list of writes leaves in the bits, if all writes to one bit write the same. -/
theorem Canonical.bit_puts (hv : v.Canonical) {f : UInt32 → Option Bool}
    (hwrites : ∀ write ∈ writes, write.1 < v.width → write.2 = f write.1) {j : UInt32}
    (hj : j < v.width) :
    (v.puts writes).bit j = if j ∈ writes.map Prod.fst then f j else v.bit j := by
  induction writes generalizing v with
  | nil => rfl
  | cons write writes ih =>
      have hrest : ∀ later ∈ writes, later.1 < (v.put write.1 write.2).width →
          later.2 = f later.1 := by
        intro later hlater hlt
        rw [width_put] at hlt
        exact hwrites later (List.mem_cons_of_mem _ hlater) hlt
      have hstep := ih (hv.put write.1 write.2) hrest (by rwa [width_put])
      rw [PackedValue.puts, List.foldl_cons]
      refine hstep.trans ?_
      rw [hv.bit_put, List.map_cons]
      by_cases hlater : j ∈ writes.map Prod.fst
      · rw [if_pos hlater, if_pos (List.mem_cons_of_mem _ hlater)]
      · rw [if_neg hlater]
        by_cases hfirst : j = write.1
        · subst hfirst
          rw [if_pos ⟨rfl, hj⟩, if_pos List.mem_cons_self]
          exact hwrites write List.mem_cons_self hj
        · rw [if_neg fun hboth => hfirst hboth.1, if_neg]
          exact List.not_mem_cons_of_ne_of_not_mem hfirst hlater

/-- Writes that fill in all that tells one value from another turn the packed form of the one into
that of the other. -/
theorem puts_pack (hregister : q.register = p.register) (hwidth : q.width = p.width)
    (hwritten : ∀ write ∈ writes, write.1 < p.width → write.2 = p.bit write.1.toNat)
    (hkept : ∀ i < p.width, i ∉ writes.map Prod.fst → q.bit i.toNat = p.bit i.toNat) :
    q.pack.puts writes = p.pack := by
  have hq : q.pack.width = p.width := hwidth
  refine ((canonical_pack q).puts writes).eq_pack ?_ ?_ fun i hi => ?_
  · rw [register_puts]
    exact hregister
  · rw [width_puts, hq]
  · rw [(canonical_pack q).bit_puts (f := fun j => p.bit j.toNat) (by rwa [hq]) (by rwa [hq]), bit_pack]
    split
    · rfl
    · rename_i hnot
      exact hkept i hi hnot

end RegisterMigration.PackedValue
