import RegisterMigration.Proofs.BitRange
import RegisterMigration.Proofs.PackedValue.Canonical
import RegisterMigration.Proofs.PartialValue.Placing
import RegisterMigration.Proofs.PartialValue.Wiring

/-!
# Packing and the operations

An operation on bytes does to the packed form of a value what the operation of the same name does to
the value.  So a value can be packed before or after it is worked on, and what is proved of values
holds of their bytes.

Most operations are lists of writes, and for these it is enough to know what each write writes and that
no write is missing (`puts_pack`).  Where the writes take sums of positions, there is a list of them
only if all sums fit, and this is the same condition on bytes and on values.  The others work on whole
bytes: merging, where what one value
stores must not show where the other one knows the bit; trimming, where the number of bits to spare is
computed in 32 bits, and is right although both numbers that it comes from wrap around for the widest
registers; and counting.

## Main results

* `pack_withBits`, `pack_known` — the lists of writes.
* `placed_pack`, `extracted_pack`, `resized_pack` — the lists of writes that take sums.
* `combine_pack`, `ofBytes_eq`, `deserialize_eq` — the operations on whole bytes.
* `toNat_knownCount_pack` — the bits that are set in the mask are as many as are known.
-/

namespace RegisterMigration.PackedValue

open Binary

variable {p q : PartialValue} {register : RegisterId} {width shift : UInt32}

/-! ## Lists of writes -/

theorem pack_unknown (register : RegisterId) (width : UInt32) :
    (PartialValue.unknown register width).pack = unknown register width := by
  have hunknown : (unknown register width).Canonical := by
    refine ⟨List.length_replicate, List.length_replicate, fun i hi => ?_, fun i hi => ?_⟩ <;>
      rw [unknown, bitAt_replicate_zero] at hi <;> cases hi
  refine (hunknown.eq_pack rfl rfl fun i _ => ?_).symm
  rw [bit_eq, unknown, bitAt_replicate_zero, PartialValue.bit_unknown]
  exact if_neg fun hboth => nomatch hboth.2

theorem pack_withBit (p : PartialValue) (i : UInt32) (b : Option Bool) :
    (p.withBit i.toNat b).pack = p.pack.put i b := by
  symm
  show p.pack.puts [(i, b)] = _
  refine puts_pack rfl rfl ?_ ?_
  · intro write hwrite hlt
    rw [List.mem_singleton.1 hwrite] at hlt ⊢
    rw [PartialValue.bit_withBit, if_pos ⟨rfl, UInt32.lt_iff_toNat_lt.1 hlt⟩]
  · intro j _ hj
    have hne : j.toNat ≠ i.toNat := fun heq => hj (by simp [UInt32.toNat_inj.1 heq])
    rw [PartialValue.bit_withBit, if_neg fun hboth => hne hboth.1]

/-- The bit of a 64-bit number that is written to a range. -/
theorem lowBit_shiftRight (x : UInt64) (i : Nat) :
    (decide (i < 64) && x >>> .ofNat i &&& 1 == 1) = x.toNat.testBit i := by
  by_cases hi : i < 64
  · have hshift : (UInt64.ofNat i).toNat % 64 = i := by
      rw [UInt64.toNat_ofNat']
      omega
    rw [decide_eq_true hi, Bool.true_and, Bool.eq_iff_iff, beq_iff_eq, ← UInt64.toNat_inj,
      UInt64.toNat_and, UInt64.toNat_shiftRight, hshift]
    simp [Nat.testBit]
  · have htop : 2 ^ 64 ≤ 2 ^ i := Nat.pow_le_pow_right (by decide) (by omega)
    rw [decide_eq_false hi, Bool.false_and, Nat.testBit_lt_two_pow (Nat.lt_of_lt_of_le x.toNat_lt htop)]

theorem pack_withBits (p : PartialValue) (range : BitRange) (x : UInt64) :
    (p.withBits range x).pack = p.pack.withBits range x := by
  symm
  refine puts_pack rfl rfl ?_ ?_
  · intro write hwrite hlt
    obtain ⟨i, hi, rfl⟩ := List.mem_map.1 hwrite
    rw [List.mem_range] at hi
    have hcovers : range.covers (range.lo.toNat + i) := by
      rw [BitRange.size] at hi
      rw [BitRange.covers_iff]
      omega
    rw [UInt32.lt_iff_toNat_lt, BitRange.toNat_lo_add hi] at hlt
    rw [BitRange.toNat_lo_add hi, PartialValue.bit_withBits, if_pos ⟨hcovers, hlt⟩, Nat.add_sub_cancel_left,
      lowBit_shiftRight]
  · intro j _ hj
    rw [PartialValue.bit_withBits, if_neg]
    rintro ⟨hcovers, _⟩
    rw [BitRange.covers_iff] at hcovers
    have hsize : j.toNat - range.lo.toNat < range.size := by
      rw [BitRange.size]
      omega
    -- The position is written, as it is this far above the low end of the range.
    refine hj (List.mem_map.2 ⟨_, List.mem_map.2 ⟨j.toNat - range.lo.toNat,
      List.mem_range.2 hsize, rfl⟩, ?_⟩)
    rw [← UInt32.toNat_inj, BitRange.toNat_lo_add hsize]
    omega

/-- Writes that fill in all known bits of a value make its packed form out of nothing. -/
theorem puts_unknown {writes : List (UInt32 × Option Bool)} (hregister : p.register = register)
    (hwidth : p.width = width)
    (hwritten : ∀ write ∈ writes, write.1 < width → write.2 = p.bit write.1.toNat)
    (hall : ∀ i < width, (p.bit i.toNat).isSome → i ∈ writes.map Prod.fst) :
    (unknown register width).puts writes = p.pack := by
  subst hregister hwidth
  rw [← pack_unknown]
  refine puts_pack rfl rfl hwritten fun i hi hnot => ?_
  rw [PartialValue.bit_unknown]
  exact (Option.not_isSome_iff_eq_none.1 fun hsome => hnot (hall i hi hsome)).symm

theorem lowBit_ushiftRight (n : BitVec 128) (i : Nat) :
    (n >>> i &&& 1 == 1) = n.toNat.testBit i := by
  rw [Bool.eq_iff_iff, beq_iff_eq, ← BitVec.toNat_inj, BitVec.toNat_and, BitVec.toNat_ushiftRight]
  simp [Nat.testBit]

theorem pack_known (register : RegisterId) (width : UInt32) (n : BitVec 128) :
    (PartialValue.known register width n.toNat).pack = known register width n := by
  have hwidth := width.toNat_lt
  have hposition : ∀ i < width.toNat, (UInt32.ofNat i).toNat = i := fun i hi => toNat_ofNat_of_lt hi
  rw [known, puts, puts, ← List.foldl_append]
  symm
  refine puts_unknown rfl rfl ?_ ?_
  · intro write hwrite hlt
    rw [UInt32.lt_iff_toNat_lt] at hlt
    rw [PartialValue.bit_known, if_pos hlt]
    rcases List.mem_append.1 hwrite with hlow | hhigh
    · obtain ⟨i, hi, rfl⟩ := List.mem_map.1 hlow
      rw [List.mem_range] at hi
      rw [lowBit_ushiftRight, hposition i (by omega)]
    · obtain ⟨i, hi, rfl⟩ := List.mem_map.1 hhigh
      rw [List.mem_range'_1] at hi
      have htop : 2 ^ 128 ≤ 2 ^ i := Nat.pow_le_pow_right (by decide) (by omega)
      rw [hposition i (by omega), Nat.testBit_lt_two_pow (Nat.lt_of_lt_of_le n.isLt htop)]
  · intro i hi _
    rw [UInt32.lt_iff_toNat_lt] at hi
    rw [List.map_append, List.mem_append]
    by_cases hlow : i.toNat < 128
    · refine .inl (List.mem_map.2 ⟨_, List.mem_map.2 ⟨i.toNat, ?_, rfl⟩, UInt32.ofNat_toNat⟩)
      rw [List.mem_range]
      exact Nat.lt_min.2 ⟨hi, hlow⟩
    · refine .inr (List.mem_map.2 ⟨_, List.mem_map.2 ⟨i.toNat, ?_, rfl⟩, UInt32.ofNat_toNat⟩)
      rw [List.mem_range'_1]
      omega

/-! ## Moving bits -/

/-- The known bits are listed with their positions. -/
theorem mem_knownBits {known : Nat × Bool} :
    known ∈ p.pack.knownBits ↔ p.bit known.1 = some known.2 := by
  unfold knownBits
  rw [List.mem_filterMap]
  constructor
  · rintro ⟨i, hi, hknown⟩
    rw [PartialValue.width_pack, List.mem_range] at hi
    rw [bit_pack, toNat_ofNat_of_lt hi, Option.map_eq_some_iff] at hknown
    obtain ⟨b, hb, rfl⟩ := hknown
    exact hb
  · intro hknown
    have hlt := PartialValue.lt_width_of_isSome (v := p) (i := known.1) (by rw [hknown]; rfl)
    refine ⟨known.1, List.mem_range.2 hlt, ?_⟩
    rw [bit_pack, toNat_ofNat_of_lt hlt, hknown]
    rfl

/-- The positions of all known bits fit exactly if the value does. -/
theorem forall_knownBits_iff (p : PartialValue) (shift : UInt32) :
    (∀ known ∈ p.pack.knownBits, known.1 + shift.toNat < UInt32.size) ↔ p.fitsAt shift := by
  rw [PartialValue.fitsAt_iff]
  constructor
  · intro hall i hi
    obtain ⟨b, hb⟩ := Option.isSome_iff_exists.1 hi
    exact hall (i, b) (mem_knownBits.2 hb)
  · intro hall known hknown
    refine hall known.1 ?_
    rw [mem_knownBits.1 hknown]
    rfl

/-- The known bits, each written at its new position, make up the value that is moved up. -/
theorem puts_knownBits (h : p.fitsAt shift) :
    (unknown register width).puts (p.pack.knownBits.map fun known =>
      (UInt32.ofNat (known.1 + shift.toNat), some known.2)) = (p.raised register width shift).pack := by
  have hposition : ∀ known ∈ p.pack.knownBits,
      (UInt32.ofNat (known.1 + shift.toNat)).toNat = known.1 + shift.toNat := fun known hknown => by
    rw [UInt32.toNat_ofNat']
    exact Nat.mod_eq_of_lt ((forall_knownBits_iff p shift).2 h known hknown)
  refine puts_unknown rfl rfl ?_ ?_
  · intro write hwrite hlt
    obtain ⟨known, hknown, rfl⟩ := List.mem_map.1 hwrite
    rw [UInt32.lt_iff_toNat_lt, hposition known hknown] at hlt
    rw [hposition known hknown, PartialValue.bit_raised, if_pos ⟨Nat.le_add_left _ _, hlt⟩,
      Nat.add_sub_cancel, mem_knownBits.1 hknown]
  · intro j hj hsome
    rw [PartialValue.bit_raised] at hsome
    split at hsome
    · rename_i hboth
      obtain ⟨b, hb⟩ := Option.isSome_iff_exists.1 hsome
      have hknown : (j.toNat - shift.toNat, b) ∈ p.pack.knownBits := mem_knownBits.2 hb
      refine List.mem_map.2 ⟨_, List.mem_map.2 ⟨_, hknown, rfl⟩, ?_⟩
      rw [← UInt32.toNat_inj, hposition _ hknown]
      exact Nat.sub_add_cancel hboth.1
    · cases hsome

/-- Moving the known bits one by one stops where the value does not fit, and otherwise moves the
value. -/
theorem placed_pack (p : PartialValue) (register : RegisterId) (width shift : UInt32) :
    p.pack.placed register width shift =
      (p.placed register width shift).map PartialValue.pack := by
  have hwrites : (p.pack.knownBits.mapM fun known =>
      ifFits (known.1 + shift.toNat < UInt32.size)
        (UInt32.ofNat (known.1 + shift.toNat), some known.2)) = _ :=
    mapM_ifFits _ _
  unfold placed
  simp only [position, map_ifFits]
  rw [hwrites, map_ifFits, PartialValue.placed, map_ifFits]
  exact ifFits_congr (forall_knownBits_iff p shift) fun hfits =>
    puts_knownBits ((forall_knownBits_iff p shift).1 hfits)

theorem resized_pack (p : PartialValue) (register : RegisterId) (width : UInt32) :
    p.pack.resized register width = .ok (p.resized register width).pack := by
  have hfits : (0 : UInt32).toNat + p.width.toNat ≤ 2 ^ 32 := by
    rw [UInt32.toNat_zero, Nat.zero_add]
    exact Nat.le_of_lt p.width.toNat_lt
  rw [resized, placed_pack, PartialValue.placed_of_le hfits]
  rfl

/-- There is a position above the shift for each of so many bits exactly if the last one has one. -/
theorem forall_range_iff (width shift : UInt32) :
    (∀ i ∈ List.range width.toNat, i + shift.toNat < UInt32.size) ↔
      width = 0 ∨ shift.toNat + width.toNat ≤ UInt32.size := by
  rw [← UInt32.toNat_inj, UInt32.toNat_zero]
  constructor
  · intro hall
    rcases Nat.eq_zero_or_pos width.toNat with hzero | hpos
    · exact Or.inl hzero
    · have hlast := hall (width.toNat - 1) (List.mem_range.2 (Nat.sub_lt hpos Nat.one_pos))
      exact Or.inr (by omega)
  · intro hfits i hi
    rw [List.mem_range] at hi
    omega

/-- The bits from the shift on, each written at its new position, make up the value that is moved
down. -/
theorem puts_range (h : width = 0 ∨ shift.toNat + width.toNat ≤ UInt32.size) :
    (unknown register width).puts ((List.range width.toNat).map fun i =>
      (UInt32.ofNat i, p.pack.bit (.ofNat (i + shift.toNat)))) =
        (p.lowered register width shift).pack := by
  refine puts_unknown rfl rfl ?_ ?_
  · intro write hwrite _
    obtain ⟨i, hi, rfl⟩ := List.mem_map.1 hwrite
    have hsource : (UInt32.ofNat (i + shift.toNat)).toNat = i + shift.toNat := by
      rw [UInt32.toNat_ofNat']
      exact Nat.mod_eq_of_lt ((forall_range_iff width shift).2 h i hi)
    rw [List.mem_range] at hi
    rw [toNat_ofNat_of_lt hi, PartialValue.bit_lowered, if_pos hi, bit_pack, hsource, Nat.add_comm]
  · intro j hj _
    exact List.mem_map.2 ⟨_, List.mem_map.2 ⟨j.toNat, List.mem_range.2 (UInt32.lt_iff_toNat_lt.1 hj),
      rfl⟩, UInt32.ofNat_toNat⟩

/-- Taking bits out one by one stops where one of them has no position, and otherwise moves the value
down. -/
theorem extracted_pack (p : PartialValue) (register : RegisterId) (width shift : UInt32) :
    p.pack.extracted register width shift =
      (p.extracted register width shift).map PartialValue.pack := by
  have hwrites : ((List.range width.toNat).mapM fun i =>
      ifFits (i + shift.toNat < UInt32.size)
        (UInt32.ofNat i, p.pack.bit (.ofNat (i + shift.toNat)))) = _ :=
    mapM_ifFits _ _
  unfold extracted
  simp only [position, map_ifFits]
  rw [hwrites, map_ifFits, PartialValue.extracted, map_ifFits]
  exact ifFits_congr (forall_range_iff width shift) fun hfits =>
    puts_range ((forall_range_iff width shift).1 hfits)

/-! ## Whole bytes -/

theorem pack_reanchor (p : PartialValue) (register : RegisterId) :
    (p.reanchor register).pack = p.pack.reanchor register :=
  rfl

theorem length_taken (hwidth : p.width = q.width) :
    (taken p.pack q.pack).length = byteLength p.width := by
  rw [taken, List.length_zipWith, (canonical_pack p).length_mask, (canonical_pack q).length_mask,
    PartialValue.width_pack, PartialValue.width_pack, hwidth, Nat.min_self]

theorem bitAt_taken (hwidth : p.width = q.width) (i : Nat) :
    bitAt (taken p.pack q.pack) i = ((q.bit i).isSome && !(p.bit i).isSome) := by
  have hlength : q.pack.mask.length = p.pack.mask.length := by
    rw [(canonical_pack p).length_mask, (canonical_pack q).length_mask, PartialValue.width_pack,
      PartialValue.width_pack, hwidth]
  rw [taken, bitAt_zipWith (g := fun a b => a && !b) hlength rfl ?_, bitAt_mask_pack, bitAt_mask_pack]
  intro a b j hj
  rw [UInt8.toNat_and, Nat.testBit_and, testBit_not b hj]

/-- Merging byte by byte is merging bit by bit: what the second value stores is taken only where the
first one knows nothing. -/
theorem combine_pack (p q : PartialValue) :
    p.pack.combine q.pack = (p.combine q).map PartialValue.pack := by
  rw [combine, PartialValue.register_pack, PartialValue.register_pack, PartialValue.width_pack,
    PartialValue.width_pack]
  by_cases hshape : p.register = q.register ∧ p.width = q.width
  · obtain ⟨x, hx, hregister, hwidth⟩ := PartialValue.exists_combine hshape.1 hshape.2
    have hbit := PartialValue.bit_of_combine hx
    have hmask : p.pack.mask.length = byteLength p.width := (canonical_pack p).length_mask
    have hvalue : p.pack.value.length = byteLength p.width := (canonical_pack p).length_value
    have hstored : q.pack.value.length = byteLength p.width :=
      (canonical_pack q).length_value.trans (congrArg byteLength hshape.2.symm)
    have htaken := length_taken hshape.2
    have hbitTaken := bitAt_taken hshape.2
    rw [if_pos hshape, hx]
    refine congrArg Except.ok (eq_pack_of_bitAt hregister.symm hwidth.symm ?_ ?_ ?_ ?_)
    · rw [List.length_zipWith, hmask, htaken, Nat.min_self, hwidth]
    · rw [List.length_zipWith, List.length_zipWith, hvalue, hstored, htaken, Nat.min_self,
        Nat.min_self, hwidth]
    · intro i
      rw [bitAt_or (hmask.trans htaken.symm), bitAt_mask_pack, hbitTaken, hbit]
      cases p.bit i <;> cases q.bit i <;> rfl
    · intro i
      rw [bitAt_or (hvalue.trans ?_), bitAt_and (hstored.trans htaken.symm), bitAt_value_pack,
        bitAt_value_pack, hbitTaken, hbit]
      · cases p.bit i <;> cases q.bit i <;> simp
      · rw [List.length_zipWith, hstored, htaken, Nat.min_self]
  · rw [PartialValue.combine, if_neg hshape, if_neg hshape]
    rfl

/-! ## Trimming -/

/-- The bits to spare are counted exactly, although for the widest registers both the number of bits
in the bytes and the difference wrap around. -/
theorem toNat_spare {v : PackedValue} (hlength : v.mask.length = byteLength v.width) :
    v.spare.toNat = 8 * byteLength v.width - v.width.toNat := by
  have hwidth := v.width.toNat_lt
  have height : (8 : UInt32).toNat = 8 := rfl
  rw [spare, hlength, UInt32.toNat_sub, UInt32.toNat_mul, UInt32.toNat_ofNat', height, byteLength]
  omega

/-- The lowest bits of a byte are kept, as many as are not to spare. -/
theorem testBit_keep (n : UInt32) (hn : n.toNat < 8) {j : Nat} :
    ((0xFF : UInt8) >>> n.toUInt8).toNat.testBit j = decide (n.toNat + j < 8) := by
  have hfull : (0xFF : UInt8).toNat = 2 ^ 8 - 1 := rfl
  have hshift : n.toUInt8.toNat % 8 = n.toNat := by
    rw [UInt32.toNat_toUInt8]
    omega
  rw [UInt8.toNat_shiftRight, hshift, Nat.testBit_shiftRight, hfull, Nat.testBit_two_pow_sub_one]

theorem length_trimmedMask (v : PackedValue) : v.trimmedMask.length = v.mask.length := by
  rw [trimmedMask]
  split
  · exact List.length_modify _ _ _
  · rfl

/-- Trimming keeps the bits of the mask that lie inside the register. -/
theorem bitAt_trimmedMask {v : PackedValue} (hlength : v.mask.length = byteLength v.width) (i : Nat) :
    bitAt v.trimmedMask i = (decide (i < v.width.toNat) && bitAt v.mask i) := by
  have hspare := toNat_spare hlength
  have hbytes := hlength
  rw [byteLength] at hspare hbytes
  have hpositive : 0 < v.spare ↔ 0 < v.spare.toNat := UInt32.lt_iff_toNat_lt
  rw [trimmedMask]
  by_cases hpos : 0 < v.spare
  · have hnat := hpositive.1 hpos
    rw [if_pos hpos, bitAt_modify]
    by_cases hlast : i / 8 = v.mask.length - 1
    · rw [if_pos ⟨hlast, by omega⟩, UInt8.toNat_and, Nat.testBit_and, testBit_keep _ (by omega),
        ← hlast, Bool.and_comm, bitAt]
      congr 1
      exact decide_eq_decide.2 (by omega)
    · rw [if_neg fun hboth => hlast hboth.1]
      by_cases hi : i < v.width.toNat
      · rw [decide_eq_true hi, Bool.true_and]
      · rw [decide_eq_false hi, Bool.false_and, bitAt_eq_false_of_le (by omega)]
  · have hzero : v.spare.toNat = 0 := Nat.eq_zero_of_not_pos fun h => hpos (hpositive.2 h)
    rw [if_neg hpos]
    by_cases hi : i < v.width.toNat
    · rw [decide_eq_true hi, Bool.true_and]
    · rw [decide_eq_false hi, Bool.false_and, bitAt_eq_false_of_le (by omega)]

/-- What trimming leaves of two strings is a value: the bits inside the register that the mask marks
as known. -/
theorem normalize_eq_pack {v : PackedValue} (hmask : v.mask.length = byteLength v.width)
    (hvalue : v.value.length = byteLength v.width) {mask value : Nat}
    (hbitMask : ∀ i, bitAt v.mask i = mask.testBit i)
    (hbitValue : ∀ i, bitAt v.value i = value.testBit i) :
    v.normalize = (PartialValue.ofMask v.register v.width mask value).pack := by
  have htrimmed : v.trimmedMask.length = byteLength v.width := (length_trimmedMask v).trans hmask
  have hbit := bitAt_trimmedMask hmask
  refine eq_pack_of_bitAt rfl rfl htrimmed ?_ ?_ ?_
  · rw [normalize, List.length_zipWith, hvalue, htrimmed, Nat.min_self]
    rfl
  · intro i
    rw [normalize, hbit, hbitMask, PartialValue.bit_ofMask]
    by_cases hi : i < v.width.toNat <;> cases hset : mask.testBit i <;> simp [hi]
  · intro i
    rw [normalize, bitAt_and (hvalue.trans htrimmed.symm), hbit, hbitMask, hbitValue,
      PartialValue.bit_ofMask]
    by_cases hi : i < v.width.toNat <;> cases hset : mask.testBit i <;> simp [hi]

/-- Reading bytes is reading the numbers that they spell. -/
theorem ofBytes_eq (register : RegisterId) (width : UInt32) (mask value : List UInt8) :
    ofBytes register width mask value =
      (PartialValue.ofBytes register width mask value).map PartialValue.pack := by
  rw [ofBytes, PartialValue.ofBytes]
  by_cases hmask : mask.length = byteLength width
  · by_cases hvalue : value.length = byteLength width
    · rw [if_neg (not_not.2 hmask), if_neg (not_not.2 hvalue), if_neg (not_not.2 hmask),
        if_neg (not_not.2 hvalue)]
      refine congrArg Except.ok (normalize_eq_pack ?_ ?_ ?_ ?_)
      · rw [List.length_reverse, hmask]
      · rw [List.length_reverse, hvalue]
      · exact fun i => (testBit_ofBigEndian mask i).symm
      · exact fun i => (testBit_ofBigEndian value i).symm
    · rw [if_neg (not_not.2 hmask), if_pos hvalue, if_neg (not_not.2 hmask), if_pos hvalue]
      rfl
  · rw [if_pos hmask, if_pos hmask]
    rfl

theorem deserialize_eq (register : RegisterId) (width : UInt32) (bytes : List UInt8) :
    deserialize register width bytes =
      (PartialValue.deserialize register width bytes).map PartialValue.pack := by
  rw [deserialize, PartialValue.deserialize]
  by_cases hlength : bytes.length = 2 * byteLength width
  · rw [if_neg (not_not.2 hlength), if_neg (not_not.2 hlength), ofBytes_eq]
  · rw [if_pos hlength, if_pos hlength]
    rfl

/-! ## Counting -/

theorem toNat_ones (b : UInt8) : (ones b).toNat = (List.range 8).countP b.toNat.testBit := by
  have hle : (List.range 8).countP b.toNat.testBit ≤ 8 := by
    simpa using List.countP_le_length (p := b.toNat.testBit) (l := List.range 8)
  rw [ones, UInt32.toNat_ofNat']
  omega

/-- Adding up the bits that are set in the single bytes counts, up to wrapping around, those that are
set in the string. -/
theorem toNat_foldl_ones (bytes : List UInt8) (n : UInt32) :
    (bytes.foldl (fun n b => n + ones b) n).toNat =
      (n.toNat + (List.range (8 * bytes.length)).countP (bitAt bytes)) % 2 ^ 32 := by
  induction bytes generalizing n with
  | nil => exact (Nat.mod_eq_of_lt n.toNat_lt).symm
  | cons b bytes ih =>
      have hlength : 8 * (b :: bytes).length = 8 + 8 * bytes.length := by
        rw [List.length_cons]
        omega
      have hfirst : (List.range 8).countP (bitAt (b :: bytes)) =
          (List.range 8).countP b.toNat.testBit := by
        refine List.countP_congr fun i hi => ?_
        rw [bitAt_cons, if_pos (List.mem_range.1 hi)]
      have hrest : bitAt (b :: bytes) ∘ (8 + ·) = bitAt bytes := by
        funext i
        rw [Function.comp_apply, bitAt_cons, if_neg (by omega), Nat.add_sub_cancel_left]
      rw [List.foldl_cons, ih, UInt32.toNat_add, toNat_ones, hlength, List.range_add,
        List.countP_append, List.countP_map, hfirst, hrest]
      omega

/-- The bits that are set in the mask are as many as are known. -/
theorem toNat_knownCount_pack (p : PartialValue) : p.pack.knownCount.toNat = p.knownCount := by
  have hdecide : bitAt p.pack.mask = fun i => decide (bitAt p.pack.mask i = true) := by
    funext i
    exact Bool.decide_eq_true.symm
  have hcount : (List.range (8 * p.pack.mask.length)).countP (bitAt p.pack.mask) =
      ((Finset.range (8 * p.pack.mask.length)).filter fun i => bitAt p.pack.mask i).card := by
    rw [List.countP_eq_length_filter, hdecide]
    simp only [decide_eq_true_eq]
    rfl
  have hpositions : ((Finset.range (8 * p.pack.mask.length)).filter fun i => bitAt p.pack.mask i) =
      p.knownPositions := by
    ext i
    rw [Finset.mem_filter, Finset.mem_range, bitAt_mask_pack, PartialValue.mem_knownPositions,
      (canonical_pack p).length_mask]
    exact and_iff_right_of_imp fun hsome =>
      lt_bits_of_lt_width _ (PartialValue.lt_width_of_isSome hsome)
  rw [knownCount, toNat_foldl_ones, UInt32.toNat_zero, Nat.zero_add, hcount, hpositions,
    ← PartialValue.knownCount_eq_card]
  exact Nat.mod_eq_of_lt (Nat.lt_of_le_of_lt p.knownCount_le_width p.width.toNat_lt)

theorem isUnknown_pack (p : PartialValue) : p.pack.isUnknown = p.isUnknown := by
  rw [Bool.eq_iff_iff, PartialValue.isUnknown_iff, isUnknown, List.all_eq_true]
  constructor
  · intro hzero i
    rw [← Option.not_isSome_iff_eq_none, ← bitAt_mask_pack, bitAt]
    by_cases hi : i / 8 < p.pack.mask.length
    · rw [List.getD_eq_getElem _ _ hi, beq_iff_eq.1 (hzero _ (List.getElem_mem hi))]
      simp
    · rw [List.getD_eq_getElem?_getD, List.getElem?_eq_none (Nat.le_of_not_lt hi)]
      simp
  · intro hnone b hb
    obtain ⟨k, hk, rfl⟩ := List.mem_iff_getElem.1 hb
    rw [beq_iff_eq]
    refine eq_of_testBit_eq fun j hj => ?_
    have hbyte : (8 * k + j) / 8 = k := by omega
    have hplace : (8 * k + j) % 8 = j := by omega
    have hbit := bitAt_mask_pack p (8 * k + j)
    rw [hnone, bitAt, hbyte, hplace, List.getD_eq_getElem _ _ hk] at hbit
    rw [hbit]
    simp

theorem isFullyKnown_pack (p : PartialValue) : p.pack.isFullyKnown = p.isFullyKnown := by
  rw [isFullyKnown, PartialValue.isFullyKnown, Bool.eq_iff_iff, beq_iff_eq, beq_iff_eq,
    ← UInt32.toNat_inj, toNat_knownCount_pack]
  rfl

theorem serialize_pack (p : PartialValue) : p.pack.serialize = p.serialize := by
  rw [serialize, PartialValue.pack, List.reverse_reverse, List.reverse_reverse]
  rfl

end RegisterMigration.PackedValue
