import RegisterMigration.Proofs.PackedValue.Operations

/-!
# Bit ranges as numbers

The bits of a range are read as a number, lowest first, and a number is written to the bits of a
range.  Reading is a loop that sets one bit of the result after the other and gives up at the first
bit that is not known.  What it has after `n` steps is the number that the first `n` bits denote,
and this is the invariant from which everything else follows.  A range of more than 64 bits has no
number; the loop never starts, since the width that is compared is exact.  The one range for which
that width wraps around reaches past every register, and there the loop gives up.

A range and a number fix what a write leaves in every bit, so laws about writes are compared bit by
bit, and nothing about loops is needed for them.

## Main results

* `Binary.Denotes.unique`, `Binary.exists_denotes_iff` — known bits denote exactly one number.
* `PackedValue.denotes_of_gather`, `PackedValue.isSome_gather_iff` — the loop, and when it ends.
* `PackedValue.bits?_pack` — reading from bytes and reading from a value are the same.
* `bits?_eq_some_iff` — what is read from a range.
* `withBits_bits?`, `withBits_comm` — writing back what was read, and the order of two writes.
* `rangeLaws` — reading and writing together.
-/

namespace RegisterMigration

/-! ## Numbers that bits denote -/

namespace Binary

/-- The first `n` bits are known, and they are the bits of `x`, which has no others. -/
structure Denotes (f : Nat → Option Bool) (n x : Nat) : Prop where
  lt_two_pow : x < 2 ^ n
  bit_eq : ∀ i < n, f i = some (x.testBit i)

variable {f g : Nat → Option Bool} {n x y : Nat}

theorem denotes_zero (f : Nat → Option Bool) : Denotes f 0 0 :=
  ⟨Nat.one_pos, fun _ hi => absurd hi (Nat.not_lt_zero _)⟩

theorem Denotes.congr (h : Denotes f n x) (hfg : ∀ i < n, f i = g i) : Denotes g n x :=
  ⟨h.lt_two_pow, fun i hi => (hfg i hi).symm.trans (h.bit_eq i hi)⟩

theorem Denotes.lt_of_le (h : Denotes f n x) {k : Nat} (hk : n ≤ k) : x < 2 ^ k :=
  Nat.lt_of_lt_of_le h.lt_two_pow (Nat.pow_le_pow_right (by decide) hk)

theorem Denotes.testBit_of_le (h : Denotes f n x) {i : Nat} (hi : n ≤ i) : x.testBit i = false :=
  Nat.testBit_lt_two_pow (h.lt_of_le hi)

/-- One more known bit is set above the others. -/
theorem Denotes.succ (h : Denotes f n x) {b : Bool} (hb : f n = some b) :
    Denotes f (n + 1) (x ||| b.toNat <<< n) := by
  have hbit : ∀ i, (x ||| b.toNat <<< n).testBit i = (x.testBit i || (decide (i = n) && b)) := by
    intro i
    rw [Nat.testBit_or, Nat.testBit_shiftLeft]
    by_cases hlt : i < n
    · have hge : ¬ i ≥ n := by omega
      have hne : i ≠ n := by omega
      simp [hge, hne]
    · by_cases heq : i = n
      · subst heq
        cases b <;> simp
      · have hpos : ∃ k, i - n = k + 1 := ⟨i - n - 1, by omega⟩
        obtain ⟨k, hk⟩ := hpos
        have hhigh : b.toNat.testBit (k + 1) = false := by
          cases b <;> simp [Nat.testBit_succ]
        simp [heq, hk, hhigh]
  constructor
  · refine Nat.lt_pow_two_of_testBit _ fun i hi => ?_
    have hne : i ≠ n := by omega
    rw [hbit, h.testBit_of_le (by omega), decide_eq_false hne]
    rfl
  · intro i hi
    rw [hbit]
    by_cases heq : i = n
    · rw [heq, hb, h.testBit_of_le (Nat.le_refl n), decide_eq_true rfl]
      rfl
    · rw [h.bit_eq i (by omega), decide_eq_false heq, Bool.false_and, Bool.or_false]

/-- The same bits denote the same number. -/
theorem Denotes.unique (hx : Denotes f n x) (hy : Denotes f n y) : x = y := by
  refine Nat.eq_of_testBit_eq fun i => ?_
  by_cases hi : i < n
  · have hsome : some (x.testBit i) = some (y.testBit i) :=
      (hx.bit_eq i hi).symm.trans (hy.bit_eq i hi)
    exact Option.some.inj hsome
  · rw [hx.testBit_of_le (by omega), hy.testBit_of_le (by omega)]

/-- Bits denote a number exactly if all of them are known. -/
theorem exists_denotes_iff : (∃ x, Denotes f n x) ↔ ∀ i < n, (f i).isSome := by
  constructor
  · rintro ⟨x, h⟩ i hi
    rw [h.bit_eq i hi]
    rfl
  · intro hknown
    induction n with
    | zero => exact ⟨0, denotes_zero f⟩
    | succ n ih =>
        obtain ⟨x, hx⟩ := ih fun i hi => hknown i (by omega)
        obtain ⟨b, hb⟩ := Option.isSome_iff_exists.1 (hknown n (by omega))
        exact ⟨_, hx.succ hb⟩

/-- The bits of a number from `k` on, of which the first `n` are looked at. -/
theorem denotes_of_testBit {m k : Nat} (h : ∀ i < n, f i = some (m.testBit (k + i))) :
    Denotes f n (m / 2 ^ k % 2 ^ n) := by
  refine ⟨Nat.mod_lt _ (Nat.two_pow_pos n), fun i hi => ?_⟩
  rw [h i hi, Nat.testBit_mod_two_pow, decide_eq_true hi, Bool.true_and, Nat.testBit_div_two_pow,
    Nat.add_comm]

/-- Bits that are listed denote the number that the list spells. -/
theorem denotes_ofBits {bs : List Bool} (h : (List.range n).map f = bs.map some) :
    Denotes f n (ofBits bs) := by
  have hlength : bs.length = n := by
    have hlengths := congrArg List.length h
    simpa using hlengths.symm
  constructor
  · refine Nat.lt_pow_two_of_testBit _ fun i hi => ?_
    rw [testBit_ofBits, List.getElem?_eq_none (by omega)]
    rfl
  · intro i hi
    have hentry := congrArg (·[i]?) h
    simp only [List.getElem?_map, List.getElem?_range hi, Option.map_some] at hentry
    rw [testBit_ofBits]
    cases hb : bs[i]? with
    | none => simp [hb] at hentry
    | some b =>
        rw [hb] at hentry
        exact Option.some.inj hentry

end Binary

open Binary

/-! ## The loop -/

namespace PackedValue

variable {f : Nat → Option Bool} {n : Nat}

/-- The last step of the loop. -/
theorem gather_succ (f : Nat → Option Bool) (n : Nat) :
    gather f (n + 1) =
      (gather f n).bind fun x => (f n).map fun b => x ||| b.toUInt64 <<< .ofNat n := by
  rw [gather, List.range_succ, List.foldlM_append]
  show Option.bind _ _ = Option.bind _ _
  congr 1
  funext x
  rw [List.foldlM_cons]
  cases f n <;> rfl

/-- The loop ends with a number exactly if it meets no unknown bit. -/
theorem isSome_gather_iff : (gather f n).isSome ↔ ∀ i < n, (f i).isSome := by
  induction n with
  | zero => exact ⟨fun _ i hi => absurd hi (Nat.not_lt_zero i), fun _ => rfl⟩
  | succ n ih =>
      rw [gather_succ, Option.isSome_bind, Nat.forall_lt_succ_right]
      cases hgathered : gather f n with
      | none =>
          rw [hgathered] at ih
          have hnot : ¬ ∀ i < n, (f i).isSome := fun hall => Bool.false_ne_true (ih.2 hall)
          exact ⟨fun h => absurd h Bool.false_ne_true, fun h => absurd h.1 hnot⟩
      | some x =>
          rw [hgathered] at ih
          have hall := ih.1 rfl
          rw [Option.any_some, Option.isSome_map]
          exact ⟨fun h => ⟨hall, h⟩, fun h => h.2⟩

theorem toNat_bit_shiftLeft (b : Bool) {n : Nat} (hn : n < 64) :
    (b.toUInt64 <<< UInt64.ofNat n).toNat = b.toNat <<< n := by
  have hshift : (UInt64.ofNat n).toNat % 64 = n := by
    rw [UInt64.toNat_ofNat']
    omega
  have hbit : b.toUInt64.toNat = b.toNat := by cases b <;> rfl
  have hle : 2 ^ n ≤ 2 ^ 63 := Nat.pow_le_pow_right (by decide) (by omega)
  rw [UInt64.toNat_shiftLeft, hshift, hbit, Nat.shiftLeft_eq]
  refine Nat.mod_eq_of_lt ?_
  cases b with
  | false => simp
  | true =>
      show 1 * 2 ^ n < 2 ^ 64
      omega

/-- What the loop has gathered is the number that the bits denote, as long as it fits 64 bits. -/
theorem denotes_of_gather (hn : n ≤ 64) {x : UInt64} (h : gather f n = some x) :
    Denotes f n x.toNat := by
  induction n generalizing x with
  | zero =>
      rcases Option.some.inj h with rfl
      exact denotes_zero f
  | succ n ih =>
      rw [gather_succ] at h
      obtain ⟨y, hy, h⟩ := Option.bind_eq_some_iff.1 h
      obtain ⟨b, hb, rfl⟩ := Option.map_eq_some_iff.1 h
      rw [UInt64.toNat_or, toNat_bit_shiftLeft b (by omega)]
      exact (ih (by omega) hy).succ hb

theorem gather_eq_some_iff (hn : n ≤ 64) {x : UInt64} :
    gather f n = some x ↔ Denotes f n x.toNat := by
  constructor
  · exact denotes_of_gather hn
  · intro h
    have hsome : (gather f n).isSome := isSome_gather_iff.2 (exists_denotes_iff.1 ⟨_, h⟩)
    obtain ⟨y, hy⟩ := Option.isSome_iff_exists.1 hsome
    rw [hy, UInt64.toNat_inj.1 ((denotes_of_gather hn hy).unique h)]

end PackedValue

/-! ## Reading -/

namespace PartialValue

variable {v : PartialValue} {range other : BitRange}

theorem mapM_eq_some_iff {α β : Type} {f : α → Option β} {xs : List α} {ys : List β} :
    xs.mapM f = some ys ↔ xs.map f = ys.map some := by
  induction xs generalizing ys with
  | nil => cases ys <;> simp
  | cons x xs ih =>
      cases ys with
      | nil =>
          rw [List.mapM_cons]
          cases f x <;> cases xs.mapM f <;> simp
      | cons y ys =>
          rw [List.mapM_cons, List.map_cons, List.map_cons, List.cons.injEq, ← ih]
          cases f x <;> cases xs.mapM f <;> simp

/-- The bits of a range, counted from its low end. -/
def rangeBit (v : PartialValue) (range : BitRange) (i : Nat) : Option Bool :=
  v.bit (range.lo.toNat + i)

/-- What is read from a range is the number that its bits denote. -/
theorem bits?_eq_some_iff {x : UInt64} :
    v.bits? range = some x ↔ range.size ≤ 64 ∧ Denotes (v.rangeBit range) range.size x.toNat := by
  rw [bits?]
  by_cases hsize : 64 < range.size
  · rw [if_pos hsize]
    exact ⟨fun h => absurd h (Option.some_ne_none x).symm, fun h => absurd h.1 (by omega)⟩
  have hfirst : (range.firstPositions 64).mapM v.bit =
      (List.range range.size).mapM (v.rangeBit range) := by
    rw [BitRange.firstPositions, Nat.min_eq_right (by omega), List.mapM_map]
    rfl
  rw [if_neg hsize, hfirst, Option.map_eq_some_iff]
  constructor
  · rintro ⟨bs, hbs, rfl⟩
    have hdenotes := denotes_ofBits (mapM_eq_some_iff.1 hbs)
    rw [UInt64.toNat_ofNat', Nat.mod_eq_of_lt (hdenotes.lt_of_le (by omega))]
    exact ⟨by omega, hdenotes⟩
  · rintro ⟨_, hdenotes⟩
    have hlist : (List.range range.size).map (v.rangeBit range) =
        ((List.range range.size).map x.toNat.testBit).map some := by
      rw [List.map_map]
      exact List.map_congr_left fun i hi => hdenotes.bit_eq i (List.mem_range.1 hi)
    refine ⟨_, mapM_eq_some_iff.2 hlist, ?_⟩
    rw [(denotes_ofBits hlist).unique hdenotes, UInt64.ofNat_toNat]

/-- A number that the bits of a short range denote is read from it. -/
theorem toNat_bits? (hsize : range.size ≤ 64) {n : Nat}
    (h : Denotes (v.rangeBit range) range.size n) :
    (v.bits? range).map UInt64.toNat = some n := by
  have hfits : (UInt64.ofNat n).toNat = n := by
    rw [UInt64.toNat_ofNat', Nat.mod_eq_of_lt (h.lt_of_le hsize)]
  rw [← hfits] at h
  rw [bits?_eq_some_iff.2 ⟨hsize, h⟩, Option.map_some, hfits]

theorem bits?_eq_none_of_lt (hsize : 64 < range.size) : v.bits? range = none :=
  if_pos hsize

/-- The positions of a range, counted from its low end. -/
theorem forall_rangeBit_iff {motive : Option Bool → Prop} :
    (∀ i < range.size, motive (v.rangeBit range i)) ↔ ∀ j, range.covers j → motive (v.bit j) := by
  constructor
  · intro h j hj
    rw [BitRange.covers_iff] at hj
    have hbit := h (j - range.lo.toNat) (by rw [BitRange.size]; omega)
    rwa [rangeBit, Nat.add_sub_cancel' hj.1] at hbit
  · intro h i hi
    rw [BitRange.size] at hi
    exact h _ (BitRange.covers_iff.2 (by omega))

/-- A number is read exactly from ranges of at most 64 bits, all of them known. -/
theorem isSome_bits?_iff :
    (v.bits? range).isSome ↔ range.size ≤ 64 ∧ ∀ j, range.covers j → (v.bit j).isSome := by
  rw [← forall_rangeBit_iff (motive := (·.isSome = true)), ← exists_denotes_iff]
  constructor
  · intro h
    obtain ⟨x, hx⟩ := Option.isSome_iff_exists.1 h
    obtain ⟨hsize, hdenotes⟩ := bits?_eq_some_iff.1 hx
    exact ⟨hsize, _, hdenotes⟩
  · rintro ⟨hsize, n, hdenotes⟩
    obtain ⟨x, hx, _⟩ := Option.map_eq_some_iff.1 (toNat_bits? hsize hdenotes)
    rw [hx]
    rfl

/-! ## Writing -/

theorem rangeBit_withBits {x : UInt64} (hin : range.hi < v.width) {i : Nat} (hi : i < range.size) :
    (v.withBits range x).rangeBit range i = some (x.toNat.testBit i) := by
  rw [UInt32.lt_iff_toNat_lt] at hin
  rw [BitRange.size] at hi
  have hcovers : range.covers (range.lo.toNat + i) := BitRange.covers_iff.2 (by omega)
  rw [rangeBit, bit_withBits, if_pos ⟨hcovers, by omega⟩, Nat.add_sub_cancel_left]

/-- What was written is read again, as far as it fits the range. -/
theorem toNat_bits?_withBits {x : UInt64} (hin : range.hi < v.width) (hsize : range.size ≤ 64) :
    ((v.withBits range x).bits? range).map UInt64.toNat = some (x.toNat % 2 ^ range.size) := by
  have hdenotes : Denotes ((v.withBits range x).rangeBit range) range.size
      (x.toNat / 2 ^ 0 % 2 ^ range.size) := by
    refine denotes_of_testBit fun i hi => ?_
    rw [rangeBit_withBits hin hi, Nat.zero_add]
  rw [Nat.pow_zero, Nat.div_one] at hdenotes
  exact toNat_bits? hsize hdenotes

/-- Writing back what was read changes nothing. -/
theorem withBits_bits? {x : UInt64} (h : v.bits? range = some x) : v.withBits range x = v := by
  obtain ⟨_, hdenotes⟩ := bits?_eq_some_iff.1 h
  refine ext_bit rfl rfl fun j => ?_
  rw [bit_withBits]
  split
  · rename_i hboth
    have hcovers := BitRange.covers_iff.1 hboth.1
    have hbit := hdenotes.bit_eq (j - range.lo.toNat) (by rw [BitRange.size]; omega)
    rw [rangeBit, Nat.add_sub_cancel' hcovers.1] at hbit
    exact hbit.symm
  · rfl

/-- Of two writes to ranges that share no position it does not matter which comes first. -/
theorem withBits_comm (hdisjoint : ∀ j, range.covers j → ¬ other.covers j) (x y : UInt64) :
    (v.withBits range x).withBits other y = (v.withBits other y).withBits range x := by
  refine ext_bit rfl rfl fun j => ?_
  have hwidth : (v.withBits range x).width = v.width := rfl
  have hwidth' : (v.withBits other y).width = v.width := rfl
  simp only [bit_withBits, hwidth, hwidth']
  by_cases hother : other.covers j ∧ j < v.width.toNat
  · have hrange : ¬ (range.covers j ∧ j < v.width.toNat) := fun h => hdisjoint j h.1 hother.1
    rw [if_pos hother, if_neg hrange, if_pos hother]
  · rw [if_neg hother, if_neg hother]

/-- A range of a known number. -/
theorem toNat_bits?_known (register : RegisterId) {width : UInt32} (n : Nat)
    (hin : range.hi < width) (hsize : range.size ≤ 64) :
    ((known register width n).bits? range).map UInt64.toNat =
      some (n / 2 ^ range.lo.toNat % 2 ^ range.size) := by
  refine toNat_bits? hsize (denotes_of_testBit fun i hi => ?_)
  rw [UInt32.lt_iff_toNat_lt] at hin
  rw [BitRange.size] at hi
  rw [rangeBit, bit_known, if_pos (by omega)]

end PartialValue

/-! ## Reading from bytes -/

namespace PackedValue

/-- Reading from the bytes of a value is reading from the value. -/
theorem bits?_pack (p : PartialValue) (range : BitRange) : p.pack.bits? range = p.bits? range := by
  have hbit : ∀ i < range.size, p.pack.bit (range.lo + .ofNat i) = p.rangeBit range i := by
    intro i hi
    rw [bit_pack, BitRange.toNat_lo_add hi, PartialValue.rangeBit]
  by_cases hshort : range.size ≤ 64
  · refine Option.ext fun x => ?_
    rw [bits?, if_neg (BitRange.not_lt_width_iff.2 (.inl hshort)), gather_eq_some_iff hshort,
      PartialValue.bits?_eq_some_iff]
    constructor
    · exact fun h => ⟨hshort, h.congr hbit⟩
    · exact fun h => h.2.congr fun i hi => (hbit i hi).symm
  · rw [PartialValue.bits?_eq_none_of_lt (Nat.lt_of_not_le hshort), bits?]
    split
    · rfl
    · rename_i hstarts
      -- The width has wrapped around, so the loop comes to the last of all positions.
      have hall := (BitRange.not_lt_width_iff.1 hstarts).resolve_left hshort
      have hwidth := p.width.toNat_lt
      have hlast : p.rangeBit range (2 ^ 32 - 1) = none := by
        rw [PartialValue.rangeBit]
        exact PartialValue.bit_eq_none_of_le (by omega)
      rw [← Option.not_isSome_iff_eq_none, isSome_gather_iff]
      intro hknown
      have hsome := hknown (2 ^ 32 - 1) (by omega)
      rw [hbit _ (by omega), hlast] at hsome
      cases hsome

end PackedValue

/-! ## Reading and writing together -/

namespace PartialValue

/-- What reading a range of a value and writing a number to it come to. -/
structure RangeLaws (v : PartialValue) (range : BitRange) (x : UInt64) : Prop where
  /-- A range has as many positions as it is reported with. -/
  size : range.size = range.hi.toNat - range.lo.toNat + 1 ∧ range.width.toNat = range.size
  /-- Bytes are written and read like the value that they keep. -/
  packed : (v.withBits range x).pack = v.pack.withBits range x ∧
    (v.pack.withBits range x).bits? range = (v.withBits range x).bits? range ∧
    v.pack.bits? range = v.bits? range
  /-- A write reaches the whole range, with zeros above the bits of the number. -/
  written : ∀ i < range.size, (v.withBits range x).bit (range.lo.toNat + i) =
    some (if i < 64 then x.toNat.testBit i else false)
  /-- A write reaches nothing else. -/
  kept : (v.withBits range x).register = v.register ∧ (v.withBits range x).width = v.width ∧
    ∀ j, ¬ range.covers j → (v.withBits range x).bit j = v.bit j
  /-- What was written is read again, as far as it fits the range. -/
  read_written : ((v.withBits range x).bits? range).map UInt64.toNat =
    if range.size ≤ 64 then some (x.toNat % 2 ^ range.size) else none
  /-- Writing back what is read changes nothing. -/
  written_read : ∀ y, v.bits? range = some y → v.withBits range y = v
  /-- Writes to ranges without a common position can be exchanged. -/
  exchanged : ∀ (other : BitRange) (y : UInt64), (∀ j, range.covers j → ¬ other.covers j) →
    (v.withBits range x).withBits other y = (v.withBits other y).withBits range x
  /-- A number is read exactly from at most 64 bits, all of them known. -/
  read_iff : ∀ r : BitRange, (v.bits? r).isSome ↔
    r.size ≤ 64 ∧ ∀ j, r.covers j → (v.bit j).isSome
  /-- A range of a number of 128 bits is read by dividing it. -/
  read_known : ∀ (register : RegisterId) (width : UInt32) (m : BitVec 128),
    range.hi < width → range.size ≤ 64 →
      (PackedValue.known register width m).bits? range = (known register width m.toNat).bits? range ∧
      ((known register width m.toNat).bits? range).map UInt64.toNat =
        some (m.toNat / 2 ^ range.lo.toNat % 2 ^ range.size)

/-- The laws of reading and writing hold of every range inside a register, whether it crosses bytes
or words, and whether or not a number has room for all its bits. -/
theorem rangeLaws (v : PartialValue) {range : BitRange} (x : UInt64) (hle : range.lo ≤ range.hi)
    (hin : range.hi < v.width) : v.RangeLaws range x where
  size := by
    have hwidth := v.width.toNat_lt
    have hlast := UInt32.lt_iff_toNat_lt.1 hin
    have hends := UInt32.le_iff_toNat_le.1 hle
    refine ⟨?_, BitRange.toNat_width hends (by omega)⟩
    rw [BitRange.size]
    omega
  packed := by
    have hpack := PackedValue.pack_withBits v range x
    refine ⟨hpack, ?_, PackedValue.bits?_pack v range⟩
    rw [← hpack, PackedValue.bits?_pack]
  written i hi := by
    have hbit := rangeBit_withBits (x := x) hin hi
    rw [rangeBit] at hbit
    rw [hbit]
    split
    · rfl
    · rename_i hhigh
      rw [← PackedValue.lowBit_shiftRight, decide_eq_false hhigh, Bool.false_and]
  kept := ⟨rfl, rfl, fun j hj => by rw [bit_withBits, if_neg fun h => hj h.1]⟩
  read_written := by
    split
    · exact toNat_bits?_withBits hin ‹_›
    · rw [bits?_eq_none_of_lt (by omega), Option.map_none]
  written_read _ h := withBits_bits? h
  exchanged _ y hdisjoint := withBits_comm hdisjoint x y
  read_iff _ := isSome_bits?_iff
  read_known register width m hwidth hsize := by
    refine ⟨?_, toNat_bits?_known register m.toNat hwidth hsize⟩
    rw [← PackedValue.pack_known, PackedValue.bits?_pack]

/-- Eighty bits of which the low forty are known. -/
def lowForty : PartialValue :=
  (unknown ⟨0⟩ 80).withBits ⟨0, 39⟩ 0x89abcdef

/-- A range of 64 bits that starts inside the first byte is read as it was written, and one of 70 bits
has zeros above the bits of the number, is not read, and leaves the bits beside it alone. -/
theorem rangeLaws_lowForty :
    ((lowForty.withBits ⟨5, 68⟩ 0xfedcba9876543210).bits? ⟨5, 68⟩).map UInt64.toNat =
        some 0xfedcba9876543210 ∧
      (lowForty.withBits ⟨5, 68⟩ 0xfedcba9876543210).bit 69 = none ∧
      (lowForty.bits? ⟨3, 39⟩).isSome ∧ ¬ (lowForty.bits? ⟨3, 40⟩).isSome ∧
      (lowForty.withBits ⟨3, 72⟩ 0xfedcba9876543210).bit 72 = some false ∧
      (lowForty.withBits ⟨3, 72⟩ 0xfedcba9876543210).bit 2 = some true ∧
      ((lowForty.withBits ⟨3, 72⟩ 0xfedcba9876543210).bits? ⟨3, 72⟩).map UInt64.toNat = none := by
  have hword : lowForty.RangeLaws ⟨5, 68⟩ 0xfedcba9876543210 :=
    rangeLaws lowForty _ (by decide) (by decide)
  have hlong : lowForty.RangeLaws ⟨3, 72⟩ 0xfedcba9876543210 :=
    rangeLaws lowForty _ (by decide) (by decide)
  refine ⟨hword.read_written, ?_, ?_, ?_, hlong.written 69 (by decide), ?_, hlong.read_written⟩
  · rw [hword.kept.2.2 69 (by decide)]
    decide
  · decide
  · decide
  · rw [hlong.kept.2.2 2 (by decide)]
    decide

end PartialValue

end RegisterMigration
