import RegisterMigration.Proofs.Language.MemoryImage
import RegisterMigration.Proofs.PartialValue.Combining

/-!
# Registers side by side

Two registers with one base can be written on that base at the same time if they have no byte in
common.  The hierarchy only speaks of bytes and addresses, and merging only of bits.  Between the
two are the positions that a register takes up in the base: all bits of its bytes, from its lowest
bit on.  They depend on the byte order.  In either order registers that are apart take up different
positions, however deep in the hierarchy each of them is.

A register may take up more positions than it has bits, and than the base has.  A value of the
register knows none of those, so nothing here depends on sizes that are whole bytes.

## Main results

* `overlaps_iff` — the check of two spans finds out whether they are apart.
* `not_takesUp_of_apart` — registers that are apart take up different bits.
* `narrow?_congr` — narrowing reads no other bits than those that the register takes up.
* `widenToBase?_combine_of_not_overlaps` — values side by side do not change each other.
-/

namespace RegisterMigration.Language

variable {l : Language} {r s a : Register} {v w x y z : PartialValue}

/-- In a loaded language the check for a common byte is exact. -/
theorem overlaps_iff (hr : r ∈ l.registers) (hs : s ∈ l.registers) :
    r.overlaps s.toRegisterDecl ↔ r.space = s.space ∧ ¬ r.Apart s.toRegisterDecl := by
  have hrlast := lastByte_eq hr
  have hslast := lastByte_eq hs
  rw [RegisterDecl.overlaps, RegisterDecl.Apart, Bool.and_eq_true, Bool.and_eq_true, beq_iff_eq,
    decide_eq_true_eq, decide_eq_true_eq, and_assoc]
  refine and_congr_right fun _ => ?_
  omega

/-! ## The bits that a register takes up -/

/-- The bit `i` of the register `a` is in one of the bytes of the register `r` inside it. -/
def TakesUp (l : Language) (r a : Register) (i : Nat) : Prop :=
  l.lowBit r a ≤ i ∧ i < l.lowBit r a + 8 * r.byteLen

/-- Registers that are apart take up different bits of a register around both. -/
theorem not_takesUp_of_apart (hra : r.Inside a.toRegisterDecl) (hsa : s.Inside a.toRegisterDecl)
    (hapart : r.Apart s.toRegisterDecl) {i : Nat} (hi : l.TakesUp r a i) : ¬ l.TakesUp s a i := by
  obtain ⟨_, hrlow, hrhigh⟩ := hra
  obtain ⟨_, hslow, hshigh⟩ := hsa
  have hrstop : r.stop = r.offset.toNat + r.byteLen := rfl
  have hsstop : s.stop = s.offset.toNat + s.byteLen := rfl
  intro hsi
  unfold TakesUp lowBit bytesBelow at hi hsi
  unfold RegisterDecl.Apart at hapart
  -- The order of the two spans among the bits is that of the offsets or the opposite one.
  cases horder : l.definition.endianness with
  | little =>
      simp only [horder] at hi hsi
      omega
  | big =>
      simp only [horder] at hi hsi
      omega

/-- The value only knows bits that the register `r` takes up in the register `a` around it. -/
def Confined (l : Language) (r a : Register) (v : PartialValue) : Prop :=
  ∀ i, (v.bit i).isSome → l.TakesUp r a i

/-- A widened value only knows bits that its register takes up. -/
theorem exists_widenToBase?_confined (hr : r ∈ l.registers) (hregister : v.register = r.id)
    (hwidth : v.width = r.bitSize) :
    ∃ a x, l.baseOf? r.id = some a ∧ a ∈ l.registers ∧ r.Inside a.toRegisterDecl ∧
      l.widenToBase? v = some x ∧ x.register = a.id ∧ x.width = a.bitSize ∧ l.Confined r a x := by
  obtain ⟨a, hbase, ha, hinside, hwiden⟩ := exists_bit_widenToBase? hr
  obtain ⟨x, hx, hxregister, hxwidth, hbit⟩ := hwiden v hregister hwidth
  refine ⟨a, x, hbase, ha, hinside, hx, hxregister, hxwidth, fun i hi => ?_⟩
  rw [hbit] at hi
  split at hi
  · rename_i hroom
    have hlt := PartialValue.lt_width_of_isSome hi
    have hbits := bitSize_le r
    rw [hwidth] at hlt
    exact ⟨hroom.1, by omega⟩
  · cases hi

/-- A value that is confined to a register knows nothing of another one that is apart. -/
theorem Confined.bit_eq_none (hx : l.Confined s a x) (hra : r.Inside a.toRegisterDecl)
    (hsa : s.Inside a.toRegisterDecl) (hapart : r.Apart s.toRegisterDecl) {i : Nat}
    (hi : l.TakesUp r a i) : x.bit i = none := by
  by_contra hsome
  exact not_takesUp_of_apart hra hsa hapart hi (hx i (Option.isSome_iff_ne_none.2 hsome))

/-- Values that are confined to registers that are apart know no bit in common. -/
theorem Confined.disjoint (hx : l.Confined r a x) (hy : l.Confined s a y)
    (hra : r.Inside a.toRegisterDecl) (hsa : s.Inside a.toRegisterDecl)
    (hapart : r.Apart s.toRegisterDecl) : Disjoint x.knownPositions y.knownPositions := by
  rw [Finset.disjoint_left]
  intro i hxi hyi
  rw [PartialValue.mem_knownPositions] at hxi hyi
  rw [hy.bit_eq_none hra hsa hapart (hx i hxi)] at hyi
  cases hyi

/-- Narrowing reads no other bits than those that the register takes up. -/
theorem narrow?_congr (hr : r ∈ l.registers) (ha : a ∈ l.registers)
    (hinside : r.Inside a.toRegisterDecl) (hv : v.register = a.id) (hw : w.register = a.id)
    (hbit : ∀ i, l.TakesUp r a i → v.bit i = w.bit i) :
    ∃ u, l.narrow? v r.id = some u ∧ l.narrow? w r.id = some u := by
  have hway := (mem_lineage_iff hr).2 ⟨ha, hinside⟩
  obtain ⟨u, hu, huregister, huwidth, hubit⟩ := exists_narrow? hr hway hv
  obtain ⟨u', hu', huregister', huwidth', hubit'⟩ := exists_narrow? hr hway hw
  have hsame : u = u' := by
    refine PartialValue.ext_bit (huregister.trans huregister'.symm)
      (huwidth.trans huwidth'.symm) fun i => ?_
    rw [hubit, hubit']
    split
    · rename_i hi
      have hbits := bitSize_le r
      exact hbit _ ⟨Nat.le_add_right _ _, by omega⟩
    · rfl
  rw [← hsame] at hu'
  exact ⟨u, hu, hu'⟩

/-! ## Two values on one base -/

/-- Merging with a value that knows no bit of the register changes nothing there. -/
theorem narrow?_combine (hr : r ∈ l.registers) (ha : a ∈ l.registers)
    (hinside : r.Inside a.toRegisterDecl) (hx : x.register = a.id)
    (hz : x.combine y = .ok z) (hnone : ∀ i, l.TakesUp r a i → y.bit i = none) :
    ∃ u, l.narrow? z r.id = some u ∧ l.narrow? x r.id = some u := by
  obtain ⟨hxy, hwidth, hzeq⟩ := PartialValue.combine_eq_ok_iff.1 hz
  have hzregister : z.register = a.id := by
    rw [hzeq]
    exact hx
  refine narrow?_congr hr ha hinside hzregister hx fun i hi => ?_
  rw [PartialValue.bit_of_combine hz, hnone i hi, Option.or_none]

/-- Values of two registers that have one base and no byte in common do not change each other
there.  Widened to the base they can be merged, in either order and also in bytes, every bit that is
known of one of them is counted, and each register reads back what it reads from its own value
alone. -/
theorem widenToBase?_combine_of_not_overlaps (hr : r ∈ l.registers) (hs : s ∈ l.registers)
    (hbase : l.baseOf? r.id = l.baseOf? s.id) (hapart : ¬ r.overlaps s.toRegisterDecl)
    (hvregister : v.register = r.id) (hvwidth : v.width = r.bitSize)
    (hwregister : w.register = s.id) (hwwidth : w.width = s.bitSize) :
    ∃ x y z, l.widenToBase? v = some x ∧ l.widenToBase? w = some y ∧
      x.combine y = .ok z ∧ y.combine x = .ok z ∧
      x.pack.combine y.pack = .ok z.pack ∧ y.pack.combine x.pack = .ok z.pack ∧
      z.knownCount = x.knownCount + y.knownCount ∧
      (∃ u, l.narrow? z r.id = some u ∧ l.narrow? x r.id = some u) ∧
      ∃ u, l.narrow? z s.id = some u ∧ l.narrow? y s.id = some u := by
  obtain ⟨a, x, hra, ha, hrinside, hx, hxregister, hxwidth, hxbits⟩ :=
    exists_widenToBase?_confined hr hvregister hvwidth
  obtain ⟨b, y, hsb, _, hsinside, hy, hyregister, hywidth, hybits⟩ :=
    exists_widenToBase?_confined hs hwregister hwwidth
  rw [← hbase, hra] at hsb
  rcases Option.some.inj hsb with rfl
  have hspans : r.Apart s.toRegisterDecl := by
    by_contra hmeet
    exact hapart ((overlaps_iff hr hs).2 ⟨hrinside.1.trans hsinside.1.symm, hmeet⟩)
  have halike : x.Alike y := ⟨hxregister.trans hyregister.symm, hxwidth.trans hywidth.symm⟩
  have hdisjoint := hxbits.disjoint hybits hrinside hsinside hspans
  obtain ⟨z, hxy, hyx, hcount⟩ := PartialValue.exists_combine_of_disjoint halike hdisjoint
  refine ⟨x, y, z, hx, hy, hxy, hyx, ?_, ?_, hcount, ?_, ?_⟩
  · rw [PackedValue.combine_pack, hxy]
    rfl
  · rw [PackedValue.combine_pack, hyx]
    rfl
  · exact narrow?_combine hr ha hrinside hxregister hxy fun _ =>
      hybits.bit_eq_none hrinside hsinside hspans
  · exact narrow?_combine hs ha hsinside hyregister hyx fun _ =>
      hxbits.bit_eq_none hsinside hrinside hspans.symm

/-- A register of thirty-six bits, which occupies five bytes. -/
def wide : Register :=
  { name := "wide", space := "register", offset := 0, bitSize := 36, id := ⟨0⟩, parent := none }

/-- A register of seven bits in the first byte. -/
def crown : Register :=
  { name := "crown", space := "register", offset := 0, bitSize := 7, id := ⟨1⟩,
    parent := some ⟨0⟩ }

/-- A register of twelve bits in the two bytes after that. -/
def pair : Register :=
  { name := "pair", space := "register", offset := 1, bitSize := 12, id := ⟨2⟩,
    parent := some ⟨0⟩ }

/-- A register of five bits in the second one of these two. -/
def five : Register :=
  { name := "five", space := "register", offset := 2, bitSize := 5, id := ⟨3⟩,
    parent := some ⟨2⟩ }

/-- A big-endian language in which the last register is inside the one before, and all are inside
the first one. -/
def threeDeep : Language :=
  .ofRegisters .big
    [wide.toRegisterDecl, crown.toRegisterDecl, pair.toRegisterDecl, five.toRegisterDecl] []
    (by decide)

/-- The first byte is the highest one, and the base has four bits of it.  So of the seven bits in
that byte four are kept, whatever the five bits deeper down are, and these come back as they
were. -/
theorem widenToBase?_combine_threeDeep :
    ∃ x y z, threeDeep.widenToBase? (.known ⟨1⟩ 7 0b1010011) = some x ∧
      threeDeep.widenToBase? (.known ⟨3⟩ 5 0b10110) = some y ∧
      x.combine y = .ok z ∧ y.combine x = .ok z ∧ z.knownCount = 9 ∧
      threeDeep.narrow? z ⟨1⟩ = some (.ofMask ⟨1⟩ 7 0b1111 0b0011) ∧
      threeDeep.narrow? z ⟨3⟩ = some (.known ⟨3⟩ 5 0b10110) := by
  have hcrown : threeDeep.registerById? ⟨1⟩ = some crown := by decide
  have hfive : threeDeep.registerById? ⟨3⟩ = some five := by decide
  have hbase : threeDeep.baseOf? crown.id = threeDeep.baseOf? five.id := by decide +kernel
  have hup : threeDeep.widenToBase? (.known ⟨1⟩ 7 0b1010011) =
      some (.ofMask ⟨0⟩ 36 0xf00000000 0x300000000) := by
    decide +kernel
  have hdeep : threeDeep.widenToBase? (.known ⟨3⟩ 5 0b10110) =
      some (.ofMask ⟨0⟩ 36 0x1f0000 0x160000) := by
    decide +kernel
  obtain ⟨x, y, z, hx, hy, hxy, hyx, _, _, hcount, ⟨u, hzu, hxu⟩, ⟨t, hzt, hyt⟩⟩ :=
    widenToBase?_combine_of_not_overlaps (v := .known ⟨1⟩ 7 0b1010011)
      (w := .known ⟨3⟩ 5 0b10110) (mem_of_registerById hcrown) (mem_of_registerById hfive) hbase
      (by decide) rfl rfl rfl rfl
  rcases Option.some.inj (hup.symm.trans hx) with rfl
  rcases Option.some.inj (hdeep.symm.trans hy) with rfl
  refine ⟨_, _, z, hup, hdeep, hxy, hyx, hcount.trans (by decide), ?_, ?_⟩
  · exact (hzu.trans hxu.symm).trans (by decide +kernel)
  · exact (hzt.trans hyt.symm).trans (by decide +kernel)

end RegisterMigration.Language
