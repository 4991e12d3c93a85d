import RegisterMigration.Proofs.Language.Containment
import RegisterMigration.Proofs.PartialValue.Placing

/-!
# Widening and narrowing

A value is widened by moving it up to its place in the base register, and narrowed by moving the
bits at that place down.  Registers nest byte by byte, but a value is cut off at a number of bits.
A base register whose size is no multiple of eight has a short top byte, and a register inside it
that reaches into that byte may have bits for which the base has no room.  Those bits are lost.

So widening always gives an answer, and what is lost can be told from the known bits of the value:
nothing is, exactly if each of them finds room in the base.

## Main results

* `widenToBase?_eq` — the widened value, and where its shift comes from.
* `narrow?_eq`, `exists_narrow?` — the part that is left, and its bits.
* `widenToBase?_lossless_iff` — when widening loses nothing.
-/

namespace RegisterMigration.Language

variable {l : Language}

/-- Widening puts a value at its place in the base register. -/
theorem widenToBase?_eq {r : Register} (hr : r ∈ l.registers) :
    ∃ a s, l.baseOf? r.id = some a ∧ a ∈ l.registers ∧ r.Inside a.toRegisterDecl ∧
      l.bitShiftWithin? r.id a.id = some s ∧
      s.toNat = l.lowBit r a ∧
      ∀ v : PartialValue, v.register = r.id →
        l.widenToBase? v = some (v.raised a.id a.bitSize s) := by
  have hat := mem_registers_iff.1 hr
  obtain ⟨a, hlineage, hbase⟩ := exists_baseOf hat
  obtain ⟨hmem, hinside⟩ := inside_of_mem_lineage hat hlineage
  obtain ⟨s, hshift, hs⟩ := bitShiftWithin?_of_mem_lineage hr hlineage
  refine ⟨a, s, hbase, hmem, hinside, hshift, hs, fun v hv => ?_⟩
  rw [widenToBase?, hv, hbase, Option.bind_eq_bind, Option.bind_some, hshift]
  rfl

/-- Narrowing moves the bits at the place of the register down. -/
theorem narrow?_eq {r : Register} (hr : r ∈ l.registers) {w : PartialValue} {s : UInt32}
    (hshift : l.bitShiftWithin? r.id w.register = some s) :
    l.narrow? w r.id = some (w.lowered r.id r.bitSize s) := by
  rw [narrow?, mem_registers_iff.1 hr, Option.bind_eq_bind, Option.bind_some, hshift]
  rfl

/-- Narrowing a value of a register around `r` gives a value of `r`, which has the bits from the
place of `r` on. -/
theorem exists_narrow? {r a : Register} (hr : r ∈ l.registers) (ha : a ∈ l.lineage r.id)
    {v : PartialValue} (hv : v.register = a.id) :
    ∃ u, l.narrow? v r.id = some u ∧ u.register = r.id ∧ u.width = r.bitSize ∧
      ∀ i, u.bit i = if i < r.bitSize.toNat then v.bit (l.lowBit r a + i) else none := by
  obtain ⟨s, hshift, hs⟩ := bitShiftWithin?_of_mem_lineage hr ha
  rw [← hv] at hshift
  refine ⟨_, narrow?_eq hr hshift, rfl, rfl, fun i => ?_⟩
  rw [PartialValue.bit_lowered, hs]

/-- A value of a register goes to the base register, with the base register's size.  The base has
room for every known bit exactly if as many bits are known as before, and exactly if narrowing
gives the value back. -/
theorem exists_widenToBase? {r : Register} (hr : r ∈ l.registers) :
    ∃ a, l.baseOf? r.id = some a ∧ r.Inside a.toRegisterDecl ∧
      ∀ v : PartialValue, v.register = r.id → v.width = r.bitSize →
        ∃ b, l.widenToBase? v = some b ∧ b.register = a.id ∧ b.width = a.bitSize ∧
          (b.knownCount = v.knownCount ↔
            ∀ i, (v.bit i).isSome → l.lowBit r a + i < a.bitSize.toNat) ∧
          (l.narrow? b r.id = some v ↔
            ∀ i, (v.bit i).isSome → l.lowBit r a + i < a.bitSize.toNat) := by
  obtain ⟨a, s, hbase, _, hinside, hshift, hs, hwiden⟩ := widenToBase?_eq hr
  refine ⟨a, hbase, hinside, fun v hregister hwidth => ?_⟩
  refine ⟨v.raised a.id a.bitSize s, hwiden v hregister, rfl, rfl, ?_, ?_⟩
  · rw [← hs]
    exact PartialValue.knownCount_raised_eq_iff
  · rw [← hs, narrow?_eq hr hshift, Option.some_inj, ← hregister, ← hwidth]
    exact PartialValue.lowered_raised_eq_iff

/-- What widening keeps.  A value of a register always goes to the base register, with the base
register's size.  As many bits are known as before, and narrowing gives the value back, exactly if
the base has room for every known bit.  It has room for every value of the register exactly if the
register's bits are bits of the base, as they are where the base is a whole number of bytes. -/
theorem widenToBase?_lossless_iff {r : Register} (hr : r ∈ l.registers) :
    ∃ a, l.baseOf? r.id = some a ∧
      (∀ v : PartialValue, v.register = r.id → v.width = r.bitSize →
        ∃ b, l.widenToBase? v = some b ∧ b.register = a.id ∧ b.width = a.bitSize ∧
          (b.knownCount = v.knownCount ↔
            ∀ i, (v.bit i).isSome → l.lowBit r a + i < a.bitSize.toNat) ∧
          (l.narrow? b r.id = some v ↔
            ∀ i, (v.bit i).isSome → l.lowBit r a + i < a.bitSize.toNat)) ∧
      ((∀ v b : PartialValue, v.register = r.id → v.width = r.bitSize →
        l.widenToBase? v = some b → b.knownCount = v.knownCount ∧ l.narrow? b r.id = some v) ↔
          l.lowBit r a + r.bitSize.toNat ≤ a.bitSize.toNat) ∧
      (8 ∣ a.bitSize.toNat → l.lowBit r a + r.bitSize.toNat ≤ a.bitSize.toNat) := by
  obtain ⟨a, hbase, hinside, hwiden⟩ := exists_widenToBase? hr
  refine ⟨a, hbase, hwiden, ⟨fun hall => ?_, fun hroom v b hregister hwidth hb => ?_⟩, ?_⟩
  · -- The value of which all bits are known needs all the room.
    have hpos := bitSize_pos hr
    obtain ⟨b, hb, _, _, hcount, _⟩ := hwiden (.known r.id r.bitSize 0) rfl rfl
    have hkept := hcount.1 (hall _ b rfl rfl hb).1 (r.bitSize.toNat - 1)
    rw [PartialValue.bit_known, if_pos (by omega)] at hkept
    have hlt := hkept rfl
    omega
  · obtain ⟨b', hb', _, _, hcount, hback⟩ := hwiden v hregister hwidth
    rw [hb] at hb'
    rcases Option.some.inj hb' with rfl
    have hkept : ∀ i, (v.bit i).isSome → l.lowBit r a + i < a.bitSize.toNat := by
      intro i hi
      have hlt := PartialValue.lt_width_of_isSome hi
      rw [hwidth] at hlt
      omega
    exact ⟨hcount.2 hkept, hback.2 hkept⟩
  · exact lowBit_add_bitSize_le_of_dvd hinside

/-- A register of twelve bits, which occupies two bytes. -/
def short : Register :=
  { name := "short", space := "register", offset := 0, bitSize := 12, id := ⟨0⟩, parent := none }

/-- A register of eight bits in the second byte. -/
def top : Register :=
  { name := "top", space := "register", offset := 1, bitSize := 8, id := ⟨1⟩, parent := some ⟨0⟩ }

/-- A language in which the first register contains the second one. -/
def shortAndTop : Language :=
  .ofRegisters .little [short.toRegisterDecl, top.toRegisterDecl] [] (by decide)

/-- The outer register is the base of the inner one. -/
theorem shortAndTop_base : shortAndTop.baseOf? top.id = some short := by
  decide +kernel

theorem top_mem : top ∈ shortAndTop.registers := by
  have hat : shortAndTop.registerById? ⟨1⟩ = some top := by decide
  exact mem_of_registerById hat

/-- The lower half of the inner register is inside the outer one, and is kept. -/
theorem widenToBase?_lossless_lowerHalf :
    ∃ b, shortAndTop.widenToBase? (.ofMask ⟨1⟩ 8 0x0f 0x05) = some b ∧ b.width = 12 ∧
      b.knownCount = (PartialValue.ofMask ⟨1⟩ 8 0x0f 0x05).knownCount ∧
        shortAndTop.narrow? b ⟨1⟩ = some (.ofMask ⟨1⟩ 8 0x0f 0x05) := by
  obtain ⟨a, hbase, hwiden, _⟩ := widenToBase?_lossless_iff top_mem
  rw [shortAndTop_base] at hbase
  rcases Option.some.inj hbase with rfl
  obtain ⟨b, hb, _, hwidth, hcount, hback⟩ := hwiden (.ofMask ⟨1⟩ 8 0x0f 0x05) rfl rfl
  have hlow : ∀ i < 8, ((PartialValue.ofMask ⟨1⟩ 8 0x0f 0x05).bit i).isSome →
      shortAndTop.lowBit top short + i < short.bitSize.toNat := by decide
  have hkept : ∀ i, ((PartialValue.ofMask ⟨1⟩ 8 0x0f 0x05).bit i).isSome →
      shortAndTop.lowBit top short + i < short.bitSize.toNat := by
    intro i hi
    exact hlow i (PartialValue.lt_width_of_isSome hi) hi
  exact ⟨b, hb, hwidth, hcount.2 hkept, hback.2 hkept⟩

/-- The upper half of the inner register is outside the outer one, and is lost. -/
theorem not_forall_widenToBase?_lossless :
    ¬ ∀ (l : Language) (r : Register) (v : PartialValue), r ∈ l.registers →
      v.register = r.id → v.width = r.bitSize →
        ∃ a b, l.baseOf? r.id = some a ∧ l.widenToBase? v = some b ∧ b.register = a.id ∧
          b.width = a.bitSize ∧ b.knownCount = v.knownCount ∧ l.narrow? b r.id = some v := by
  intro h
  obtain ⟨a, b, hbase, hb, _, _, hsame, _⟩ :=
    h shortAndTop top (.known ⟨1⟩ 8 255) top_mem rfl rfl
  obtain ⟨a', hbase', _, hwiden⟩ := exists_widenToBase? top_mem
  rw [shortAndTop_base] at hbase'
  rcases Option.some.inj hbase' with rfl
  obtain ⟨b', hb', _, _, hcount, _⟩ := hwiden (.known ⟨1⟩ 8 255) rfl rfl
  rw [hb] at hb'
  rcases Option.some.inj hb' with rfl
  have hlt := hcount.1 hsame 7 (by decide)
  revert hlt
  decide

end RegisterMigration.Language
