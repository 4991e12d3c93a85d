import RegisterMigration.Proofs.Language.Forest
import RegisterMigration.Proofs.Language.Widening
import RegisterMigration.Proofs.Migration.Values

/-!
# Carrying the parts of a register over

A register that lies inside another one has a value of its own, which is a part of the value of the
outer register.  If both registers survive and are nested in the new language too, there are two
ways to the new value of the inner one: the outer value is carried over and narrowed in the new
language, or it is narrowed in the old language and the part is carried over.

Carrying over keeps every bit at its place, so the two ways differ in one thing only, the place at
which the part is taken out.  If the inner register has kept its place among the bits of the outer
one, they agree.  If it has not, they read different bits, and a value of which one bit is known
shows it.  The place is what counts, and not the offset: in a big-endian language it is measured
from the last byte, and both registers may have become wider.

The two answers need not be equal.  An inner register that has become wider takes more bits out of
the new outer value than it had before.

## Main results

* `exists_bothWays` — both ways lead to an answer, and the bits of each.
* `bitShiftWithin?_eq_iff` — when an inner register has kept its place.
* `narrow_migrate_agree_iff` — the two ways agree exactly in that case.
-/

namespace RegisterMigration

namespace Language

/-- Ordinary registers `c` and `p` survive as `c'` and `p'`, and in both languages the second one is
the first one or contains it. -/
structure Nested (old new : Language) (c p c' p' : Register) : Prop where
  inner_mem : c ∈ old.registers
  outer_mem : p ∈ old.registers
  inner_ordinary : c.context = false
  outer_ordinary : p.context = false
  inner_survives : new.Corresponds c c'
  outer_survives : new.Corresponds p p'
  contains_old : p = c ∨ p.strictlyContains c.toRegisterDecl
  contains_new : p' = c' ∨ p'.strictlyContains c'.toRegisterDecl

variable {old new : Language} {c p c' p' : Register}

theorem Nested.inside_old (h : Nested old new c p c' p') : c.Inside p.toRegisterDecl :=
  (inside_iff h.inner_mem h.outer_mem).2 h.contains_old

theorem Nested.mem_lineage_old (h : Nested old new c p c' p') : p ∈ old.lineage c.id :=
  (mem_lineage_iff h.inner_mem).2 ⟨h.outer_mem, h.inside_old⟩

theorem Nested.mem_lineage_new (h : Nested old new c p c' p') : p' ∈ new.lineage c'.id :=
  (mem_lineage_iff h.inner_survives.1).2 ⟨h.outer_survives.1,
    (inside_iff h.inner_survives.1 h.outer_survives.1).2 h.contains_new⟩

/-- The shifts of both languages are the same exactly if the places in exact arithmetic are. -/
theorem Nested.bitShiftWithin?_eq_iff (h : Nested old new c p c' p') :
    old.bitShiftWithin? c.id p.id = new.bitShiftWithin? c'.id p'.id ↔
      old.lowBit c p = new.lowBit c' p' := by
  obtain ⟨s, hshift, hs⟩ := bitShiftWithin?_of_mem_lineage h.inner_mem h.mem_lineage_old
  obtain ⟨t, hshift', ht⟩ := bitShiftWithin?_of_mem_lineage h.inner_survives.1 h.mem_lineage_new
  rw [hshift, hshift', Option.some_inj, ← hs, ← ht, UInt32.toNat_inj]

end Language

namespace Migrator

variable {old new : Language} {m : Migrator} {c p c' p' : Register} {v x y : PartialValue}

/-! ## Two ways -/

/-- What becomes of the part of `v` that belongs to the old register `c`, whose counterpart is `c'`:
`x` if the value is carried over and then narrowed, and `y` if it is narrowed and then carried
over. -/
structure BothWays (m : Migrator) (c c' : Register) (v x y : PartialValue) : Prop where
  carried_first : ∃ w, m.migrate v = .ok (some w) ∧ m.new.narrow? w c'.id = some x
  narrowed_first : ∃ u, m.old.narrow? v c.id = some u ∧ m.migrate u = .ok (some y)

/-- Either way leads to one answer at most. -/
theorem BothWays.unique {x' y' : PartialValue} (h : BothWays m c c' v x y)
    (h' : BothWays m c c' v x' y') : x = x' ∧ y = y' := by
  obtain ⟨⟨w, hw, hx⟩, ⟨u, hu, hy⟩⟩ := h
  obtain ⟨⟨w', hw', hx'⟩, ⟨u', hu', hy'⟩⟩ := h'
  rw [hw] at hw'
  rcases Option.some.inj (Except.ok.inj hw') with rfl
  rw [hu] at hu'
  rcases Option.some.inj hu' with rfl
  exact ⟨Option.some.inj (hx.symm.trans hx'),
    Option.some.inj (Except.ok.inj (hy.symm.trans hy'))⟩

/-- Both ways lead to an answer.  One has the bits from the new place of the inner register on, and
the other one those from its old place on. -/
theorem exists_bothWays (h : build old new = .ok m) (hn : old.Nested new c p c' p')
    (hv : v.register = p.id) (hwidth : v.width = p.bitSize) :
    ∃ x y, BothWays m c c' v x y ∧
      (∀ i, x.bit i = if i < c'.bitSize.toNat then v.bit (new.lowBit c' p' + i) else none) ∧
      ∀ i, y.bit i = if i < c.bitSize.toNat then v.bit (old.lowBit c p + i) else none := by
  obtain ⟨w, hw, hwregister, _, hwbit⟩ :=
    exists_migrate h (Language.registerById?_of_mem hn.outer_mem hv) hwidth hn.outer_survives
  obtain ⟨x, hx, _, _, hxbit⟩ :=
    Language.exists_narrow? hn.inner_survives.1 hn.mem_lineage_new hwregister
  obtain ⟨u, hu, huregister, huwidth, hubit⟩ :=
    Language.exists_narrow? hn.inner_mem hn.mem_lineage_old hv
  obtain ⟨y, hy, _, _, hybit⟩ := exists_migrate h
    (Language.registerById?_of_mem hn.inner_mem huregister) huwidth hn.inner_survives
  rw [← new_of_build h] at hx
  rw [← old_of_build h] at hu
  refine ⟨x, y, ⟨⟨w, hw, hx⟩, ⟨u, hu, hy⟩⟩, fun i => ?_, fun i => ?_⟩
  · rw [hxbit, hwbit hn.outer_ordinary]
  · rw [hybit hn.inner_ordinary, hubit]

/-! ## Where they agree -/

/-- An inner register at its old place has its bits at their old places. -/
theorem bit_eq_of_lowBit_eq (h : build old new = .ok m) (hn : old.Nested new c p c' p')
    (hplace : old.lowBit c p = new.lowBit c' p') (hv : v.register = p.id)
    (hwidth : v.width = p.bitSize) :
    ∃ x y, BothWays m c c' v x y ∧ (∀ i < c.bitSize.toNat, x.bit i = y.bit i) ∧
      ∀ i b, y.bit i = some b → x.bit i = some b := by
  have hwider : c.bitSize.toNat ≤ c'.bitSize.toNat :=
    ((compatible_of_build h).registers c hn.inner_mem c' hn.inner_survives).2.2 hn.inner_ordinary
  obtain ⟨x, y, hboth, hx, hy⟩ := exists_bothWays h hn hv hwidth
  have hsame : ∀ i < c.bitSize.toNat, x.bit i = y.bit i := by
    intro i hi
    rw [hx, hy, if_pos hi, if_pos (Nat.lt_of_lt_of_le hi hwider), hplace]
  refine ⟨x, y, hboth, hsame, fun i b hb => ?_⟩
  by_cases hi : i < c.bitSize.toNat
  · rw [hsame i hi, hb]
  · rw [hy, if_neg hi] at hb
    cases hb

/-- If the two ways always agree at the lowest bit of the inner register, it is at its old place:
they agree for the value of which only that bit is known. -/
theorem lowBit_eq_of_bit_eq (h : build old new = .ok m) (hn : old.Nested new c p c' p')
    (hall : ∀ v : PartialValue, v.register = p.id → v.width = p.bitSize →
      ∃ x y, BothWays m c c' v x y ∧ x.bit 0 = y.bit 0) :
    old.lowBit c p = new.lowBit c' p' := by
  have hlow := Language.lowBit_lt hn.inner_mem hn.inside_old
  have hpos : 0 < c.bitSize.toNat := Language.bitSize_pos hn.inner_mem
  have hpos' : 0 < c'.bitSize.toNat := Language.bitSize_pos hn.inner_survives.1
  -- The part that is narrowed first knows its lowest bit.  The other one knows that bit only if it
  -- is taken out at the same place, since nothing else is known of the value.
  obtain ⟨x, y, hboth, hsame⟩ := hall (.single p.id p.bitSize (old.lowBit c p)) rfl rfl
  obtain ⟨x', y', hboth', hx, hy⟩ := exists_bothWays h hn
    (v := .single p.id p.bitSize (old.lowBit c p)) rfl rfl
  obtain ⟨rfl, rfl⟩ := hboth.unique hboth'
  rw [hx, hy, if_pos hpos, if_pos hpos', Nat.add_zero, Nat.add_zero] at hsame
  exact (PartialValue.eq_of_bit_single_eq hlow hsame).symm

/-- Both ways always lead to an answer.  The answers agree on the bits of the old inner register
exactly if it keeps its place in the outer one, and then whatever the value that is narrowed first
knows is known the other way, too. -/
theorem narrow_migrate_agree_iff (h : build old new = .ok m) (hn : old.Nested new c p c' p') :
    ((∀ v : PartialValue, v.register = p.id → v.width = p.bitSize →
        ∃ x y, BothWays m c c' v x y ∧ ∀ i < c.bitSize.toNat, x.bit i = y.bit i) ↔
      old.bitShiftWithin? c.id p.id = new.bitShiftWithin? c'.id p'.id) ∧
    ∀ v : PartialValue, v.register = p.id → v.width = p.bitSize →
      ∃ x y, BothWays m c c' v x y ∧
        (old.bitShiftWithin? c.id p.id = new.bitShiftWithin? c'.id p'.id →
          ∀ i b, y.bit i = some b → x.bit i = some b) := by
  rw [hn.bitShiftWithin?_eq_iff]
  refine ⟨⟨fun hall => ?_, fun hplace v hv hwidth => ?_⟩, fun v hv hwidth => ?_⟩
  · refine lowBit_eq_of_bit_eq h hn fun v hv hwidth => ?_
    obtain ⟨x, y, hboth, hsame⟩ := hall v hv hwidth
    exact ⟨x, y, hboth, hsame 0 (Language.bitSize_pos hn.inner_mem)⟩
  · obtain ⟨x, y, hboth, hsame, _⟩ := bit_eq_of_lowBit_eq h hn hplace hv hwidth
    exact ⟨x, y, hboth, hsame⟩
  · by_cases hplace : old.lowBit c p = new.lowBit c' p'
    · obtain ⟨x, y, hboth, _, hknown⟩ := bit_eq_of_lowBit_eq h hn hplace hv hwidth
      exact ⟨x, y, hboth, fun _ => hknown⟩
    · obtain ⟨x, y, hboth, _⟩ := exists_bothWays h hn hv hwidth
      exact ⟨x, y, hboth, fun heq => absurd heq hplace⟩

/-- A register of 20 bits. -/
def outer : Register :=
  { name := "outer", space := "register", offset := 0, bitSize := 20, id := ⟨0⟩, parent := none }

/-- Its upper 12 bits, where the last byte is the lowest one. -/
def inner : Register :=
  { name := "inner", space := "register", offset := 0, bitSize := 12, id := ⟨1⟩,
    parent := some ⟨0⟩ }

/-- The first register in a wider form, at another offset. -/
def wideOuter : Register :=
  { name := "outer", space := "register", offset := 4, bitSize := 40, id := ⟨1⟩, parent := none }

/-- The second register in a wider form, two bytes above the start of the first one. -/
def wideInner : Register :=
  { name := "inner", space := "register", offset := 6, bitSize := 16, id := ⟨0⟩,
    parent := some ⟨1⟩ }

/-- The language of these two registers, the outer one first. -/
def narrowPair : Language :=
  .ofRegisters .big [outer.toRegisterDecl, inner.toRegisterDecl] [] (by decide)

/-- The language of their wider forms, the inner one first. -/
def widePair : Language :=
  .ofRegisters .big [wideInner.toRegisterDecl, wideOuter.toRegisterDecl] [] (by decide)

/-- Both registers have become wider and lie elsewhere, but the inner one is still a byte above the
lowest bit of the outer one. -/
theorem narrow_migrate_agree_iff_widePair :
    ∃ m, build narrowPair widePair = .ok m ∧
      narrowPair.bitShiftWithin? ⟨1⟩ ⟨0⟩ = some 8 ∧ widePair.bitShiftWithin? ⟨0⟩ ⟨1⟩ = some 8 ∧
        ∃ x y, BothWays m inner wideInner (.ofMask ⟨0⟩ 20 0x3ff00 0x25a00) x y ∧
          ∀ i < 12, x.bit i = y.bit i := by
  obtain ⟨m, hm⟩ : ∃ m, build narrowPair widePair = .ok m := ⟨_, rfl⟩
  have hn : narrowPair.Nested widePair inner outer wideInner wideOuter :=
    { inner_mem := Language.mem_of_registerById (show narrowPair.registerById? ⟨1⟩ = _ by decide)
      outer_mem := Language.mem_of_registerById (show narrowPair.registerById? ⟨0⟩ = _ by decide)
      inner_ordinary := rfl
      outer_ordinary := rfl
      inner_survives := Language.counterpart?_eq_some_iff.1 (by decide)
      outer_survives := Language.counterpart?_eq_some_iff.1 (by decide)
      contains_old := Or.inr (by decide)
      contains_new := Or.inr (by decide) }
  have hold : narrowPair.bitShiftWithin? inner.id outer.id = some 8 := by decide +kernel
  have hnew : widePair.bitShiftWithin? wideInner.id wideOuter.id = some 8 := by decide +kernel
  obtain ⟨hagree, _⟩ := narrow_migrate_agree_iff hm hn
  exact ⟨m, hm, hold, hnew, hagree.2 (hold.trans hnew.symm) _ rfl rfl⟩

end Migrator

end RegisterMigration
