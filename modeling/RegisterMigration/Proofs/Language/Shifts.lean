import RegisterMigration.Proofs.Language.Forest
import RegisterMigration.Proofs.PartialValue.Placing

/-!
# Shifts inside the hierarchy

The shift of one register into another is a difference of two 64-bit offsets, multiplied by eight
and reported in 32 bits.  Nothing in the computation guards it.  What makes it exact is where it is
used: only for a register and one that contains it.  There the difference is no smaller than zero,
and it is at most the length of the outer register, which 32 bits of size limit to `2 ^ 29` bytes.

In exact arithmetic a shift is a distance between low ends, or between high ends in a big-endian
language.  Distances add up on the way from a register over a second one to a third one, and what is
below a register and what is above it make up the rest of the register around it.

## Main results

* `bitShiftWithin?_eq_some_iff` — which ids have a shift, and which one.
* `lowBit_add_lowBit` — shifts add up.
* `lowBit_inOrder_add` — the shifts of both byte orders make up the rest.
* `widen_eq_ok`, `narrow_eq_ok` — moving a value along a shift has a position for every bit.
* `shiftLaws` — what holds of the shifts of every language.
-/

namespace RegisterMigration.Language

variable {l : Language} {r p q : Register} {c a : RegisterId} {s : UInt32}

/-! ## Which registers have a shift -/

/-- A register inside another one has a shift, which is the place of its lowest bit. -/
theorem exists_bitShiftWithin? (hr : l.registerById? c = some r) (hp : l.registerById? a = some p)
    (hinside : r.Inside p.toRegisterDecl) :
    ∃ s, l.bitShiftWithin? c a = some s ∧ s.toNat = l.lowBit r p := by
  have hrmem := mem_of_registerById hr
  have hway := (mem_lineage_iff hrmem).2 ⟨mem_of_registerById hp, hinside⟩
  have hshift := bitShiftWithin?_of_mem_lineage hrmem hway
  rw [id_eq_of_registerById hr, id_eq_of_registerById hp] at hshift
  exact hshift

/-- Only ids of the table have a shift, and only into an ancestor. -/
theorem around_of_bitShiftWithin? (h : l.bitShiftWithin? c a = some s) :
    l.isAncestorOrSelf a c ∧ ∃ r p, l.registerById? c = some r ∧ l.registerById? a = some p := by
  rw [bitShiftWithin?] at h
  split at h
  · rename_i haround
    cases hr : l.registerById? c with
    | none => simp [hr] at h
    | some r =>
        cases hp : l.registerById? a with
        | none => simp [hr, hp] at h
        | some p => exact ⟨haround, r, p, rfl, rfl⟩
  · cases h

/-- A shift is found exactly for a register and one around it, and it is the place of the lowest
bit. -/
theorem bitShiftWithin?_eq_some_iff :
    l.bitShiftWithin? c a = some s ↔
      ∃ r p, l.registerById? c = some r ∧ l.registerById? a = some p ∧
        r.Inside p.toRegisterDecl ∧ s.toNat = l.lowBit r p := by
  constructor
  · intro h
    obtain ⟨haround, r, p, hr, hp⟩ := around_of_bitShiftWithin? h
    have hrmem := mem_of_registerById hr
    have hpmem := mem_of_registerById hp
    rw [← id_eq_of_registerById hr, ← id_eq_of_registerById hp, isAncestorOrSelf_iff hpmem hrmem]
      at haround
    have hinside := (inside_iff hrmem hpmem).2 haround
    obtain ⟨t, ht, hplace⟩ := exists_bitShiftWithin? hr hp hinside
    rw [h] at ht
    rcases Option.some.inj ht with rfl
    exact ⟨r, p, hr, hp, hinside, hplace⟩
  · rintro ⟨r, p, hr, hp, hinside, hplace⟩
    obtain ⟨t, ht, htplace⟩ := exists_bitShiftWithin? hr hp hinside
    rw [ht, UInt32.toNat_inj.1 (htplace.trans hplace.symm)]

/-- A shift between two registers of the table is the place of the one in the other. -/
theorem inside_of_bitShiftWithin? (hr : l.registerById? c = some r) (hp : l.registerById? a = some p)
    (h : l.bitShiftWithin? c a = some s) : r.Inside p.toRegisterDecl ∧ s.toNat = l.lowBit r p := by
  obtain ⟨r', p', hr', hp', hinside, hplace⟩ := bitShiftWithin?_eq_some_iff.1 h
  rcases Option.some.inj (hr.symm.trans hr') with rfl
  rcases Option.some.inj (hp.symm.trans hp') with rfl
  exact ⟨hinside, hplace⟩

/-- The bytes below a register, as the difference of two offsets that a shift is computed from. -/
theorem bytesBelow_eq (hr : r ∈ l.registers) (hp : p ∈ l.registers) :
    l.bytesBelow r p =
      match l.definition.endianness with
      | .little => r.offset.toNat - p.offset.toNat
      | .big => p.lastByte - r.lastByte := by
  have hrlast := lastByte_eq hr
  have hplast := lastByte_eq hp
  rw [bytesBelow]
  cases l.definition.endianness with
  | little => rfl
  | big =>
      simp only
      omega

/-! ## Sums of shifts -/

/-- On the way out over a second register the bits below add up. -/
theorem lowBit_add_lowBit (hrq : r.Inside q.toRegisterDecl) (hqp : q.Inside p.toRegisterDecl) :
    l.lowBit r q + l.lowBit q p = l.lowBit r p := by
  obtain ⟨_, hrqlow, hrqhigh⟩ := hrq
  obtain ⟨_, hqplow, hqphigh⟩ := hqp
  rw [lowBit, lowBit, lowBit, bytesBelow, bytesBelow, bytesBelow]
  cases l.definition.endianness with
  | little =>
      simp only
      omega
  | big =>
      simp only
      omega

/-- The language with the same definition in a given byte order. -/
def inOrder (l : Language) (order : Endianness) : Language where
  definition := { l.definition with endianness := order }
  registers := l.registers
  defaultCompilerSpec := l.defaultCompilerSpec
  fingerprint := Definition.fingerprint { l.definition with endianness := order }
  errors_eq_nil := l.errors_eq_nil
  registers_eq := l.registers_eq
  find_default := l.find_default
  fingerprint_eq := rfl

/-- Validation does not look at the byte order. -/
theorem load_inOrder (l : Language) (order : Endianness) :
    load { l.definition with endianness := order } = .ok (l.inOrder order) :=
  load_definition (l.inOrder order)

/-- What is below a register in one byte order is above it in the other one. -/
theorem lowBit_inOrder_add (hinside : r.Inside p.toRegisterDecl) :
    (l.inOrder .little).lowBit r p + (l.inOrder .big).lowBit r p = 8 * (p.byteLen - r.byteLen) := by
  obtain ⟨_, hlow, hhigh⟩ := hinside
  show 8 * (r.offset.toNat - p.offset.toNat) + 8 * (p.stop - r.stop) = 8 * (p.byteLen - r.byteLen)
  unfold RegisterDecl.stop at *
  omega

/-! ## Positions of 32 bits -/

/-- A shift leaves room for all bits of the inner register. -/
theorem add_bitSize_le_of_bitShiftWithin? (hr : l.registerById? c = some r)
    (hs : l.bitShiftWithin? c a = some s) : s.toNat + r.bitSize.toNat ≤ 2 ^ 32 := by
  obtain ⟨r', p, hr', _, hinside, hplace⟩ := bitShiftWithin?_eq_some_iff.1 hs
  rcases Option.some.inj (hr.symm.trans hr') with rfl
  rw [hplace]
  exact lowBit_add_bitSize_le hinside

/-- Widening a value that is as wide as its register has a position for every bit. -/
theorem widen_eq_ok {v : PartialValue} (hr : l.registerById? v.register = some r)
    (hwidth : v.width = r.bitSize) : l.widen v = .ok (l.widenToBase? v) := by
  rw [widen, widenToBase?]
  cases l.baseOf? v.register with
  | none => rfl
  | some base =>
      simp only [Option.bind_eq_bind, Option.bind_some]
      cases hs : l.bitShiftWithin? v.register base.id with
      | none => rfl
      | some s =>
          have hfits := add_bitSize_le_of_bitShiftWithin? hr hs
          rw [← hwidth] at hfits
          simp only [PartialValue.placed_of_le hfits]
          rfl

/-- Narrowing any value has a position for every bit. -/
theorem narrow_eq_ok (l : Language) (v : PartialValue) (id : RegisterId) :
    l.narrow v id = .ok (l.narrow? v id) := by
  rw [narrow, narrow?]
  cases hr : l.registerById? id with
  | none => rfl
  | some r =>
      simp only [Option.bind_eq_bind, Option.bind_some]
      cases hs : l.bitShiftWithin? id v.register with
      | none => rfl
      | some s =>
          simp only [PartialValue.extracted_of_le (add_bitSize_le_of_bitShiftWithin? hr hs)]
          rfl

/-! ## All together -/

/-- What holds of the shifts in a language. -/
structure ShiftLaws (l : Language) : Prop where
  /-- There is a shift exactly from a register of the table into itself and into those around it. -/
  isSome_iff : ∀ c a, (l.bitShiftWithin? c a).isSome ↔
    ∃ r p, l.registerById? c = some r ∧ l.registerById? a = some p ∧
      (p = r ∨ p.strictlyContains r.toRegisterDecl)
  /-- The subtraction does not wrap around, the product fits 32 bits, and the bytes of the inner
  register end inside the outer one. -/
  no_wrap : ∀ c a r p s, l.registerById? c = some r → l.registerById? a = some p →
    l.bitShiftWithin? c a = some s →
      p.offset ≤ r.offset ∧ r.lastByte ≤ p.lastByte ∧
      (l.byteShift r p).toNat =
        (match l.definition.endianness with
        | .little => r.offset.toNat - p.offset.toNat
        | .big => p.lastByte - r.lastByte) ∧
      s.toNat = 8 * (l.byteShift r p).toNat ∧ s.toNat + 8 * r.byteLen ≤ 8 * p.byteLen
  /-- Shifts add up along the hierarchy. -/
  sum : ∀ c b a s t, l.bitShiftWithin? c b = some s → l.bitShiftWithin? b a = some t →
    ∃ u, l.bitShiftWithin? c a = some u ∧ u.toNat = s.toNat + t.toNat
  /-- The same definition can be loaded in both byte orders, with the same registers, and the two
  shifts of a register make up the rest of the register around it. -/
  mirrored : ∃ low high,
    load { l.definition with endianness := .little } = .ok low ∧
    load { l.definition with endianness := .big } = .ok high ∧
    ∀ c a, low.registerById? c = l.registerById? c ∧ high.registerById? c = l.registerById? c ∧
      ∀ r p, l.registerById? c = some r → l.registerById? a = some p →
        (p = r ∨ p.strictlyContains r.toRegisterDecl) →
          ∃ s t, low.bitShiftWithin? c a = some s ∧ high.bitShiftWithin? c a = some t ∧
            s.toNat + t.toNat = 8 * (p.byteLen - r.byteLen)

/-- The shifts of every language, with registers as long as they can be and offsets up to the top
of 64 bits. -/
theorem shiftLaws (l : Language) : l.ShiftLaws where
  isSome_iff c a := by
    rw [Option.isSome_iff_exists]
    constructor
    · rintro ⟨s, hs⟩
      obtain ⟨r, p, hr, hp, hinside, _⟩ := bitShiftWithin?_eq_some_iff.1 hs
      exact ⟨r, p, hr, hp, (inside_iff (mem_of_registerById hr) (mem_of_registerById hp)).1 hinside⟩
    · rintro ⟨r, p, hr, hp, haround⟩
      have hinside := (inside_iff (mem_of_registerById hr) (mem_of_registerById hp)).2 haround
      obtain ⟨s, hs, _⟩ := exists_bitShiftWithin? hr hp hinside
      exact ⟨s, hs⟩
  no_wrap c a r p s hr hp hs := by
    have hrmem := mem_of_registerById hr
    have hpmem := mem_of_registerById hp
    obtain ⟨hinside, hplace⟩ := inside_of_bitShiftWithin? hr hp hs
    have hrlast := lastByte_eq hrmem
    have hplast := lastByte_eq hpmem
    have hhigh := hinside.2.2
    have hbytes := bytesBelow_add_byteLen_le (l := l) hinside
    have hshift := toNat_byteShift hrmem hpmem hinside
    rw [lowBit] at hplace
    refine ⟨UInt64.le_iff_toNat_le.2 hinside.2.1, by omega, ?_, ?_, by omega⟩
    · rw [hshift, bytesBelow_eq hrmem hpmem]
    · rw [hshift, hplace]
  sum c b a s t hs ht := by
    obtain ⟨r, q, hr, hq, hrq, hsplace⟩ := bitShiftWithin?_eq_some_iff.1 hs
    obtain ⟨q', p, hq', hp, hqp, htplace⟩ := bitShiftWithin?_eq_some_iff.1 ht
    rcases Option.some.inj (hq.symm.trans hq') with rfl
    obtain ⟨u, hu, huplace⟩ := exists_bitShiftWithin? hr hp (hrq.trans hqp)
    refine ⟨u, hu, ?_⟩
    rw [huplace, hsplace, htplace, lowBit_add_lowBit hrq hqp]
  mirrored := by
    refine ⟨l.inOrder .little, l.inOrder .big, load_inOrder l .little, load_inOrder l .big,
      fun c a => ⟨rfl, rfl, fun r p hr hp haround => ?_⟩⟩
    have hinside := (inside_iff (mem_of_registerById hr) (mem_of_registerById hp)).2 haround
    obtain ⟨s, hs, hsplace⟩ := exists_bitShiftWithin? (l := l.inOrder .little) hr hp hinside
    obtain ⟨t, ht, htplace⟩ := exists_bitShiftWithin? (l := l.inOrder .big) hr hp hinside
    refine ⟨s, t, hs, ht, ?_⟩
    rw [hsplace, htplace, lowBit_inOrder_add hinside]

/-- A language with a register as long as one can be, and one that is its last byte. -/
def longestAndLast : Language :=
  .ofRegisters .little
    [{ name := "longest", space := "register", offset := 0, bitSize := 4294967295 },
      { name := "last", space := "register", offset := 536870911, bitSize := 8 }] []
    (by decide)

example : longestAndLast.bitShiftWithin? ⟨1⟩ ⟨0⟩ = some 4294967288 := by
  decide +kernel

end RegisterMigration.Language
