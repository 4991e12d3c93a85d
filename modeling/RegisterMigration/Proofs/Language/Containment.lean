import RegisterMigration.Proofs.Language.Table

/-!
# Registers inside registers

The way from a register up to its base only passes registers that contain it.  Where a register
lies in one of them is a difference of two offsets, taken at the low end in a little-endian
language and at the high end in a big-endian one.  The code takes it in 64 bits and reports it in
32; as the outer register contains the inner one and has at most `2 ^ 29` bytes, nothing wraps on
the way.

Containment is a matter of whole bytes.  It does not say that the bits of the inner register are
bits of the outer one: where the outer size is no multiple of eight, the top byte of the outer
register has fewer than eight bits.

## Main results

* `inside_of_mem_lineage` — the ancestors of a register contain it.
* `exists_baseOf` — every register of the table has a base, the outermost of its ancestors.
* `bitShiftWithin?_of_mem_lineage` — the shift into an ancestor, in exact arithmetic.
* `lowBit_add_bitSize_le_of_dvd` — the bits are inside where the outer size is in whole bytes.
-/

namespace RegisterMigration

/-- The bytes of `r` are bytes of `s`. -/
def RegisterDecl.Inside (r s : RegisterDecl) : Prop :=
  r.space = s.space ∧ s.offset.toNat ≤ r.offset.toNat ∧ r.stop ≤ s.stop

theorem RegisterDecl.Inside.refl (r : RegisterDecl) : r.Inside r :=
  ⟨rfl, Nat.le_refl _, Nat.le_refl _⟩

theorem RegisterDecl.Inside.trans {r s t : RegisterDecl} (h : r.Inside s) (h' : s.Inside t) :
    r.Inside t :=
  ⟨h.1.trans h'.1, Nat.le_trans h'.2.1 h.2.1, Nat.le_trans h.2.2 h'.2.2⟩

namespace Language

variable {l : Language}

/-- In a loaded language, strict containment is containment of a shorter register. -/
theorem strictlyContains_iff {r s : Register} (hr : r ∈ l.registers) (hs : s ∈ l.registers) :
    s.strictlyContains r.toRegisterDecl ↔
      r.Inside s.toRegisterDecl ∧ r.byteLen < s.byteLen := by
  have hrlast := lastByte_eq hr
  have hslast := lastByte_eq hs
  simp only [RegisterDecl.strictlyContains, RegisterDecl.Inside, Bool.and_eq_true,
    decide_eq_true_eq, beq_iff_eq, UInt64.le_iff_toNat_le]
  constructor
  · intro h
    rcases h with ⟨⟨⟨hspace, hoffset⟩, hlast⟩, hlen⟩
    exact ⟨⟨hspace.symm, hoffset, by omega⟩, hlen⟩
  · intro h
    rcases h with ⟨⟨hspace, hoffset, hstop⟩, hlen⟩
    exact ⟨⟨⟨hspace.symm, hoffset⟩, by omega⟩, hlen⟩

/-! ## The way up -/

theorem inside_of_parentOf {id : RegisterId} {r p : Register} (hr : l.registerById? id = some r)
    (hp : l.parentOf? id = some p) : r.Inside p.toRegisterDecl :=
  ((strictlyContains_iff (mem_of_registerById hr)
    (mem_of_registerById (registerById_of_parentOf hp))).1
      (strictlyContains_of_parentOf hr hp)).1

/-- The way up starts at the register itself. -/
theorem mem_lineage_self {id : RegisterId} {r : Register} (hr : l.registerById? id = some r) :
    r ∈ l.lineage id := by
  fun_cases lineage l id with
  | case1 hnone =>
      rw [hr] at hnone
      cases hnone
  | case2 s hs _ =>
      rw [hr] at hs
      rcases Option.some.inj hs with rfl
      exact List.mem_cons_self
  | case3 s hs p _ =>
      rw [hr] at hs
      rcases Option.some.inj hs with rfl
      exact List.mem_cons_self

/-- Every register on the way up contains the one at which the way starts. -/
theorem inside_of_mem_lineage {id : RegisterId} {r a : Register}
    (hr : l.registerById? id = some r) (ha : a ∈ l.lineage id) :
    a ∈ l.registers ∧ r.Inside a.toRegisterDecl := by
  fun_induction lineage l id generalizing r with
  | case1 => cases ha
  | case2 id s hs hnone =>
      rw [hr] at hs
      rcases Option.some.inj hs with rfl
      rw [List.mem_singleton] at ha
      rw [ha]
      exact ⟨mem_of_registerById hr, .refl _⟩
  | case3 id s hs p hp ih =>
      rw [hr] at hs
      rcases Option.some.inj hs with rfl
      rcases List.mem_cons.1 ha with rfl | ha
      · exact ⟨mem_of_registerById hr, .refl _⟩
      · obtain ⟨hmem, hinside⟩ := ih (registerById_of_parentOf hp) ha
        exact ⟨hmem, (inside_of_parentOf hr hp).trans hinside⟩

/-- Every register of the table has a base, which ends the way up. -/
theorem exists_baseOf {id : RegisterId} {r : Register} (hr : l.registerById? id = some r) :
    ∃ a ∈ l.lineage id, l.baseOf? id = some a := by
  have hne : l.lineage id ≠ [] := List.ne_nil_of_mem (mem_lineage_self hr)
  exact ⟨_, List.getLast_mem hne, List.getLast?_eq_some_getLast hne⟩

/-- The registers on the way up are the ancestors, the register itself included. -/
theorem isAncestorOrSelf_of_mem_lineage {id : RegisterId} {a : Register}
    (ha : a ∈ l.lineage id) : l.isAncestorOrSelf a.id id := by
  rw [isAncestorOrSelf, Bool.or_eq_true, List.any_eq_true]
  exact Or.inr ⟨a, ha, beq_self_eq_true _⟩

/-! ## The place of a register -/

/-- The number of bytes of `a` below the register `r` inside it. -/
def bytesBelow (l : Language) (r a : Register) : Nat :=
  match l.definition.endianness with
  | .little => r.offset.toNat - a.offset.toNat
  | .big => a.stop - r.stop

/-- The place of the lowest bit of `r` among the bits of the register `a` around it. -/
def lowBit (l : Language) (r a : Register) : Nat :=
  8 * l.bytesBelow r a

/-- The bytes below a register and its own bytes are inside. -/
theorem bytesBelow_add_byteLen_le {r a : Register} (h : r.Inside a.toRegisterDecl) :
    l.bytesBelow r a + r.byteLen ≤ a.byteLen := by
  obtain ⟨_, hoffset, hstop⟩ := h
  rw [bytesBelow]
  simp only [RegisterDecl.stop] at *
  cases l.definition.endianness with
  | little =>
      simp only
      omega
  | big =>
      simp only
      omega

theorem byteLen_le (r : Register) : r.byteLen ≤ 2 ^ 29 :=
  byteLength_le r.bitSize

theorem bitSize_le (r : Register) : r.bitSize.toNat ≤ 8 * r.byteLen := by
  simp only [RegisterDecl.byteLen, byteLength]
  omega

/-- The bits below a register and its own bits fit 32 bits. -/
theorem lowBit_add_bitSize_le {r a : Register} (h : r.Inside a.toRegisterDecl) :
    l.lowBit r a + r.bitSize.toNat ≤ 2 ^ 32 := by
  have hbytes := bytesBelow_add_byteLen_le (l := l) h
  have hbits := bitSize_le r
  have hlen := byteLen_le a
  rw [lowBit]
  omega

/-- The lowest bit of a register is a bit of the register around it: at most the top byte of the
latter is a short one, and even that has a bit. -/
theorem lowBit_lt {r a : Register} (hr : r ∈ l.registers) (h : r.Inside a.toRegisterDecl) :
    l.lowBit r a < a.bitSize.toNat := by
  have hbytes := bytesBelow_add_byteLen_le (l := l) h
  have hpos := byteLen_pos hr
  rw [lowBit]
  simp only [RegisterDecl.byteLen, byteLength] at hbytes hpos
  omega

/-- The bits of a register are bits of the register around it if the latter has whole bytes. -/
theorem lowBit_add_bitSize_le_of_dvd {r a : Register} (h : r.Inside a.toRegisterDecl)
    (hwhole : 8 ∣ a.bitSize.toNat) : l.lowBit r a + r.bitSize.toNat ≤ a.bitSize.toNat := by
  have hbytes := bytesBelow_add_byteLen_le (l := l) h
  have hbits := bitSize_le r
  have hexact : 8 * a.byteLen = a.bitSize.toNat := by
    simp only [RegisterDecl.byteLen, byteLength]
    omega
  rw [lowBit]
  omega

/-- The shift in bytes is exact: neither difference wraps around in 64 bits. -/
theorem toNat_byteShift {r a : Register} (hr : r ∈ l.registers) (ha : a ∈ l.registers)
    (h : r.Inside a.toRegisterDecl) :
    (l.byteShift r a).toNat = l.bytesBelow r a := by
  obtain ⟨_, hoffset, hstop⟩ := h
  rw [byteShift, bytesBelow]
  cases l.definition.endianness with
  | little => exact UInt64.toNat_sub_of_le _ _ (UInt64.le_iff_toNat_le.2 hoffset)
  | big =>
      have hrlast := lastByte_eq hr
      have halast := lastByte_eq ha
      have hatop := stop_le ha
      have hrtop := stop_le hr
      have hra : (UInt64.ofNat r.lastByte).toNat = r.lastByte := by
        rw [UInt64.toNat_ofNat']
        omega
      have haa : (UInt64.ofNat a.lastByte).toNat = a.lastByte := by
        rw [UInt64.toNat_ofNat']
        omega
      have hle : UInt64.ofNat r.lastByte ≤ UInt64.ofNat a.lastByte := by
        rw [UInt64.le_iff_toNat_le, hra, haa]
        omega
      simp only
      rw [UInt64.toNat_sub_of_le _ _ hle, hra, haa]
      omega

/-- The shift of a register into one of its ancestors, in exact arithmetic. -/
theorem bitShiftWithin?_of_mem_lineage {r a : Register} (hr : r ∈ l.registers)
    (ha : a ∈ l.lineage r.id) :
    ∃ s, l.bitShiftWithin? r.id a.id = some s ∧
      s.toNat = l.lowBit r a := by
  have hat := mem_registers_iff.1 hr
  obtain ⟨hmem, hinside⟩ := inside_of_mem_lineage hat ha
  have hbits := lowBit_add_bitSize_le (l := l) hinside
  have hpos := bitSize_pos hr
  have hshift : (8 * l.byteShift r a).toNat = l.lowBit r a := by
    rw [UInt64.toNat_mul, toNat_byteShift hr hmem hinside, lowBit]
    rw [lowBit] at hbits
    simp only [UInt64.reduceToNat]
    omega
  refine ⟨UInt32.ofNat (8 * l.byteShift r a).toNat, ?_, ?_⟩
  · rw [bitShiftWithin?, if_pos (isAncestorOrSelf_of_mem_lineage ha), hat,
      mem_registers_iff.1 hmem]
    simp only
    rw [if_pos]
    rw [hshift, UInt32.size]
    omega
  · rw [UInt32.toNat_ofNat', hshift]
    omega

end Language

end RegisterMigration
