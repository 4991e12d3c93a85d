import RegisterMigration.Proofs.Language.Forest
import RegisterMigration.Proofs.Language.Widening
import RegisterMigration.Proofs.PartialValue.Bytes

/-!
# Values as bytes in memory

A register occupies the addresses from its offset to its last byte.  In a little-endian language
its lowest byte is at the offset, in a big-endian one at the last byte.  That is the whole meaning
of the byte order, and it says, with no shift in it, which byte of a value is at which address.

Widening and narrowing move a value by one computed number of bits.  Seen from the addresses they
move nothing: each address that belongs to both registers has the same byte in both values.  What
is not the same is at the ends.  Addresses of the base outside the register have unknown bytes, and
a register whose size is no multiple of eight has a short top byte, in which the bits beyond the
size are cleared.

## Main results

* `byteNumber_eq_add` — the bytes of a register are consecutive ones of a register around it.
* `getElem?_byteNumber` — every address of a register has a byte of the register's value.
* `byteAt_widenToBase?`, `byteAt_narrow?` — each address keeps its byte.
* `widenToBase?_narrow?_memoryImage` — both ways, for every register of a language.
-/

namespace RegisterMigration

/-- The register has a byte at an address of its space. -/
def RegisterDecl.Holds (r : RegisterDecl) (address : Nat) : Prop :=
  r.offset.toNat ≤ address ∧ address ≤ r.lastByte

instance (r : RegisterDecl) (address : Nat) : Decidable (r.Holds address) :=
  inferInstanceAs (Decidable (_ ∧ _))

namespace Language

variable {l : Language} {r a : Register} {v w : PartialValue} {address : Nat}

/-- Which byte of a register is at an address, counted from the least significant one. -/
def byteNumber (l : Language) (r : Register) (address : Nat) : Nat :=
  match l.definition.endianness with
  | .little => address - r.offset.toNat
  | .big => r.lastByte - address

/-- The byte of a register's value at an address. -/
def byteAt (l : Language) (r : Register) (v : PartialValue) (address : Nat) : PartialByte :=
  v.byte (l.byteNumber r address)

/-- How many bits of the byte at an address, and of the bytes above it, are bits of the register;
eight or more where the byte is not cut. -/
def roomAt (l : Language) (r : Register) (address : Nat) : Nat :=
  r.bitSize.toNat - 8 * l.byteNumber r address

/-! ## Addresses and bytes -/

theorem holds_iff (hr : r ∈ l.registers) :
    r.Holds address ↔ r.offset.toNat ≤ address ∧ address < r.stop := by
  have hlast := lastByte_eq hr
  rw [RegisterDecl.Holds]
  omega

/-- A register has as many bytes as it has addresses. -/
theorem byteNumber_lt (hr : r ∈ l.registers) (hin : r.Holds address) :
    l.byteNumber r address < r.byteLen := by
  obtain ⟨hlow, hhigh⟩ := (holds_iff hr).1 hin
  have hlast := lastByte_eq hr
  have hstop : r.stop = r.offset.toNat + r.byteLen := rfl
  rw [byteNumber]
  cases l.definition.endianness with
  | little =>
      simp only
      omega
  | big =>
      simp only
      omega

/-- An address of a register inside another one: the bytes of the outer register below the inner
one come first. -/
theorem byteNumber_eq_add (hr : r ∈ l.registers) (ha : a ∈ l.registers)
    (hinside : r.Inside a.toRegisterDecl) (hin : r.Holds address) :
    l.byteNumber a address = l.bytesBelow r a + l.byteNumber r address := by
  obtain ⟨_, hoffset, hstop⟩ := hinside
  obtain ⟨hlow, hhigh⟩ := (holds_iff hr).1 hin
  have hrlast := lastByte_eq hr
  have halast := lastByte_eq ha
  rw [byteNumber, byteNumber, bytesBelow]
  cases l.definition.endianness with
  | little =>
      simp only
      omega
  | big =>
      simp only
      omega

/-- So the bits of the byte at such an address come after the bits of those bytes. -/
theorem bitNumber_eq_add (hr : r ∈ l.registers) (ha : a ∈ l.registers)
    (hinside : r.Inside a.toRegisterDecl) (hin : r.Holds address) (j : Nat) :
    8 * l.byteNumber a address + j = l.lowBit r a + (8 * l.byteNumber r address + j) := by
  rw [byteNumber_eq_add hr ha hinside hin, lowBit]
  omega

/-- An address of the outer register alone: its byte is below the inner register or above it. -/
theorem byteNumber_lt_or_le (hr : r ∈ l.registers) (ha : a ∈ l.registers)
    (hinside : r.Inside a.toRegisterDecl) (hin : a.Holds address) (hout : ¬ r.Holds address) :
    l.byteNumber a address < l.bytesBelow r a ∨
      l.bytesBelow r a + r.byteLen ≤ l.byteNumber a address := by
  obtain ⟨_, hoffset, hstop⟩ := hinside
  obtain ⟨hlow, hhigh⟩ := (holds_iff ha).1 hin
  rw [holds_iff hr] at hout
  have halast := lastByte_eq ha
  have hrstop : r.stop = r.offset.toNat + r.byteLen := rfl
  rw [byteNumber, bytesBelow]
  cases l.definition.endianness with
  | little =>
      simp only
      omega
  | big =>
      simp only
      omega

/-- The byte at an address of a register is one of those that spell the register's value. -/
theorem getElem?_byteNumber (hr : r ∈ l.registers) (hwidth : v.width = r.bitSize)
    (hin : r.Holds address) :
    v.maskBytes.reverse[l.byteNumber r address]? = some (l.byteAt r v address).mask ∧
      v.valueBytes.reverse[l.byteNumber r address]? = some (l.byteAt r v address).value := by
  have hlt : l.byteNumber r address < byteLength v.width := by
    rw [hwidth]
    exact byteNumber_lt hr hin
  simp only [byteAt, PartialValue.byte, PartialValue.maskBytes, PartialValue.valueBytes,
    List.getD_eq_getElem?_getD, Binary.getElem?_reverse_toBigEndian, if_pos hlt,
    Option.getD_some, and_self]

/-! ## Widening -/

/-- The bits of a widened value. -/
theorem exists_bit_widenToBase? (hr : r ∈ l.registers) :
    ∃ a, l.baseOf? r.id = some a ∧ a ∈ l.registers ∧ r.Inside a.toRegisterDecl ∧
      ∀ v : PartialValue, v.register = r.id → v.width = r.bitSize →
        ∃ b, l.widenToBase? v = some b ∧ b.register = a.id ∧ b.width = a.bitSize ∧
          ∀ i, b.bit i =
            if l.lowBit r a ≤ i ∧ i < a.bitSize.toNat then v.bit (i - l.lowBit r a) else none := by
  obtain ⟨a, s, hbase, hmem, hinside, _, hs, hwiden⟩ := widenToBase?_eq hr
  refine ⟨a, hbase, hmem, hinside, fun v hregister _ => ?_⟩
  refine ⟨_, hwiden v hregister, rfl, rfl, fun i => ?_⟩
  rw [PartialValue.bit_raised, hs]

/-- A value with the bits of `v` from the place of `r` on has the bytes of `v` at the addresses
of `r`, cut off at its own size, and unknown bytes at all other addresses. -/
theorem byteAt_of_bit_eq_raised (hr : r ∈ l.registers) (ha : a ∈ l.registers)
    (hinside : r.Inside a.toRegisterDecl) (hwidth : v.width = r.bitSize)
    (hbit : ∀ i, w.bit i =
      if l.lowBit r a ≤ i ∧ i < a.bitSize.toNat then v.bit (i - l.lowBit r a) else none)
    (hin : a.Holds address) :
    l.byteAt a w address =
      if r.Holds address then (l.byteAt r v address).low (l.roomAt a address) else .unknown := by
  by_cases hheld : r.Holds address
  · rw [if_pos hheld, byteAt, byteAt, roomAt]
    refine PartialValue.byte_eq_low fun j => ?_
    rw [hbit, bitNumber_eq_add hr ha hinside hheld, Nat.add_sub_cancel_left]
    simp only [Nat.le_add_right, true_and]
  · rw [if_neg hheld, byteAt, PartialValue.byte_eq_ofBits]
    refine PartialByte.ofBits_eq_unknown fun j hj => ?_
    rw [hbit, lowBit]
    split
    · -- Not below the register, so the byte is above all bits of the value.
      refine PartialValue.bit_eq_none_of_le ?_
      have houtside := byteNumber_lt_or_le hr ha hinside hin hheld
      have hbits := bitSize_le r
      rw [hwidth]
      omega
    · rfl

/-- Widening keeps the byte at every address of the register; the other addresses of the base have
unknown bytes. -/
theorem byteAt_widenToBase? (hr : r ∈ l.registers) :
    ∃ a, l.baseOf? r.id = some a ∧ a.space = r.space ∧
      ∀ v : PartialValue, v.register = r.id → v.width = r.bitSize →
        ∃ b, l.widenToBase? v = some b ∧ b.register = a.id ∧ b.width = a.bitSize ∧
          ∀ address, a.Holds address → l.byteAt a b address =
            if r.Holds address then (l.byteAt r v address).low (l.roomAt a address)
            else .unknown := by
  obtain ⟨a, hbase, ha, hinside, hwiden⟩ := exists_bit_widenToBase? hr
  refine ⟨a, hbase, hinside.1.symm, fun v hregister hwidth => ?_⟩
  obtain ⟨b, hb, hbregister, hbwidth, hbit⟩ := hwiden v hregister hwidth
  exact ⟨b, hb, hbregister, hbwidth,
    fun _ hin => byteAt_of_bit_eq_raised hr ha hinside hwidth hbit hin⟩

/-! ## Narrowing -/

/-- Narrowing keeps the byte at every address of the register. -/
theorem byteAt_narrow? (hr : r ∈ l.registers) (ha : a ∈ l.registers)
    (haround : l.isAncestorOrSelf a.id r.id) (hv : v.register = a.id) :
    ∃ w, l.narrow? v r.id = some w ∧ w.register = r.id ∧ w.width = r.bitSize ∧
      ∀ address, r.Holds address →
        l.byteAt r w address = (l.byteAt a v address).low (l.roomAt r address) := by
  have hinside := (inside_iff hr ha).2 ((isAncestorOrSelf_iff ha hr).1 haround)
  obtain ⟨w, hw, hregister, hwidth, hbit⟩ :=
    exists_narrow? hr ((mem_lineage_iff hr).2 ⟨ha, hinside⟩) hv
  refine ⟨w, hw, hregister, hwidth, fun address hin => ?_⟩
  rw [byteAt, byteAt, roomAt]
  refine PartialValue.byte_eq_low fun j => ?_
  rw [hbit, bitNumber_eq_add hr ha hinside hin]

/-- The memory image of a register.  A widened value has the bytes of the value at the addresses of
the register and unknown ones at all other addresses of the base.  A value that is narrowed from
any register around has the bytes of that register's value.  In both, the bits beyond the size of
the register that is written are cleared. -/
theorem widenToBase?_narrow?_memoryImage (hr : r ∈ l.registers) :
    (∃ a, l.baseOf? r.id = some a ∧ a.space = r.space ∧
      ∀ v : PartialValue, v.register = r.id → v.width = r.bitSize →
        ∃ b, l.widenToBase? v = some b ∧ b.register = a.id ∧ b.width = a.bitSize ∧
          ∀ address, a.Holds address → l.byteAt a b address =
            if r.Holds address then (l.byteAt r v address).low (l.roomAt a address)
            else .unknown) ∧
    ∀ a ∈ l.registers, l.isAncestorOrSelf a.id r.id →
      ∀ v : PartialValue, v.register = a.id → v.width = a.bitSize →
        ∃ w, l.narrow? v r.id = some w ∧ w.register = r.id ∧ w.width = r.bitSize ∧
          ∀ address, r.Holds address →
            l.byteAt r w address = (l.byteAt a v address).low (l.roomAt r address) :=
  ⟨byteAt_widenToBase? hr, fun _ ha haround _ hv _ => byteAt_narrow? hr ha haround hv⟩

/-- A register of thirty-six bits, which occupies five bytes. -/
def long : Register :=
  { name := "long", space := "register", offset := 0, bitSize := 36, id := ⟨0⟩, parent := none }

/-- A register of sixteen bits in the first two of these bytes. -/
def head : Register :=
  { name := "head", space := "register", offset := 0, bitSize := 16, id := ⟨1⟩, parent := some ⟨0⟩ }

/-- A big-endian language in which the first register contains the second one. -/
def longAndHead : Language :=
  .ofRegisters .big [long.toRegisterDecl, head.toRegisterDecl] [] (by decide)

/-- In a big-endian language the first address has the highest byte.  Of the two bytes of the inner
register, the one at address 0 is cut in half, and the one at address 1 is kept; both are the same
when the value comes back. -/
theorem memoryImage_longAndHead :
    ∃ b w, longAndHead.widenToBase? (.known ⟨1⟩ 16 0xabcd) = some b ∧
      longAndHead.byteAt long b 0 = ⟨0x0f, 0x0b⟩ ∧ longAndHead.byteAt long b 1 = ⟨0xff, 0xcd⟩ ∧
        longAndHead.byteAt long b 2 = .unknown ∧
      longAndHead.narrow? b ⟨1⟩ = some w ∧
        longAndHead.byteAt head w 0 = ⟨0x0f, 0x0b⟩ ∧
          longAndHead.byteAt head w 1 = ⟨0xff, 0xcd⟩ := by
  have hlong : longAndHead.registerById? ⟨0⟩ = some long := by decide
  have hhead : longAndHead.registerById? ⟨1⟩ = some head := by decide
  have hlongBase : longAndHead.baseOf? head.id = some long := by decide +kernel
  have haround : longAndHead.isAncestorOrSelf long.id head.id := by decide +kernel
  obtain ⟨⟨a, hbase, _, hwiden⟩, hnarrow⟩ :=
    widenToBase?_narrow?_memoryImage (mem_of_registerById hhead)
  rw [hlongBase] at hbase
  rcases Option.some.inj hbase with rfl
  obtain ⟨b, hb, hregister, hwidth, hup⟩ := hwiden (.known ⟨1⟩ 16 0xabcd) rfl rfl
  obtain ⟨w, hw, _, _, hdown⟩ :=
    hnarrow long (mem_of_registerById hlong) haround b hregister hwidth
  have hfirst : longAndHead.byteAt long b 0 = ⟨0x0f, 0x0b⟩ := by
    rw [hup 0 (by decide)]
    decide +kernel
  have hsecond : longAndHead.byteAt long b 1 = ⟨0xff, 0xcd⟩ := by
    rw [hup 1 (by decide)]
    decide +kernel
  refine ⟨b, w, hb, hfirst, hsecond, ?_, hw, ?_, ?_⟩
  · rw [hup 2 (by decide)]
    decide +kernel
  · rw [hdown 0 (by decide), hfirst]
    decide +kernel
  · rw [hdown 1 (by decide), hsecond]
    decide +kernel

end Language

end RegisterMigration
