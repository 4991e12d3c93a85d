import RegisterMigration.Proofs.PackedValue.Operations

/-!
# Values that operations make

Values are made by operations from values that were made before, so how a value came about is a tree
of operations.  It can be carried out on values and on packed values, and each step is the same on both
sides.  So both sides are refused together and stop together, and otherwise the packed value is the packed
form of the value.  With it goes everything that a packed value is relied on for: its bytes are canonical, and
comparing, counting and asking whether all or nothing is known can go by the bytes.

## Main results

* `Construction.packed_eq` — both sides of a construction agree.
* `Construction.packed_canonical` — what holds of every packed value that operations make.
-/

namespace RegisterMigration

namespace PackedValue

/-! ## What packed values answer -/

variable {p : PartialValue}

/-- Whether a packed value answers like a value whatever is asked. -/
structure AnswersAs (v : PackedValue) (p : PartialValue) : Prop where
  register : v.register = p.register
  width : v.width = p.width
  bit : ∀ i, v.bit i = p.bit i.toNat
  knownCount : v.knownCount.toNat = p.knownCount
  isUnknown : v.isUnknown = p.isUnknown
  isFullyKnown : v.isFullyKnown = p.isFullyKnown
  serialize : v.serialize = p.serialize

theorem answersAs_pack (p : PartialValue) : p.pack.AnswersAs p where
  register := rfl
  width := rfl
  bit := bit_pack p
  knownCount := toNat_knownCount_pack p
  isUnknown := isUnknown_pack p
  isFullyKnown := isFullyKnown_pack p
  serialize := serialize_pack p

/-- The bits of a register are numbered alike on both sides. -/
theorem forall_bit_pack_iff {motive : Option Bool → Prop} :
    (∀ i < p.width, motive (p.pack.bit i)) ↔ ∀ i < p.width.toNat, motive (p.bit i) := by
  constructor
  · intro hall i hi
    have hbit := hall (.ofNat i) (ofNat_lt hi)
    rwa [bit_pack, toNat_ofNat_of_lt hi] at hbit
  · intro hall i hi
    rw [bit_pack]
    exact hall i.toNat (UInt32.lt_iff_toNat_lt.1 hi)

theorem knownCount_pack_eq_card (p : PartialValue) :
    p.pack.knownCount.toNat =
      ((Finset.range p.width.toNat).filter fun i => (p.pack.bit (.ofNat i)).isSome).card := by
  rw [toNat_knownCount_pack, PartialValue.knownCount_eq_card, PartialValue.knownPositions]
  refine congrArg Finset.card (Finset.filter_congr fun i hi => ?_)
  rw [bit_pack, toNat_ofNat_of_lt (Finset.mem_range.1 hi)]

theorem knownCount_pack_le (p : PartialValue) : p.pack.knownCount ≤ p.width := by
  rw [UInt32.le_iff_toNat_le, toNat_knownCount_pack]
  exact p.knownCount_le_width

theorem isUnknown_pack_iff : p.pack.isUnknown ↔ ∀ i, p.pack.bit i = none := by
  rw [isUnknown_pack, PartialValue.isUnknown_iff]
  constructor
  · intro hnone i
    rw [bit_pack, hnone]
  · intro hnone i
    by_cases hi : i < p.width.toNat
    · exact (forall_bit_pack_iff (motive := (· = none))).1 (fun j _ => hnone j) i hi
    · exact PartialValue.bit_eq_none_of_le (Nat.le_of_not_lt hi)

theorem isFullyKnown_pack_iff : p.pack.isFullyKnown ↔ ∀ i < p.width, (p.pack.bit i).isSome := by
  rw [isFullyKnown_pack, PartialValue.isFullyKnown_iff]
  exact (forall_bit_pack_iff (motive := (·.isSome = true))).symm

end PackedValue

/-! ## Constructions -/

/-- How a value is made: an operation, and how the values are made that it is applied to. -/
inductive Construction where
  | unknown (register : RegisterId) (width : UInt32)
  | known (register : RegisterId) (width : UInt32) (n : BitVec 128)
  | ofBytes (register : RegisterId) (width : UInt32) (mask value : List UInt8)
  | deserialize (register : RegisterId) (width : UInt32) (bytes : List UInt8)
  | withBit (made : Construction) (i : UInt32) (b : Option Bool)
  | withBits (made : Construction) (range : BitRange) (x : UInt64)
  | combine (first second : Construction)
  | reanchor (made : Construction) (register : RegisterId)
  | resized (made : Construction) (register : RegisterId) (width : UInt32)
  | placed (made : Construction) (register : RegisterId) (width shift : UInt32)
  | extracted (made : Construction) (register : RegisterId) (width shift : UInt32)

namespace Construction

/-- Why no value is made. -/
inductive Failure where
  /-- An operation refuses what it is given. -/
  | refused (cause : ValueError)
  /-- The program stops. -/
  | stopped (cause : Overflow)
  deriving DecidableEq, Repr

/-- The value that is made, or why none is. -/
def value : Construction → Except Failure PartialValue
  | unknown register width => .ok (.unknown register width)
  | known register width n => .ok (.known register width n.toNat)
  | ofBytes register width mask value =>
    (PartialValue.ofBytes register width mask value).mapError .refused
  | deserialize register width bytes =>
    (PartialValue.deserialize register width bytes).mapError .refused
  | withBit made i b => made.value.map (·.withBit i.toNat b)
  | withBits made range x => made.value.map (·.withBits range x)
  | combine first second =>
    first.value.bind fun v => second.value.bind fun w => (v.combine w).mapError .refused
  | reanchor made register => made.value.map (·.reanchor register)
  | resized made register width => made.value.map (·.resized register width)
  | placed made register width shift =>
    made.value.bind fun v => (v.placed register width shift).mapError .stopped
  | extracted made register width shift =>
    made.value.bind fun v => (v.extracted register width shift).mapError .stopped

/-- The packed value that is made, or why none is. -/
def packed : Construction → Except Failure PackedValue
  | unknown register width => .ok (.unknown register width)
  | known register width n => .ok (.known register width n)
  | ofBytes register width mask value =>
    (PackedValue.ofBytes register width mask value).mapError .refused
  | deserialize register width bytes =>
    (PackedValue.deserialize register width bytes).mapError .refused
  | withBit made i b => made.packed.map (·.put i b)
  | withBits made range x => made.packed.map (·.withBits range x)
  | combine first second =>
    first.packed.bind fun v => second.packed.bind fun w => (v.combine w).mapError .refused
  | reanchor made register => made.packed.map (·.reanchor register)
  | resized made register width =>
    made.packed.bind fun v => (v.resized register width).mapError .stopped
  | placed made register width shift =>
    made.packed.bind fun v => (v.placed register width shift).mapError .stopped
  | extracted made register width shift =>
    made.packed.bind fun v => (v.extracted register width shift).mapError .stopped

/-- An operation can be carried out before packing or after it. -/
theorem map_pack {made : Except Failure PartialValue} {f : PartialValue → PartialValue}
    {g : PackedValue → PackedValue} (h : ∀ p, (f p).pack = g p.pack) :
    (made.map PartialValue.pack).map g = (made.map f).map PartialValue.pack := by
  cases made with
  | error e => rfl
  | ok p => exact congrArg Except.ok (h p).symm

/-- So can an operation that may fail. -/
theorem bind_pack {made : Except Failure PartialValue} {f : PartialValue → Except Failure PartialValue}
    {g : PackedValue → Except Failure PackedValue} (h : ∀ p, g p.pack = (f p).map PartialValue.pack) :
    (made.map PartialValue.pack).bind g = (made.bind f).map PartialValue.pack := by
  cases made with
  | error e => rfl
  | ok p => exact h p

/-- Why an operation fails is the same before packing and after it. -/
theorem mapError_pack {ε : Type} (made : Except ε PartialValue) (f : ε → Failure) :
    (made.map PartialValue.pack).mapError f = (made.mapError f).map PartialValue.pack := by
  cases made with
  | error e => rfl
  | ok p => rfl

/-- Both sides of a construction agree. -/
theorem packed_eq (c : Construction) : c.packed = c.value.map PartialValue.pack := by
  induction c with
  | unknown register width => exact congrArg Except.ok (PackedValue.pack_unknown register width).symm
  | known register width n => exact congrArg Except.ok (PackedValue.pack_known register width n).symm
  | ofBytes register width mask value =>
      rw [packed, PackedValue.ofBytes_eq]
      exact mapError_pack _ _
  | deserialize register width bytes =>
      rw [packed, PackedValue.deserialize_eq]
      exact mapError_pack _ _
  | withBit made i b ih =>
      rw [packed, ih, value]
      exact map_pack fun p => PackedValue.pack_withBit p i b
  | withBits made range x ih =>
      rw [packed, ih, value]
      exact map_pack fun p => PackedValue.pack_withBits p range x
  | combine first second ihFirst ihSecond =>
      rw [packed, ihFirst, ihSecond, value]
      refine bind_pack fun p => bind_pack fun q => ?_
      rw [PackedValue.combine_pack, mapError_pack]
  | reanchor made register ih =>
      rw [packed, ih, value]
      exact map_pack fun p => PackedValue.pack_reanchor p register
  | resized made register width ih =>
      have hresized : ∀ p : PartialValue, (p.pack.resized register width).mapError Failure.stopped =
          (Except.ok (p.resized register width)).map PartialValue.pack := fun p => by
        rw [PackedValue.resized_pack]
        rfl
      rw [packed, ih, value, bind_pack hresized]
      cases made.value with
      | error e => rfl
      | ok p => rfl
  | placed made register width shift ih =>
      rw [packed, ih, value]
      refine bind_pack fun p => ?_
      rw [PackedValue.placed_pack, mapError_pack]
  | extracted made register width shift ih =>
      rw [packed, ih, value]
      refine bind_pack fun p => ?_
      rw [PackedValue.extracted_pack, mapError_pack]

/-- What is made packed is the packed form of what is made. -/
theorem exists_value {c : Construction} {v : PackedValue} (h : c.packed = .ok v) :
    ∃ p, c.value = .ok p ∧ v = p.pack := by
  rw [packed_eq] at h
  cases hvalue : c.value with
  | error e =>
      rw [hvalue] at h
      cases h
  | ok p =>
      rw [hvalue] at h
      cases h
      exact ⟨p, rfl, rfl⟩

/-- What holds of every packed value that operations make, in whatever order and with whatever widths,
ranges, positions and shifts.  Its strings are as long as the register, with nothing marked as known
outside it and nothing stored where nothing is known.  So two of them are the same if their registers,
widths and bits are, the bits that are set in the mask are counted exactly, and what the bytes tell of
all bits together is so.  All of it is answered as by the value that the same operations make. -/
theorem packed_canonical (c : Construction) :
    c.packed = c.value.map PartialValue.pack ∧
      ∀ v, c.packed = .ok v →
        v.Canonical ∧
        (∀ d w, packed d = .ok w →
          (v = w ↔ v.register = w.register ∧ v.width = w.width ∧ ∀ i, v.bit i = w.bit i)) ∧
        v.knownCount.toNat =
          ((Finset.range v.width.toNat).filter fun i => (v.bit (.ofNat i)).isSome).card ∧
        v.knownCount ≤ v.width ∧
        (v.isUnknown ↔ ∀ i, v.bit i = none) ∧
        (v.isFullyKnown ↔ ∀ i < v.width, (v.bit i).isSome) ∧
        ∃ p, c.value = .ok p ∧ v.AnswersAs p := by
  refine ⟨packed_eq c, fun v hv => ?_⟩
  obtain ⟨p, hp, rfl⟩ := exists_value hv
  refine ⟨PackedValue.canonical_pack p, fun d w hw => ?_, PackedValue.knownCount_pack_eq_card p,
    PackedValue.knownCount_pack_le p, PackedValue.isUnknown_pack_iff, PackedValue.isFullyKnown_pack_iff,
    p, hp, PackedValue.answersAs_pack p⟩
  obtain ⟨q, _, rfl⟩ := exists_value hw
  constructor
  · intro heq
    rw [heq]
    exact ⟨rfl, rfl, fun _ => rfl⟩
  · rintro ⟨hregister, hwidth, hbit⟩
    exact (PackedValue.canonical_pack p).eq_of_bit_eq (PackedValue.canonical_pack q) hregister hwidth hbit

/-- Twelve bits that are read with four too many in their mask, with one bit made unknown and the rest
moved up so far that four of them are dropped, over the bits of a range. -/
def twelveBits : Construction :=
  combine
    (placed (withBit (ofBytes ⟨0⟩ 12 [0xff, 0xf5] [0x0a, 0xff]) 2 none) ⟨0⟩ 12 4)
    (withBits (unknown ⟨0⟩ 12) ⟨6, 20⟩ 0x5a)

theorem packed_canonical_twelveBits :
    ∃ v, twelveBits.packed = .ok v ∧ v.mask = [0xd0, 0x0f] ∧ v.value = [0x90, 0x0f] ∧ v.Canonical ∧
      (∃ p, twelveBits.value = .ok p ∧ v.AnswersAs p) := by
  have hmade : twelveBits.packed = .ok ⟨⟨0⟩, 12, [0xd0, 0x0f], [0x90, 0x0f]⟩ := by decide
  obtain ⟨hcanonical, -, -, -, -, -, hanswers⟩ := (packed_canonical twelveBits).2 _ hmade
  exact ⟨_, hmade, rfl, rfl, hcanonical, hanswers⟩

end Construction

end RegisterMigration
