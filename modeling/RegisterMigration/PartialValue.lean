import RegisterMigration.Binary
import RegisterMigration.BitRange
import RegisterMigration.Overflow
import RegisterMigration.Register
import RegisterMigration.Text.Numeral

/-!
# Partially known register values

The contents of one register, in which each bit is either known to be 0 or 1, or unknown.
Everything that can be asked of a value is a question about `bit`, and every operation
lays its result out with `ofBits`; so one law, `bit_ofBits`, describes them all.

In bytes a value is a mask, in which the known bits are set, and the known bits
themselves, both most significant byte first and as long as the register.

Moving bits and showing nibbles takes sums of positions, and `placed`, `extracted` and `pattern`
stop the program where one does not fit 32 bits. What they give otherwise is `raised`, `lowered`
and `shown`, with positions of any size. The loops that take these sums one by one are those of
`PackedValue`, and they stop for the same values.

## Main results

* `bit_ofBits` — what a value laid out bit by bit answers; `bit_raised`, `bit_withBits` and
  the like say it of each operation.
* `ext_bit` — values with the same register, width and bits are the same.
-/

namespace RegisterMigration

/-- Why register values could not be built or merged. -/
inductive ValueError where
  /-- Bytes are too few or too many for the register. -/
  | length (expected actual : Nat)
  /-- The values belong to different registers, or are of different widths. -/
  | mismatch (left right : RegisterId)
  deriving DecidableEq, Repr

/-- The wording of each cause. -/
def ValueError.message : ValueError → String
  | .length expected actual =>
    s!"expected {expected} bytes for register value, got {actual}"
  | .mismatch left right => s!"cannot combine values of registers {left} and {right}"

/-- The contents of a register, bit by bit from the least significant one. -/
structure PartialValue where
  /-- The register the value is anchored on. -/
  register : RegisterId
  /-- Width of that register in bits. -/
  width : UInt32
  bits : Array (Option Bool)
  size_bits : bits.size = width.toNat
  deriving DecidableEq

namespace PartialValue

/-! ## One bit at a time -/

/-- Bit `i`, or `none` if it is unknown or outside the register. -/
def bit (v : PartialValue) (i : Nat) : Option Bool :=
  v.bits[i]?.join

/-- The value whose bit `i` is `f i`, for each `i` below the width. -/
def ofBits (register : RegisterId) (width : UInt32) (f : Nat → Option Bool) : PartialValue where
  register := register
  width := width
  bits := Array.ofFn fun i : Fin width.toNat => f i
  size_bits := Array.size_ofFn

@[simp] theorem register_ofBits (r : RegisterId) (w : UInt32) (f : Nat → Option Bool) :
    (ofBits r w f).register = r := rfl

@[simp] theorem width_ofBits (r : RegisterId) (w : UInt32) (f : Nat → Option Bool) :
    (ofBits r w f).width = w := rfl

/-- What a value laid out bit by bit answers. -/
@[simp] theorem bit_ofBits (r : RegisterId) (w : UInt32) (f : Nat → Option Bool) (i : Nat) :
    (ofBits r w f).bit i = if i < w.toNat then f i else none := by
  by_cases h : i < w.toNat <;> simp [bit, ofBits, h]

/-- Nothing is known outside the register. -/
theorem bit_eq_none_of_le {v : PartialValue} {i : Nat} (h : v.width.toNat ≤ i) :
    v.bit i = none := by
  have hsize := v.size_bits
  simp [bit, Array.getElem?_eq_none (show v.bits.size ≤ i by omega)]

/-- Values with the same register, width and bits are the same. -/
theorem ext_bit {v w : PartialValue} (hr : v.register = w.register) (hw : v.width = w.width)
    (hb : ∀ i, v.bit i = w.bit i) : v = w := by
  obtain ⟨r, n, bits, hv⟩ := v
  obtain ⟨_, _, bits', hv'⟩ := w
  subst hr hw
  have : bits = bits' := by
    apply Array.ext (hv.trans hv'.symm)
    intro i h h'
    have := hb i
    simpa [bit, h, h'] using this
  subst this
  rfl

/-- A value is the one that is laid out from its bits. -/
theorem eq_ofBits {v : PartialValue} {f : Nat → Option Bool}
    (h : ∀ i < v.width.toNat, v.bit i = f i) : v = ofBits v.register v.width f := by
  refine ext_bit rfl rfl fun i => ?_
  rw [bit_ofBits]
  split
  · exact h i (by assumption)
  · exact bit_eq_none_of_le (Nat.le_of_not_lt (by assumption))

/-! ## Building values -/

/-- The value with no bit known. -/
def unknown (register : RegisterId) (width : UInt32) : PartialValue :=
  ofBits register width fun _ => none

/-- The value with every bit known: the low bits of a number. -/
def known (register : RegisterId) (width : UInt32) (n : Nat) : PartialValue :=
  ofBits register width fun i => some (n.testBit i)

/-- The value with a given mask and given known bits, both as numbers. -/
def ofMask (register : RegisterId) (width : UInt32) (mask value : Nat) : PartialValue :=
  ofBits register width fun i => if mask.testBit i then some (value.testBit i) else none

/-- Reads a value from its mask and its bits, each in exactly as many bytes as the register
has. Bits outside the register and bits that the mask leaves out are ignored. -/
def ofBytes (register : RegisterId) (width : UInt32) (mask value : List UInt8) :
    Except ValueError PartialValue :=
  if mask.length ≠ byteLength width then
    .error (.length (byteLength width) mask.length)
  else if value.length ≠ byteLength width then
    .error (.length (byteLength width) value.length)
  else
    .ok (ofMask register width (Binary.ofBigEndian mask) (Binary.ofBigEndian value))

/-- Reads a value from its serialized form, the mask followed by the bits. -/
def deserialize (register : RegisterId) (width : UInt32) (bytes : List UInt8) :
    Except ValueError PartialValue :=
  let length := byteLength width
  if bytes.length ≠ 2 * length then .error (.length (2 * length) bytes.length)
  else ofBytes register width (bytes.take length) (bytes.drop length)

/-! ## Changing bits -/

/-- The value with one bit set, cleared or made unknown. -/
def withBit (v : PartialValue) (i : Nat) (b : Option Bool) : PartialValue :=
  ofBits v.register v.width fun j => if j = i then b else v.bit j

/-- The value with the bits of a range taken from a number, lowest first. -/
def withBits (v : PartialValue) (range : BitRange) (x : UInt64) : PartialValue :=
  ofBits v.register v.width fun j =>
    if range.covers j then some (x.toNat.testBit (j - range.lo.toNat)) else v.bit j

/-- What is known in either of two values; where both know a bit, the first one counts. -/
def combine (v w : PartialValue) : Except ValueError PartialValue :=
  if v.register = w.register ∧ v.width = w.width then
    .ok (ofBits v.register v.width fun i => (v.bit i).or (w.bit i))
  else .error (.mismatch v.register w.register)

/-! ## Moving bits -/

/-- The same bits on another register of the same width. -/
def reanchor (v : PartialValue) (register : RegisterId) : PartialValue :=
  { v with register }

/-- The bits moved up by `shift` in a value of another width. What would land beyond the width
is dropped. -/
def raised (v : PartialValue) (register : RegisterId) (width shift : UInt32) : PartialValue :=
  ofBits register width fun j => if shift.toNat ≤ j then v.bit (j - shift.toNat) else none

/-- The bits from `shift` on, in a value of another width. -/
def lowered (v : PartialValue) (register : RegisterId) (width shift : UInt32) : PartialValue :=
  ofBits register width fun j => v.bit (shift.toNat + j)

/-- Whether every known bit, moved up by `shift`, has a position of 32 bits. -/
def fitsAt (v : PartialValue) (shift : UInt32) : Bool :=
  (List.range v.width.toNat).all fun i => (v.bit i).isNone || i + shift.toNat < UInt32.size

/-- Moves the bits up by `shift`, which takes a new position for each known bit. -/
def placed (v : PartialValue) (register : RegisterId) (width shift : UInt32) :
    Except Overflow PartialValue :=
  ifFits (v.fitsAt shift) (v.raised register width shift)

/-- Takes the bits from `shift` on, which takes a position for each bit of the new width. -/
def extracted (v : PartialValue) (register : RegisterId) (width shift : UInt32) :
    Except Overflow PartialValue :=
  ifFits (width = 0 ∨ shift.toNat + width.toNat ≤ UInt32.size) (v.lowered register width shift)

/-- The low bits in a value of another width; what is new is unknown. -/
def resized (v : PartialValue) (register : RegisterId) (width : UInt32) : PartialValue :=
  v.raised register width 0

/-! ## What the operations answer -/

@[simp] theorem bit_unknown (r : RegisterId) (w : UInt32) (i : Nat) :
    (unknown r w).bit i = none := by
  simp [unknown]

@[simp] theorem bit_known (r : RegisterId) (w : UInt32) (n i : Nat) :
    (known r w n).bit i = if i < w.toNat then some (n.testBit i) else none := by
  simp [known]

@[simp] theorem bit_ofMask (r : RegisterId) (w : UInt32) (mask value i : Nat) :
    (ofMask r w mask value).bit i =
      if i < w.toNat ∧ mask.testBit i then some (value.testBit i) else none := by
  by_cases h : i < w.toNat <;> simp [ofMask, h]

/-- Setting a bit outside the register changes nothing. -/
@[simp] theorem bit_withBit (v : PartialValue) (i : Nat) (b : Option Bool) (j : Nat) :
    (v.withBit i b).bit j = if j = i ∧ j < v.width.toNat then b else v.bit j := by
  by_cases h : j < v.width.toNat
  · simp [withBit, h]
  · simp [withBit, h, bit_eq_none_of_le (Nat.le_of_not_lt h)]

@[simp] theorem bit_withBits (v : PartialValue) (range : BitRange) (x : UInt64) (j : Nat) :
    (v.withBits range x).bit j =
      if range.covers j ∧ j < v.width.toNat then some (x.toNat.testBit (j - range.lo.toNat))
      else v.bit j := by
  by_cases h : j < v.width.toNat
  · simp [withBits, h]
  · simp [withBits, h, bit_eq_none_of_le (Nat.le_of_not_lt h)]

/-- Merging fails exactly for different registers or widths. -/
theorem combine_eq_ok_iff {v w x : PartialValue} :
    v.combine w = .ok x ↔
      v.register = w.register ∧ v.width = w.width ∧
        x = ofBits v.register v.width fun i => (v.bit i).or (w.bit i) := by
  unfold combine
  split
  · rename_i h
    simp [h, eq_comm]
  · rename_i h
    simp only [reduceCtorEq, false_iff]
    exact fun ⟨h1, h2, _⟩ => h ⟨h1, h2⟩

@[simp] theorem bit_reanchor (v : PartialValue) (r : RegisterId) (i : Nat) :
    (v.reanchor r).bit i = v.bit i := rfl

@[simp] theorem bit_raised (v : PartialValue) (r : RegisterId) (w s : UInt32) (j : Nat) :
    (v.raised r w s).bit j =
      if s.toNat ≤ j ∧ j < w.toNat then v.bit (j - s.toNat) else none := by
  by_cases h : j < w.toNat <;> simp [raised, h]

@[simp] theorem bit_lowered (v : PartialValue) (r : RegisterId) (w s : UInt32) (j : Nat) :
    (v.lowered r w s).bit j = if j < w.toNat then v.bit (s.toNat + j) else none := by
  simp [lowered]

/-- Resizing keeps the low bits in place. -/
@[simp] theorem bit_resized (v : PartialValue) (r : RegisterId) (w : UInt32) (j : Nat) :
    (v.resized r w).bit j = if j < w.toNat then v.bit j else none := by
  simp [resized]

/-! ## Asking -/

/-- The bits of a range as a number, if there are at most 64 and all are known. -/
def bits? (v : PartialValue) (range : BitRange) : Option UInt64 :=
  if 64 < range.size then none
  else
    ((range.firstPositions 64).mapM v.bit).map fun bs => UInt64.ofNat (Binary.ofBits bs)

/-- How many bits are known. -/
def knownCount (v : PartialValue) : Nat :=
  v.bits.countP Option.isSome

/-- Whether no bit is known. -/
def isUnknown (v : PartialValue) : Bool :=
  v.bits.all Option.isNone

/-- Whether every bit is known. -/
def isFullyKnown (v : PartialValue) : Bool :=
  v.knownCount == v.width.toNat

/-! ## Writing -/

/-- The known bits, as a number. -/
def mask (v : PartialValue) : Nat :=
  Binary.ofBits (v.bits.toList.map Option.isSome)

/-- The bits known to be 1, as a number. -/
def value (v : PartialValue) : Nat :=
  Binary.ofBits (v.bits.toList.map (· == some true))

/-- The mask in bytes, most significant byte first. -/
def maskBytes (v : PartialValue) : List UInt8 :=
  Binary.toBigEndian (byteLength v.width) v.mask

/-- The known bits in bytes, most significant byte first. -/
def valueBytes (v : PartialValue) : List UInt8 :=
  Binary.toBigEndian (byteLength v.width) v.value

/-- The serialized form: the mask followed by the bits. -/
def serialize (v : PartialValue) : List UInt8 :=
  v.maskBytes ++ v.valueBytes

/-- The bits of nibble `n` that lie inside the register, lowest first. -/
def nibble (v : PartialValue) (n : Nat) : List (Option Bool) :=
  (List.range (min 4 (v.width.toNat - 4 * n))).map fun i => v.bit (4 * n + i)

/-- How a nibble is shown: a digit if it is known, `x` if nothing of it is, `?` if part of
it is. -/
def nibbleChar (bits : List (Option Bool)) : Char :=
  if bits.all Option.isNone then 'x'
  else if bits.all Option.isSome then Text.hexDigit (Binary.ofBits (bits.map (· == some true)))
  else '?'

/-- The nibbles of a value, most significant first. -/
def shown (v : PartialValue) : String :=
  String.ofList
    ((List.range ((v.width.toNat + 3) / 4)).reverse.map fun n => nibbleChar (v.nibble n))

/-- Shows the nibbles of a value, which takes the position at which each of them ends. -/
def pattern (v : PartialValue) : Except Overflow String :=
  ifFits (v.width.toNat + 3 < UInt32.size) v.shown

/-- Shows a value with its register. -/
def display (v : PartialValue) : Except Overflow String :=
  v.pattern.map fun nibbles => s!"{v.register}=0x{nibbles}"

end PartialValue

end RegisterMigration
