import RegisterMigration.PartialValue

/-!
# Packed values

The contents of a register as they are kept in memory: a mask and the known bits, each as bytes from
the least significant one on.  A bit is found by its byte and its place in that byte, and is written
by setting or clearing it in both.

Bits move one by one: what is placed, taken out or filled in is a list of writes, one after the other.
Each takes a position of 32 bits, and where a sum is none, the program stops.  Merging, trimming and
counting go byte by byte, and are right only as long as nothing is stored where nothing is known.

`PartialValue.pack` is the packed form of a value.  Every operation here is the one of the same name
on values.
-/

namespace RegisterMigration

/-- The contents of a register in bytes, the least significant one first. -/
@[ext]
structure PackedValue where
  /-- The register the value is anchored on. -/
  register : RegisterId
  /-- Width of that register in bits. -/
  width : UInt32
  /-- Which bits are known. -/
  mask : List UInt8
  /-- Which of these are set. -/
  value : List UInt8
  deriving DecidableEq, Repr

/-- The packed form of a value. -/
def PartialValue.pack (v : PartialValue) : PackedValue where
  register := v.register
  width := v.width
  mask := v.maskBytes.reverse
  value := v.valueBytes.reverse

@[simp] theorem PartialValue.register_pack (v : PartialValue) : v.pack.register = v.register := rfl

@[simp] theorem PartialValue.width_pack (v : PartialValue) : v.pack.width = v.width := rfl

namespace PackedValue

/-! ## One bit at a time -/

/-- The byte that holds a bit. -/
def byteOf (i : UInt32) : Nat :=
  (i / 8).toNat

/-- The place of a bit in its byte. -/
def placeOf (i : UInt32) : UInt8 :=
  (i % 8).toUInt8

/-- Whether a bit is set in a string of bytes. -/
def isSet (bytes : List UInt8) (i : UInt32) : Bool :=
  bytes.getD (byteOf i) 0 >>> placeOf i &&& 1 == 1

/-- The bytes with one bit set. -/
def setBit (bytes : List UInt8) (i : UInt32) : List UInt8 :=
  bytes.modify (byteOf i) (· ||| 1 <<< placeOf i)

/-- The bytes with one bit cleared. -/
def clearBit (bytes : List UInt8) (i : UInt32) : List UInt8 :=
  bytes.modify (byteOf i) (· &&& ~~~(1 <<< placeOf i))

/-- Bit `i`, or `none` if it is unknown or outside the register. -/
def bit (v : PackedValue) (i : UInt32) : Option Bool :=
  if v.width ≤ i then none
  else if isSet v.mask i then some (isSet v.value i)
  else none

/-- Writes a bit, or makes it unknown.  Nothing is written outside the register. -/
def put (v : PackedValue) (i : UInt32) (b : Option Bool) : PackedValue :=
  if v.width ≤ i then v
  else
    match b with
    | some true => { v with mask := setBit v.mask i, value := setBit v.value i }
    | some false => { v with mask := setBit v.mask i, value := clearBit v.value i }
    | none => { v with mask := clearBit v.mask i, value := clearBit v.value i }

/-- Writes bits one after the other. -/
def puts (v : PackedValue) (writes : List (UInt32 × Option Bool)) : PackedValue :=
  writes.foldl (fun out write => out.put write.1 write.2) v

/-! ## Building values -/

/-- The value with no bit known. -/
def unknown (register : RegisterId) (width : UInt32) : PackedValue where
  register := register
  width := width
  mask := .replicate (byteLength width) 0
  value := .replicate (byteLength width) 0

/-- The value with every bit known: the low bits of a number of 128 bits, and zeros above them. -/
def known (register : RegisterId) (width : UInt32) (n : BitVec 128) : PackedValue :=
  let low := (List.range (min width.toNat 128)).map fun i =>
    (UInt32.ofNat i, some (n >>> i &&& 1 == 1))
  let high := (List.range' 128 (width.toNat - 128)).map fun i => (UInt32.ofNat i, some false)
  ((unknown register width).puts low).puts high

/-- How many bits of the mask's last byte lie outside the register.  The number of bits in the bytes and
the difference are taken modulo `2 ^ 32`.  Only for widths above `2 ^ 32 - 8` is this needed: there the
bytes have `2 ^ 32` bits, and with overflow checks the product would stop the program. -/
def spare (v : PackedValue) : UInt32 :=
  .ofNat v.mask.length * 8 - v.width

/-- The mask without the bits that lie outside the register. -/
def trimmedMask (v : PackedValue) : List UInt8 :=
  if 0 < v.spare then v.mask.modify (v.mask.length - 1) (· &&& 0xFF >>> v.spare.toUInt8) else v.mask

/-- Trims the mask, and then clears every bit that it leaves out. -/
def normalize (v : PackedValue) : PackedValue :=
  { v with mask := v.trimmedMask, value := List.zipWith (· &&& ·) v.value v.trimmedMask }

/-- Reads a value from its mask and its bits, both from the most significant byte on. -/
def ofBytes (register : RegisterId) (width : UInt32) (mask value : List UInt8) :
    Except ValueError PackedValue :=
  if mask.length ≠ byteLength width then
    .error (.length (byteLength width) mask.length)
  else if value.length ≠ byteLength width then
    .error (.length (byteLength width) value.length)
  else
    .ok (normalize { register, width, mask := mask.reverse, value := value.reverse })

/-- Reads a value from its serialized form, the mask followed by the bits. -/
def deserialize (register : RegisterId) (width : UInt32) (bytes : List UInt8) :
    Except ValueError PackedValue :=
  let length := byteLength width
  if bytes.length ≠ 2 * length then .error (.length (2 * length) bytes.length)
  else ofBytes register width (bytes.take length) (bytes.drop length)

/-! ## Changing and moving bits -/

/-- The value with the bits of a range taken from a number, lowest first. -/
def withBits (v : PackedValue) (range : BitRange) (x : UInt64) : PackedValue :=
  v.puts ((List.range range.size).map fun i =>
    (range.lo + .ofNat i, some (decide (i < 64) && x >>> .ofNat i &&& 1 == 1)))

/-- The bits that are known of a second value and not of the first one. -/
def taken (v w : PackedValue) : List UInt8 :=
  List.zipWith (fun theirs ours => theirs &&& ~~~ours) w.mask v.mask

/-- What is known in either of two values, byte by byte; where both know a bit, the first one
counts. -/
def combine (v w : PackedValue) : Except ValueError PackedValue :=
  if v.register = w.register ∧ v.width = w.width then
    .ok { v with
      mask := List.zipWith (· ||| ·) v.mask (taken v w)
      value := List.zipWith (· ||| ·) v.value (List.zipWith (· &&& ·) w.value (taken v w)) }
  else .error (.mismatch v.register w.register)

/-- The same bits on another register of the same width. -/
def reanchor (v : PackedValue) (register : RegisterId) : PackedValue :=
  { v with register }

/-- The known bits with their positions, lowest first. -/
def knownBits (v : PackedValue) : List (Nat × Bool) :=
  (List.range v.width.toNat).filterMap fun i => (v.bit (.ofNat i)).map (i, ·)

/-- Moves the known bits up by `shift` in a value of another width. -/
def placed (v : PackedValue) (register : RegisterId) (width shift : UInt32) :
    Except Overflow PackedValue :=
  (v.knownBits.mapM fun known => (position (known.1 + shift.toNat)).map (·, some known.2)).map
    (unknown register width).puts

/-- Takes the bits from `shift` on, in a value of another width. -/
def extracted (v : PackedValue) (register : RegisterId) (width shift : UInt32) :
    Except Overflow PackedValue :=
  ((List.range width.toNat).mapM fun i =>
    (position (i + shift.toNat)).map fun source => (UInt32.ofNat i, v.bit source)).map
      (unknown register width).puts

/-- The low bits in a value of another width; what is new is unknown. -/
def resized (v : PackedValue) (register : RegisterId) (width : UInt32) :
    Except Overflow PackedValue :=
  v.placed register width 0

/-! ## Asking and writing -/

/-- The number that the first `n` bits spell, lowest first; `none` once a bit is not known. -/
def gather (f : Nat → Option Bool) (n : Nat) : Option UInt64 :=
  (List.range n).foldlM (fun x i => (f i).map fun b => x ||| b.toUInt64 <<< .ofNat i) 0

/-- The bits of a range as a number, if it is reported with at most 64 and all are known. -/
def bits? (v : PackedValue) (range : BitRange) : Option UInt64 :=
  if 64 < range.width then none
  else gather (fun i => v.bit (range.lo + .ofNat i)) range.size

/-- How many bits of a byte are set. -/
def ones (b : UInt8) : UInt32 :=
  .ofNat ((List.range 8).countP b.toNat.testBit)

/-- How many bits are known. -/
def knownCount (v : PackedValue) : UInt32 :=
  v.mask.foldl (fun n b => n + ones b) 0

/-- Whether no bit is known. -/
def isUnknown (v : PackedValue) : Bool :=
  v.mask.all (· == 0)

/-- Whether every bit is known. -/
def isFullyKnown (v : PackedValue) : Bool :=
  v.knownCount == v.width

/-- The serialized form: the mask followed by the bits, both from the most significant byte on. -/
def serialize (v : PackedValue) : List UInt8 :=
  v.mask.reverse ++ v.value.reverse

/-- The positions from `lo` up to `hi`, without `hi`. -/
def positions (lo hi : UInt32) : List UInt32 :=
  (List.range' lo.toNat (hi.toNat - lo.toNat)).map .ofNat

/-- The bits of nibble `n` that lie inside the register, lowest first.  The position at which the
nibble ends must be one, too. -/
def nibble (v : PackedValue) (n : Nat) : Except Overflow (List (Option Bool)) :=
  (position (4 * n + 4)).map fun stop =>
    ((positions (4 * .ofNat n) stop).filter (· < v.width)).map v.bit

/-- The nibbles of a value, most significant first. -/
def pattern (v : PackedValue) : Except Overflow String :=
  ((List.range ((v.width.toNat + 3) / 4)).reverse.mapM fun n =>
    (v.nibble n).map PartialValue.nibbleChar).map String.ofList

end PackedValue

end RegisterMigration
