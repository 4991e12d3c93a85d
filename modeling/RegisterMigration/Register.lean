import RegisterMigration.RegisterId

/-!
# Registers

A declared register is a named span of bits at a byte offset of an address space. A
resolved one also knows its place in the table and its parent, the smallest register
that strictly contains it; through the parents the table is a forest.

Spans are measured in whole bytes: a register of nine bits occupies two. All measures are
natural numbers, so that nothing wraps at the top of a 64-bit space.
-/

namespace RegisterMigration

/-- The number of bytes that hold `bits` bits. -/
def byteLength (bits : UInt32) : Nat :=
  (bits.toNat + 7) / 8

/-- A register as declared. -/
structure RegisterDecl where
  name : String
  /-- Name of the address space that holds the register. -/
  space : String
  /-- Byte offset in that space. -/
  offset : UInt64
  /-- Size in bits. -/
  bitSize : UInt32
  /-- Whether this is the processor-context register. -/
  context : Bool := false
  deriving DecidableEq, Repr

namespace RegisterDecl

/-- The number of bytes a register occupies. -/
def byteLen (r : RegisterDecl) : Nat :=
  byteLength r.bitSize

/-- Offset of a register's last byte, at most the last one that 64 bits can address. -/
def lastByte (r : RegisterDecl) : Nat :=
  min (r.offset.toNat + (r.byteLen - 1)) (UInt64.size - 1)

/-- Whether a register occupies exactly `length` bytes at an offset of a space. -/
def hasSpan (r : RegisterDecl) (space : String) (offset : UInt64) (length : Nat) : Bool :=
  r.space == space && r.offset == offset && r.byteLen == length

/-- Whether the bytes of `r` include those of `s` and more. -/
def strictlyContains (r s : RegisterDecl) : Bool :=
  r.space == s.space && r.offset ≤ s.offset && s.lastByte ≤ r.lastByte && s.byteLen < r.byteLen

/-- Whether two registers have a byte in common. -/
def overlaps (r s : RegisterDecl) : Bool :=
  r.space == s.space && r.offset.toNat ≤ s.lastByte && s.offset.toNat ≤ r.lastByte

end RegisterDecl

/-- A register in the table of a language. -/
structure Register extends RegisterDecl where
  id : RegisterId
  /-- The smallest register that strictly contains this one. -/
  parent : Option RegisterId
  deriving DecidableEq, Repr

namespace Register

/-- The first of the shortest declarations, with its place. -/
def shortest? : List (RegisterDecl × Nat) → Option (RegisterDecl × Nat)
  | [] => none
  | d :: ds =>
    match shortest? ds with
    | none => some d
    | some e => if d.1.byteLen ≤ e.1.byteLen then some d else some e

/-- The place of the smallest declaration that strictly contains `r`; of several equally
small ones, the first. -/
def containerIn? (decls : List RegisterDecl) (r : RegisterDecl) : Option RegisterId :=
  (shortest? (decls.zipIdx.filter fun d => d.1.strictlyContains r)).map fun d => ⟨d.2⟩

/-- The table of declared registers, in order of declaration, with the parents resolved. -/
def table (decls : List RegisterDecl) : Array Register :=
  (decls.zipIdx.map fun d =>
    { d.1 with id := ⟨d.2⟩, parent := containerIn? decls d.1 : Register }).toArray

end Register

end RegisterMigration
