/-!
# Address spaces

A named address space of a processor: memory, code memory, the register file, or anything
else. Its size is the length of an address in bytes.
-/

namespace RegisterMigration

/-- What an address space holds. -/
inductive SpaceKind where
  /-- Main memory. -/
  | ram
  /-- Memory for code alone. -/
  | code
  /-- The register file. -/
  | register
  /-- Anything else, such as input and output lines. -/
  | other
  deriving DecidableEq, Repr

/-- The word for a kind of address space. -/
def SpaceKind.name : SpaceKind → String
  | .ram => "ram"
  | .code => "code"
  | .register => "register"
  | .other => "other"

/-- The kinds of address spaces, in the order in which they are listed. -/
def SpaceKind.all : List SpaceKind :=
  [.ram, .code, .register, .other]

/-- A named address space. -/
structure AddressSpace where
  name : String
  kind : SpaceKind
  /-- Length of an address in bytes. -/
  size : UInt32
  /-- Whether this is the default data space. -/
  isDefault : Bool := false
  deriving DecidableEq, Repr

/-- The largest offset that an address can hold; addresses longer than eight bytes count
as eight. -/
def AddressSpace.maxOffset (s : AddressSpace) : Nat :=
  (1 <<< (8 * min s.size.toNat 8)) - 1

end RegisterMigration
