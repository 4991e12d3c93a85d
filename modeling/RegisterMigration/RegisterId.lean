/-!
# Register ids

A register is identified by its place in the table of its language. An id may also point
outside the table: a value can be anchored on a register that no language has.
-/

namespace RegisterMigration

/-- The index of a register in its language's table. -/
structure RegisterId where
  index : Nat
  deriving DecidableEq, Hashable, Repr

instance : ToString RegisterId where
  toString id := s!"#{id.index}"

end RegisterMigration
