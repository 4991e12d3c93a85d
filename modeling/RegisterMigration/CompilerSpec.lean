/-!
# Compiler specifications

A language lists the compiler conventions it knows, each under an identifier.
-/

namespace RegisterMigration

/-- A compiler specification: its identifier and its name for readers. -/
structure CompilerSpec where
  id : String
  name : String
  deriving DecidableEq, Repr

/-- A specification whose name is its identifier. -/
def CompilerSpec.named (id : String) : CompilerSpec :=
  ⟨id, id⟩

end RegisterMigration
