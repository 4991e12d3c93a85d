import RegisterMigration.Command.Basic

/-!
# The command `compiler-spec`

Says what the identifier of a compiler specification becomes in the new version.
-/

namespace RegisterMigration.Command

/-- The warning about an identifier that the old version does not declare. -/
def undeclaredLog (old : Language) (id : String) : List LogRecord :=
  if (old.compilerSpec? id).isSome then []
  else [⟨.warn, s!"compiler spec '{id}' is not declared by {old}"⟩]

/-- Says what an identifier becomes, and whether it had to be replaced. -/
def carryCompilerSpec (old new : SourceFile) (id : String) : Command Unit := do
  let m ← loadMigrator old new
  record (undeclaredLog m.old id)
  let carried := m.carrySpec id
  if carried = id then printLine carried
  else printLine s!"{carried} (fallback to default of {m.new})"

end RegisterMigration.Command
