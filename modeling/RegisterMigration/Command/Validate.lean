import RegisterMigration.Command.Basic

/-!
# The command `validate`

Prints every issue of a definition. It fails if one of them is an error.
-/

namespace RegisterMigration.Command

/-- The line of an issue. -/
def issueLine (i : Issue) : String :=
  s!"  {i.severity.name}: {i.message}"

/-- The line that counts the parts of a definition. -/
def partsLine (d : Definition) : String :=
  s!"  {d.spaces.length} spaces, {d.registers.length} registers, "
    ++ s!"{d.contextFields.length} context fields, {d.compilerSpecs.length} compiler specs"

/-- Checks the definition that a file holds. -/
def validate (file : SourceFile) : Command Unit := do
  let d ← during s!"reading {file.path}" SourceError.message file.definition
  if d.issues.isEmpty then
    printLines [s!"{d.title}: OK", partsLine d]
  else
    printLines (d.issues.map issueLine)
    if d.errors.isEmpty then printLine s!"{d.title}: OK with warnings"
    else throw (.message s!"{file.path} has {d.errors.length} error(s)")

end RegisterMigration.Command
