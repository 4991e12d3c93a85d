import RegisterMigration.Command.Arguments

/-!
# The program

Reads the files that the arguments name, runs the command, and shows its outcome: lines on
standard output, log records and the message of a failure on standard error. A command that
failed ends the program with code 1, arguments that name no command with code 2, and a number
that does not fit with code 101.
-/

namespace RegisterMigration

/-- Reads a file. -/
def readSource (path : String) : IO SourceFile := do
  try
    return ⟨path, .ofBytes (← IO.FS.readBinFile path)⟩
  catch
    | .noFileOrDirectory .. => return ⟨path, .missing⟩
    | _ => return ⟨path, .unreadable⟩

/-- Shows the outcome of a command, with the log records up to a level. -/
def showOutcome (verbosity : Nat) (o : Outcome) : IO UInt32 := do
  for r in o.log do
    if r.level.rank ≤ verbosity then IO.eprintln s!"[{r.level.name}] {r.message}"
  IO.print o.stdout
  match o.failure with
  | none => return 0
  | some (.message text) =>
    IO.eprintln s!"error: {text}"
    return 1
  | some (.stopped .overflow) =>
    IO.eprintln "attempt to add with overflow"
    return 101

/-- Runs the command that the arguments name, and gives the code that the program ends
with. -/
def runArguments (words : List String) : IO UInt32 := do
  let named := do
    let a ← Arguments.sort words
    return (a.verbosity, ← a.invocation)
  match named with
  | .error e =>
    IO.eprintln s!"error: {e.message}"
    return 2
  | .ok (verbosity, invocation) =>
    let invocation ← invocation.traverse readSource
    showOutcome verbosity (Command.outcome invocation.run)

end RegisterMigration

/-- The program. -/
def main (words : List String) : IO UInt32 :=
  RegisterMigration.runArguments words
