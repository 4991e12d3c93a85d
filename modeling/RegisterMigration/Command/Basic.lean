import RegisterMigration.Language.Source
import RegisterMigration.Log
import RegisterMigration.Migration.Report
import RegisterMigration.Overflow

/-!
# Commands

A command prints lines, writes log records, and may fail with a message or stop at a number
that does not fit; what it printed and wrote before that stands. Commands are functions: the
files they are about are given to them, and their outcome is what the program shows.
-/

namespace RegisterMigration

/-- What a command has printed and written. -/
structure Transcript where
  stdout : String := ""
  log : List LogRecord := []
  deriving DecidableEq, Repr

/-- Why a command did not come to its end. -/
inductive Command.Failure where
  /-- It gave up, and says why. -/
  | message (text : String)
  /-- The program stopped. -/
  | stopped (cause : Overflow)
  deriving DecidableEq, Repr

/-- A command that gives a value or fails. -/
abbrev Command (α : Type) := ExceptT Command.Failure (StateM Transcript) α

/-- All that a command shows. -/
structure Outcome where
  stdout : String
  log : List LogRecord
  /-- Why the command failed, if it did. -/
  failure : Option Command.Failure
  deriving DecidableEq, Repr

namespace Command

/-- Prints a line. -/
def printLine (line : String) : Command Unit :=
  modify fun t => { t with stdout := t.stdout ++ line ++ "\n" }

/-- Prints lines. -/
def printLines (lines : List String) : Command Unit :=
  lines.forM printLine

/-- Writes log records. -/
def record (records : List LogRecord) : Command Unit :=
  modify fun t => { t with log := t.log ++ records }

/-- What a command shows. -/
def outcome (c : Command Unit) : Outcome :=
  match StateT.run (ExceptT.run c) {} with
  | (.ok (), t) => ⟨t.stdout, t.log, none⟩
  | (.error failure, t) => ⟨t.stdout, t.log, some failure⟩

/-! ## Loading -/

/-- The value of a step that may fail, with a message that says what was being done. -/
def during {ε α : Type} (doing : String) (message : ε → String) (r : Except ε α) : Command α :=
  match r with
  | .ok a => return a
  | .error e => throw (.message s!"{doing}: {message e}")

/-- The value of a step that may fail with a message of its own. -/
def orFail {ε α : Type} (message : ε → String) (r : Except ε α) : Command α :=
  match r with
  | .ok a => return a
  | .error e => throw (.message (message e))

/-- The value of a step at which the program may stop. -/
def orStop {α : Type} (r : Except Overflow α) : Command α :=
  match r with
  | .ok a => return a
  | .error cause => throw (.stopped cause)

/-- Loads a language. -/
def loadLanguage (f : SourceFile) : Command Language := do
  let l ← during s!"loading {f.path}" SourceError.message f.language
  record [⟨.debug, s!"loaded {l} from {f.path}"⟩]
  return l

/-- Loads two versions of a language and decides about them. -/
def decide (old new : SourceFile) : Command (Except Obstacle Migrator) := do
  let o ← loadLanguage old
  let n ← loadLanguage new
  record (Migrator.buildLog o n)
  return Migrator.build o n

/-- The message of a command that needs a migrator where there is none. -/
def refusal (o : Obstacle) : String :=
  s!"no automatic translation: {o.message}"

/-- Loads two versions of a language between which values can be carried over. -/
def loadMigrator (old new : SourceFile) : Command Migrator := do
  orFail refusal (← decide old new)

end Command

/-- How the result of a command is laid out. -/
inductive Format where
  /-- Lines for readers. -/
  | text
  /-- A JSON value. -/
  | json
  deriving DecidableEq, Repr

/-- The layout that an argument asks for; text, unless it is `json`. -/
def Format.ofArgument : Option String → Format
  | some "json" => .json
  | _ => .text

end RegisterMigration
