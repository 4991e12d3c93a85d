import RegisterMigration.Command.CarryCompilerSpec
import RegisterMigration.Command.Check
import RegisterMigration.Command.ConvertValue
import RegisterMigration.Command.LocateRegister
import RegisterMigration.Command.Validate

/-!
# Invocations

Which command is run, and on what. Arguments name files; a command takes what reading them
gave. So an invocation leaves open what a file is, and going over the files of an
invocation turns the one form into the other.
-/

namespace RegisterMigration

/-- A command and what it is run on, where a file is given as a `φ`. -/
inductive Invocation (φ : Type) where
  | validate (file : φ)
  | check (old new : φ) (format : Format)
  | register (old new : φ) (space : String) (offset length : UInt64) (format : Format)
  | value (old new : φ) (register mask value : String) (base : Bool) (format : Format)
  | compilerSpec (old new : φ) (id : String)
  deriving Repr

namespace Invocation

/-- Goes over the files of an invocation, the old one first. -/
def traverse {m : Type → Type} [Monad m] {φ ψ : Type} (f : φ → m ψ) :
    Invocation φ → m (Invocation ψ)
  | validate file => return validate (← f file)
  | check old new format => return check (← f old) (← f new) format
  | register old new space offset length format =>
    return register (← f old) (← f new) space offset length format
  | value old new r mask bits base format =>
    return value (← f old) (← f new) r mask bits base format
  | compilerSpec old new id => return compilerSpec (← f old) (← f new) id

/-- Runs a command. -/
def run : Invocation SourceFile → Command Unit
  | validate file => Command.validate file
  | check old new format => Command.check old new format
  | register old new space offset length format =>
    Command.locateRegister old new space offset length format
  | value old new r mask bits base format =>
    Command.convertValue old new r mask bits base format
  | compilerSpec old new id => Command.carryCompilerSpec old new id

end Invocation

end RegisterMigration
