import RegisterMigration.Log
import RegisterMigration.Migration.Migrator

/-!
# Reporting decisions

The log records of a decision: which registers are absent from the new language, how many
context fields go over, and what was decided. Registers after the first obstacle are not
looked at.
-/

namespace RegisterMigration.Migrator

/-- The registers before the first obstacle. -/
def examined (old new : Language) : List Register :=
  if ((Obstacle.ofProcessor? old new).or (Obstacle.ofEndianness? old new)).isSome then []
  else old.registers.toList.takeWhile fun r => (Obstacle.ofRegister? old new r).isNone

/-- The records of registers that do not survive. -/
def absenceLog (old new : Language) : List LogRecord :=
  ((examined old new).filter fun r => (new.counterpart? r).isNone).map fun r =>
    ⟨.debug, s!"register '{r.name}' is absent from {new}"⟩

/-- The record of the context fields. -/
def contextLog (context : Option ContextMap) : List LogRecord :=
  context.toList.map fun c =>
    ⟨.debug, s!"context fields: {c.moves.length} mapped, {c.dropped.length} dropped, "
      ++ s!"{c.added.length} added"⟩

/-- The records of the decision about two languages. -/
def buildLog (old new : Language) : List LogRecord :=
  absenceLog old new ++
    match build old new with
    | .ok m =>
      contextLog m.context
        ++ [⟨.info, s!"built translator {m} ({m.mappedCount} registers mapped)"⟩]
    | .error o =>
      [⟨.warn, s!"no automatic translation from {old} to {new}: {o.message}"⟩]

/-- The record of carrying a value over, if its register has no counterpart. -/
def migrateLog (m : Migrator) (v : PartialValue) : List LogRecord :=
  match m.registerOf v with
  | .error _ => []
  | .ok r =>
    if (m.newRegister? r.id).isSome then []
    else [⟨.trace, s!"register '{r.name}' has no counterpart in {m.new}"⟩]

end RegisterMigration.Migrator
