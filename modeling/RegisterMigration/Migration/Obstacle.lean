import RegisterMigration.Migration.ContextMap
import RegisterMigration.Migration.Correspondence

/-!
# Obstacles

Values can be carried from one version of a language to another if no bit of a register
that survives would be lost or guessed. What stands in the way is an obstacle. They are
looked for in a fixed order, and the first one counts: the processor, the byte order, the
registers in the order of the old table, and the fields of the context register.
-/

namespace RegisterMigration

/-- Why values cannot be carried over. -/
inductive Obstacle where
  /-- The languages describe different processors. -/
  | processor (old new : String)
  /-- The byte order has changed. -/
  | endianness (old new : Endianness)
  /-- A surviving register was in a space that the new language lacks. -/
  | missingSpace (register : Register)
  /-- A surviving register is in a space of another kind now. -/
  | spaceKind (register : Register) (space : String) (old new : SpaceKind)
  /-- A surviving register has become narrower. -/
  | narrowed (old new : Register)
  /-- The fields of the context register cannot be carried over. -/
  | context (c : ContextConflict)
  deriving DecidableEq, Repr

/-- The wording of each obstacle. -/
def Obstacle.message : Obstacle → String
  | processor old new => s!"processor changed from '{old}' to '{new}'"
  | endianness old new => s!"endianness changed from {old.name} to {new.name}"
  | missingSpace r => s!"address space '{r.space}' (used by register '{r.name}') has no counterpart"
  | spaceKind r space old new =>
    s!"register '{r.name}' was in a {old.name} space, now in '{space}' ({new.name})"
  | narrowed old new =>
    s!"register '{old.name}' narrowed from {old.bitSize} to {new.bitSize} bits"
  | context c => s!"context field layout not losslessly mappable: {c.message}"

namespace Obstacle

/-- The obstacle that the processor is. -/
def ofProcessor? (old new : Language) : Option Obstacle :=
  if old.definition.processor = new.definition.processor then none
  else some (.processor old.definition.processor new.definition.processor)

/-- The obstacle that the byte order is. -/
def ofEndianness? (old new : Language) : Option Obstacle :=
  if old.definition.endianness = new.definition.endianness then none
  else some (.endianness old.definition.endianness new.definition.endianness)

/-- The obstacle of a change of the kind of a register's space. -/
def ofSpaceKind? (old new : Language) (r n : Register) : Option Obstacle :=
  match old.space? r.space, new.space? n.space with
  | some s, some t =>
    if s.kind = t.kind then none else some (.spaceKind r n.space s.kind t.kind)
  | _, _ => none

/-- The obstacle that a register is. One that does not survive is none. -/
def ofRegister? (old new : Language) (r : Register) : Option Obstacle :=
  (new.counterpart? r).bind fun n =>
    if (new.space? r.space).isNone then some (.missingSpace r)
    else
      (ofSpaceKind? old new r n).or
        (if !r.context && n.bitSize < r.bitSize then some (.narrowed r n) else none)

/-- The first obstacle but for those of the context fields. -/
def ofRegisters? (old new : Language) : Option Obstacle :=
  ((ofProcessor? old new).or (ofEndianness? old new)).or
    (old.registers.toList.findSome? (ofRegister? old new))

end Obstacle

/-- How the context fields are carried over, where both languages have a context
register. -/
def ContextMap.between (old new : Language) : Except ContextConflict (Option ContextMap) :=
  match old.contextRegister?, new.contextRegister? with
  | some o, some n => (ContextMap.build old o new n).map some
  | _, _ => .ok none

end RegisterMigration
