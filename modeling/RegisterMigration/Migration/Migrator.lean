import RegisterMigration.Migration.CompilerSpecs
import RegisterMigration.Migration.Obstacle

/-!
# Migrators

A migrator carries registers, spaces, compiler specifications and register values from an
old version of a language to a new one. There is one for two languages exactly if nothing
stands in the way.

A value goes over unchanged if its register needs no conversion, field by field if it is
the context register, and otherwise with its low bits in place and any new high bits
unknown. So no bit that was unknown becomes known.
-/

namespace RegisterMigration

/-- Why a request to a migrator is refused. -/
inductive RequestError where
  /-- No old register occupies exactly the given bytes. -/
  | registerNotFound (space : String) (offset : UInt64) (length : UInt64)
  /-- The new language has no such space. -/
  | spaceNotFound (name : String)
  /-- A value is anchored on a register that the old language does not have. -/
  | unknownRegister (id : RegisterId)
  /-- A value is not as wide as its register. -/
  | widthMismatch (register : Register) (actual : UInt32)
  deriving DecidableEq, Repr

/-- The wording of each cause. -/
def RequestError.message : RequestError → String
  | registerNotFound space offset length =>
    s!"no register at {space}:0x{Text.upperHex offset.toNat} with length {length} in the old "
      ++ "language"
  | spaceNotFound name => s!"address space '{name}' not found in the new language"
  | unknownRegister id => s!"register {id} is not part of the old language"
  | widthMismatch r actual =>
    s!"value for register '{r.name}' is {actual} bits wide, expected {r.bitSize}"

/-- Two versions of a language between which values can be carried over, with what has been
worked out about them. -/
structure Migrator where
  old : Language
  new : Language
  /-- How context fields go over, where both versions have a context register. -/
  context : Option ContextMap
  correspondence : Correspondence

namespace Migrator

instance : ToString Migrator where
  toString m := s!"{m.old} -> {m.new}"

/-- The migrator from one language to another, or what stands in the way. -/
def build (old new : Language) : Except Obstacle Migrator :=
  match Obstacle.ofRegisters? old new with
  | some o => .error o
  | none =>
    match ContextMap.between old new with
    | .error c => .error (.context c)
    | .ok context =>
      .ok {
        old, new, context
        correspondence := .build old new (context.any (!·.identity)) }

/-! ## Registers and spaces -/

/-- The old register that occupies exactly `length` bytes at an offset of a space. -/
def oldRegisterAt (m : Migrator) (space : String) (offset length : UInt64) :
    Except RequestError Register :=
  match m.old.registerAt? space offset length.toNat with
  | some r => .ok r
  | none => .error (.registerNotFound space offset length)

/-- The new register that corresponds to an old one. -/
def newRegister? (m : Migrator) (id : RegisterId) : Option Register :=
  (m.correspondence.map? id).bind m.new.registerById?

/-- Whether values of an old register have to be converted. -/
def converts (m : Migrator) (id : RegisterId) : Bool :=
  m.correspondence.converts id

/-- How many old registers have a counterpart. -/
def mappedCount (m : Migrator) : Nat :=
  m.correspondence.mappedCount

/-- The new address space with a name. -/
def newSpace (m : Migrator) (name : String) : Except RequestError AddressSpace :=
  match m.new.space? name with
  | some s => .ok s
  | none => .error (.spaceNotFound name)

/-- What the identifier of an old compiler specification becomes. -/
def carrySpec (m : Migrator) (id : String) : String :=
  m.new.carrySpec id

/-! ## Values -/

/-- The old register that a value belongs to. -/
def registerOf (m : Migrator) (v : PartialValue) : Except RequestError Register :=
  match m.old.registerById? v.register with
  | none => .error (.unknownRegister v.register)
  | some r => if v.width = r.bitSize then .ok r else .error (.widthMismatch r v.width)

/-- A value of the old register `r` on its counterpart `n`. -/
def convert (m : Migrator) (r n : Register) (v : PartialValue) : Option PartialValue :=
  if !m.converts r.id then some (v.reanchor n.id)
  else if r.context then m.context.map (·.apply v)
  else some (v.resized n.id n.bitSize)

/-- Carries a value over; `none` if its register has no counterpart. -/
def migrate (m : Migrator) (v : PartialValue) : Except RequestError (Option PartialValue) :=
  (m.registerOf v).map fun r =>
    (m.newRegister? r.id).bind fun n => m.convert r n v

/-- Carries a value over and puts it on the base register of its new register, for which there are
always positions enough (`Migrator.widen_of_migrate`). -/
def migrateToBase (m : Migrator) (v : PartialValue) :
    Except RequestError (Option PartialValue) :=
  (m.migrate v).map (·.bind m.new.widenToBase?)

end Migrator

end RegisterMigration
