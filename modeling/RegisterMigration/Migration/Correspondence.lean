import RegisterMigration.Language.Hierarchy

/-!
# Corresponding registers

A register of the old language corresponds to the register of the same name in the new
one; the context register corresponds to the context register, whatever it is called. An
ordinary register never corresponds to the new context register.

Values of a register can be taken over as they are unless its place, its size or its
parent has changed, or unless it is the context register and its fields have moved.
-/

namespace RegisterMigration

/-- The register of `new` that corresponds to the register `r` of an older language. -/
def Language.counterpart? (new : Language) (r : Register) : Option Register :=
  if r.context then new.contextRegister?
  else (new.register? r.name).filter (!·.context)

/-- Whether the place or the size of a register has changed. -/
def Register.moved (o n : Register) : Bool :=
  o.space != n.space || o.offset != n.offset || o.bitSize != n.bitSize

/-- Whether a parent is no longer the same register: its name, its offset or its size has
changed, or there is a parent in one language only. -/
def Register.parentChanged : Option Register → Option Register → Bool
  | none, none => false
  | some o, some n => o.name != n.name || o.offset != n.offset || o.bitSize != n.bitSize
  | _, _ => true

/-- Whether a register lies elsewhere in the new language, or in another parent. -/
def Register.rearranged (old new : Language) (o n : Register) : Bool :=
  o.moved n || parentChanged (old.parentOf? o.id) (new.parentOf? n.id)

/-- What becomes of a register. -/
structure Counterpart where
  /-- The corresponding register of the new language. -/
  id : RegisterId
  /-- Whether values have to be converted. -/
  converts : Bool
  deriving DecidableEq, Repr

/-- What becomes of each register of the old language, indexed by register id. -/
structure Correspondence where
  rows : Array (Option Counterpart)

namespace Correspondence

/-- The correspondence of two languages. `contextChanged` says whether the fields of the
context register have moved. -/
def build (old new : Language) (contextChanged : Bool) : Correspondence where
  rows := old.registers.map fun r =>
    (new.counterpart? r).map fun n =>
      { id := n.id
        converts := Register.rearranged old new r n || (r.context && contextChanged) }

/-- What becomes of the register with an id. -/
def row? (c : Correspondence) (id : RegisterId) : Option Counterpart :=
  c.rows[id.index]?.join

/-- The register of the new language that corresponds to an id. -/
def map? (c : Correspondence) (id : RegisterId) : Option RegisterId :=
  (c.row? id).map (·.id)

/-- Whether values of a register have to be converted; not if it has no counterpart. -/
def converts (c : Correspondence) (id : RegisterId) : Bool :=
  (c.row? id).any (·.converts)

/-- How many registers have a counterpart. -/
def mappedCount (c : Correspondence) : Nat :=
  c.rows.countP Option.isSome

end Correspondence

end RegisterMigration
