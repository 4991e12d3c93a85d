import RegisterMigration.Language.Basic
import RegisterMigration.PartialValue

/-!
# Carrying context fields over

The fields of two context registers correspond by name. Their bits can be carried over if
each field keeps its width, lies in the new register, and shares no bit with another one
there; anything else would mean merging or guessing bits, and is a conflict.

The new value is described from its own side: the bit at a position comes from the field
that covers the position in the new layout, and is unknown if no field does.
-/

namespace RegisterMigration

/-- Where a field lies in the old and in the new context register. -/
structure FieldMove where
  name : String
  old : BitRange
  new : BitRange
  deriving DecidableEq, Repr

/-- Whether a field keeps its bits. -/
def FieldMove.unmoved (m : FieldMove) : Bool :=
  m.old == m.new

/-- Why the fields of two context registers cannot be carried over. -/
inductive ContextConflict where
  /-- A field has become wider or narrower. -/
  | widthChanged (m : FieldMove)
  /-- A field ends outside the new register. -/
  | outOfRange (m : FieldMove) (width : UInt32)
  /-- Two fields share bits of the new register. -/
  | overlap (first second : FieldMove)
  deriving DecidableEq, Repr

/-- The wording of each conflict. -/
def ContextConflict.message : ContextConflict → String
  | widthChanged m =>
    s!"field '{m.name}' changed width from {m.old.width} to {m.new.width} bits "
      ++ s!"({m.old} -> {m.new})"
  | outOfRange m width =>
    s!"field '{m.name}' at {m.new} does not fit the {width}-bit context register"
  | overlap first second =>
    s!"fields '{first.name}' and '{second.name}' overlap in the new layout"

/-- How the bits of the old context register are carried over into the new one. -/
structure ContextMap where
  /-- The new context register. -/
  register : RegisterId
  width : UInt32
  /-- Whether both registers have the same width and the same fields at the same bits. -/
  identity : Bool
  /-- Fields of both registers, in old order. -/
  moves : List FieldMove
  /-- Names of old fields that the new register lacks. -/
  dropped : List String
  /-- Names of new fields that the old register lacks. -/
  added : List String
  deriving DecidableEq, Repr

namespace ContextMap

/-- The fields that both languages have, in the order of the old one. -/
def movesBetween (old new : Language) : List FieldMove :=
  old.contextFields.filterMap fun f =>
    (new.contextField? f.name).map fun g => ⟨f.name, f.range, g.range⟩

/-- The names of the fields of `a` that `b` lacks, in the order of `a`. -/
def missingFrom (a b : Language) : List String :=
  (a.contextFields.filter fun f => (b.contextField? f.name).isNone).map (·.name)

/-- What keeps a field from being carried over by itself. -/
def moveConflict? (width : UInt32) (m : FieldMove) : Option ContextConflict :=
  if m.old.width ≠ m.new.width then some (.widthChanged m)
  else if width ≤ m.new.hi then some (.outOfRange m width)
  else none

/-- The first field that shares new bits with a later one, and the first such. -/
def overlapConflict? : List FieldMove → Option ContextConflict
  | [] => none
  | m :: ms =>
    match ms.find? (m.new.overlaps ·.new) with
    | some n => some (.overlap m n)
    | none => overlapConflict? ms

/-- The first conflict: of the fields by themselves, and then of two fields. -/
def conflict? (width : UInt32) (moves : List FieldMove) : Option ContextConflict :=
  (moves.findSome? (moveConflict? width)).or (overlapConflict? moves)

/-- Carries the fields of one register over into another one. -/
def build (old : Language) (oldRegister : Register) (new : Language) (newRegister : Register) :
    Except ContextConflict ContextMap :=
  let moves := movesBetween old new
  let dropped := missingFrom old new
  let added := missingFrom new old
  match conflict? newRegister.bitSize moves with
  | some c => .error c
  | none =>
    .ok {
      register := newRegister.id
      width := newRegister.bitSize
      identity := oldRegister.bitSize == newRegister.bitSize && dropped.isEmpty && added.isEmpty
        && moves.all (·.unmoved)
      moves, dropped, added }

/-- A value of the old context register carried over into the new one. -/
def apply (c : ContextMap) (v : PartialValue) : PartialValue :=
  .ofBits c.register c.width fun j =>
    (c.moves.find? (·.new.covers j)).bind fun m =>
      v.bit (m.old.lo.toNat + (j - m.new.lo.toNat))

end ContextMap

end RegisterMigration
