import RegisterMigration.Command.Basic
import RegisterMigration.Json.Pretty

/-!
# The command `register`

Says where the register at some bytes of the old version is in the new one.
-/

namespace RegisterMigration.Command

/-- A register in a line. -/
def registerText (r : Register) : String :=
  let kind := if r.context then " context" else ""
  s!"{r.name} {r.space}:0x{Text.upperHex r.offset.toNat} ({r.bitSize} bits{kind})"

/-- A register as JSON, with the keys in alphabetical order. -/
def registerJson (r : Register) : Json :=
  .object
    [("bit_size", .number r.bitSize.toNat),
     ("context", .bool r.context),
     ("name", .string r.name),
     ("offset", .number r.offset.toNat),
     ("space", .string r.space)]

/-- The parent of the register that an old one corresponds to. -/
def newParent? (m : Migrator) (new : Option Register) : Option Register :=
  new.bind fun n => m.new.parentOf? n.id

/-- The answer as JSON, with the keys in alphabetical order. -/
def locationJson (m : Migrator) (r : Register) : Json :=
  let new := m.newRegister? r.id
  .object
    [("new", (new.map registerJson).getD .null),
     ("new_parent", .ofString? ((newParent? m new).map (·.name))),
     ("old", registerJson r),
     ("requires_value_translation", .bool (m.converts r.id))]

/-- The answer for readers. -/
def locationLines (m : Migrator) (r : Register) : List String :=
  s!"old: {registerText r}" ::
    match m.newRegister? r.id with
    | none => ["new: (removed)"]
    | some n =>
      s!"new: {registerText n}"
        :: (newParent? m (some n)).toList.map (fun p => s!"     parent {p.name}")
        ++ ["value translation required: " ++ if m.converts r.id then "yes" else "no"]

/-- Says where the register at `length` bytes of a space went. -/
def locateRegister (old new : SourceFile) (space : String) (offset length : UInt64)
    (format : Format) : Command Unit := do
  let m ← loadMigrator old new
  let r ← orFail RequestError.message (m.oldRegisterAt space offset length)
  match format with
  | .json => printLine (locationJson m r).pretty
  | .text => printLines (locationLines m r)

end RegisterMigration.Command
