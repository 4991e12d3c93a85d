import RegisterMigration.Command.Basic
import RegisterMigration.Json.Pretty

/-!
# The command `check`

Says whether values can be carried from one version of a language to another, and what
changes: registers that are removed or converted, and context fields that come, go or move.
-/

namespace RegisterMigration.Command

/-! ## For readers -/

/-- A name, filled up with blanks to twelve characters. -/
def nameColumn (name : String) : String :=
  name ++ String.ofList (List.replicate (12 - name.length) ' ')

/-- The lines of a register: none if its values go over as they are. -/
def registerLines (m : Migrator) (r : Register) : List String :=
  match m.newRegister? r.id with
  | none => [s!"  {nameColumn r.name} removed"]
  | some n =>
    if m.converts r.id then
      [s!"  {nameColumn r.name} -> {n.name} (0x{Text.upperHex n.offset.toNat}, {n.bitSize} bits), "
        ++ "value translation required"]
    else []

/-- The lines of the context fields. -/
def fieldLines (c : ContextMap) : List String :=
  c.dropped.map (fun name => s!"  context field '{name}' dropped")
    ++ c.added.map (fun name => s!"  context field '{name}' added")
    ++ (c.moves.filter (!·.unmoved)).map fun f =>
      s!"  context field '{f.name}' moved {f.old} -> {f.new}"

/-- The lines of a pair of versions between which values can be carried over. -/
def summaryLines (m : Migrator) : List String :=
  [s!"{m}: supported",
   s!"  {m.mappedCount} of {m.old.registers.size} registers mapped"]
    ++ m.old.registers.toList.flatMap (registerLines m)
    ++ m.context.toList.flatMap fieldLines

/-! ## As JSON -/

/-- What becomes of a register. -/
def registerRow (m : Migrator) (r : Register) : Json :=
  .object
    [("name", .string r.name),
     ("new", .ofString? ((m.newRegister? r.id).map (·.name))),
     ("requires_value_translation", .bool (m.converts r.id))]

/-- A decision, with the keys in alphabetical order. -/
def decisionJson : Except Obstacle Migrator → Json
  | .ok m =>
    .object
      [("mapped_registers", .number m.mappedCount),
       ("new", .string (toString m.new)),
       ("old", .string (toString m.old)),
       ("registers", .array (m.old.registers.toList.map (registerRow m))),
       ("supported", .bool true)]
  | .error o => .object [("reason", .string o.message), ("supported", .bool false)]

/-! ## The command -/

/-- Decides about two versions of a language, and fails if values cannot be carried over. -/
def check (old new : SourceFile) (format : Format) : Command Unit := do
  let decision ← decide old new
  match format with
  | .json => printLine (decisionJson decision).pretty
  | .text =>
    match decision with
    | .ok m => printLines (summaryLines m)
    | .error _ => pure ()
  let _ ← orFail refusal decision

end RegisterMigration.Command
