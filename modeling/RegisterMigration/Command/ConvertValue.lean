import RegisterMigration.Command.Basic
import RegisterMigration.Json.Pretty
import RegisterMigration.Text.HexBytes

/-!
# The command `translate`

Carries a partially known value of an old register over into the new version. The value is
given as two hexadecimal numbers, the mask of its known bits and the bits themselves.
-/

namespace RegisterMigration.Command

/-- The value of a register that two hexadecimal numbers give. -/
def readValue (r : Register) (mask value : String) : Command PartialValue := do
  let mask ← orFail Text.HexError.message (Text.readHexBytes mask r.byteLen)
  let value ← orFail Text.HexError.message (Text.readHexBytes value r.byteLen)
  orFail ValueError.message (PartialValue.ofBytes r.id r.bitSize mask value)

/-- The name of a value's register, or nothing if the language has no such register. -/
def registerName (l : Language) (v : PartialValue) : String :=
  ((l.registerById? v.register).map (·.name)).getD ""

/-- A value and its pattern as JSON, with the keys in alphabetical order. -/
def valueJson (l : Language) (v : PartialValue) (pattern : String) : Json :=
  .object
    [("mask", .string (Text.toHex v.maskBytes)),
     ("pattern", .string pattern),
     ("register", .string (registerName l v)),
     ("value", .string (Text.toHex v.valueBytes)),
     ("width", .number v.width.toNat)]

/-- A value for readers, without its pattern. -/
def valueLines (l : Language) (v : PartialValue) : List String :=
  [s!"register: {registerName l v} ({v.width} bits)",
   s!"mask:     {Text.toHex v.maskBytes}",
   s!"value:    {Text.toHex v.valueBytes}"]

/-- Shows a value. For readers the pattern is the last line, so that the others are there even if
the program stops at the pattern. -/
def showValue (l : Language) (v : PartialValue) : Format → Command Unit
  | .json => do printLine (valueJson l v (← orStop v.pattern)).pretty
  | .text => do
    printLines (valueLines l v)
    printLine s!"pattern:  {← orStop v.pattern}"

/-- Carries a value over, onto the base register if `base` is set. -/
def convertValue (old new : SourceFile) (register mask value : String) (base : Bool)
    (format : Format) : Command Unit := do
  let m ← loadMigrator old new
  let some r := m.old.register? register
    | throw (.message s!"register '{register}' not found in {m.old}")
  let v ← readValue r mask value
  let shown ← orStop v.display
  let pattern ← orStop v.pattern
  record (⟨.debug, s!"translating {shown} ({pattern})"⟩ :: m.migrateLog v)
  let result ← orFail RequestError.message (if base then m.migrateToBase v else m.migrate v)
  match format, result with
  | format, some w => showValue m.new w format
  | .json, none => printLine Json.null.pretty
  | .text, none => printLine s!"register '{register}' has no counterpart in {m.new}"

end RegisterMigration.Command
