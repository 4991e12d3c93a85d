import RegisterMigration.AddressSpace
import RegisterMigration.BitRange
import RegisterMigration.CompilerSpec
import RegisterMigration.Register
import RegisterMigration.Version

/-!
# Language definitions

A definition describes one version of a processor language: its address spaces, its
registers in order, the fields of its processor-context register, and its compiler
specifications. It is what a document holds, and nothing about it has been checked yet.
-/

namespace RegisterMigration

/-- The byte order of a processor. -/
inductive Endianness where
  /-- The lowest address holds the least significant byte. -/
  | little
  /-- The lowest address holds the most significant byte. -/
  | big
  deriving DecidableEq, Repr

/-- The word for a byte order. -/
def Endianness.name : Endianness → String
  | .little => "little"
  | .big => "big"

/-- The byte orders, in the order in which they are listed. -/
def Endianness.all : List Endianness :=
  [.little, .big]

/-- The description of one version of a processor language. -/
structure Definition where
  id : String
  /-- The processor family. -/
  processor : String
  endianness : Endianness
  version : Version
  /-- Identifier of the compiler specification that counts where none is given. -/
  defaultCompilerSpec : String
  compilerSpecs : List CompilerSpec := []
  spaces : List AddressSpace := []
  registers : List RegisterDecl := []
  contextFields : List ContextField := []
  deriving DecidableEq, Repr

namespace Definition

/-- The version of the language that is described. -/
def key (d : Definition) : VersionKey :=
  ⟨d.id, d.version⟩

/-- How a definition is named in messages. -/
def title (d : Definition) : String :=
  toString d.key

/-- The first address space with a name. -/
def space? (d : Definition) (name : String) : Option AddressSpace :=
  d.spaces.find? (·.name == name)

end Definition

end RegisterMigration
