import RegisterMigration.Definition.Canonical
import RegisterMigration.Definition.Issue

/-!
# Loaded languages

A language is a definition without errors, together with what is resolved once when it is
loaded: the table of its registers, its default compiler specification and its
fingerprint. The proof fields say that these belong to the definition, so a language can
only come from `Language.load`, and everything else is read off.
-/

namespace RegisterMigration

/-- A definition without errors, with its references resolved. -/
structure Language where
  definition : Definition
  /-- The registers with their parents, indexed by register id. -/
  registers : Array Register
  defaultCompilerSpec : CompilerSpec
  fingerprint : Fingerprint
  errors_eq_nil : definition.errors = []
  registers_eq : registers = Register.table definition.registers
  find_default : definition.compilerSpecs.find? (·.id == definition.defaultCompilerSpec)
    = some defaultCompilerSpec
  fingerprint_eq : fingerprint = definition.fingerprint

/-- The errors that kept a definition from being loaded. -/
structure LoadError where
  issues : List Issue
  deriving DecidableEq, Repr

/-- The wording of a failed load: all errors in one line. -/
def LoadError.message (e : LoadError) : String :=
  "validation error: " ++ "; ".intercalate (e.issues.map Issue.message)

namespace Language

/-- Loads a definition, if it has no errors. Warnings do not matter. -/
def load (d : Definition) : Except LoadError Language :=
  if herr : d.errors = [] then
    match hspec : d.compilerSpecs.find? (·.id == d.defaultCompilerSpec) with
    | some spec => .ok ⟨d, _, spec, _, herr, rfl, hspec, rfl⟩
    | none => .error ⟨[.undeclaredDefault d.defaultCompilerSpec]⟩
  else .error ⟨d.errors⟩

instance : ToString Language where
  toString l := l.definition.title

/-- The version of the language. -/
def key (l : Language) : VersionKey :=
  l.definition.key

/-! ## Looking things up -/

/-- The register with an id. -/
def registerById? (l : Language) (id : RegisterId) : Option Register :=
  l.registers[id.index]?

/-- The register with a name. -/
def register? (l : Language) (name : String) : Option Register :=
  l.registers.find? (·.name == name)

/-- The register that occupies exactly `length` bytes at an offset of a space. -/
def registerAt? (l : Language) (space : String) (offset : UInt64) (length : Nat) :
    Option Register :=
  l.registers.find? (·.hasSpan space offset length)

/-- The processor-context register. -/
def contextRegister? (l : Language) : Option Register :=
  l.registers.find? (·.context)

/-- The address space with a name. -/
def space? (l : Language) (name : String) : Option AddressSpace :=
  l.definition.space? name

/-- The default data space. -/
def defaultSpace? (l : Language) : Option AddressSpace :=
  l.definition.spaces.find? (·.isDefault)

/-- The fields of the context register; none where there is no context register. -/
def contextFields (l : Language) : List ContextField :=
  if l.contextRegister?.isSome then l.definition.contextFields else []

/-- The context field with a name. -/
def contextField? (l : Language) (name : String) : Option ContextField :=
  l.contextFields.find? (·.name == name)

/-- The compiler specification with an identifier. -/
def compilerSpec? (l : Language) (id : String) : Option CompilerSpec :=
  l.definition.compilerSpecs.find? (·.id == id)

end Language

end RegisterMigration
