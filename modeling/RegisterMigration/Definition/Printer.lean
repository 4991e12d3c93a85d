import RegisterMigration.Definition.Basic
import RegisterMigration.Toml.Spelling

/-!
# Writing definitions as TOML documents

A document starts with the identity of the language. Lists without records follow as empty
arrays, and after them comes a section for each record of the others. A register says that
it is the context register only if it is.

TOML integers end at `2 ^ 63 - 1`, and a register may lie above that: such a definition has
no document.
-/

namespace RegisterMigration

open Toml (writeAssignment writeBool writeElementHeader writeNat writePair writeString)

/-- A compiler specification as a section. -/
def CompilerSpec.toSection (c : CompilerSpec) : List Char :=
  writeElementHeader "compiler-spec"
    ++ writeAssignment "id" (writeString c.id)
    ++ writeAssignment "name" (writeString c.name)

/-- An address space as a section. -/
def AddressSpace.toSection (s : AddressSpace) : List Char :=
  writeElementHeader "space"
    ++ writeAssignment "name" (writeString s.name)
    ++ writeAssignment "kind" (writeString s.kind.name)
    ++ writeAssignment "size" (writeNat s.size.toNat)
    ++ writeAssignment "default" (writeBool s.isDefault)

/-- A register as a section. -/
def RegisterDecl.toSection (r : RegisterDecl) : List Char :=
  writeElementHeader "register"
    ++ writeAssignment "name" (writeString r.name)
    ++ writeAssignment "space" (writeString r.space)
    ++ writeAssignment "offset" (writeNat r.offset.toNat)
    ++ writeAssignment "bit-size" (writeNat r.bitSize.toNat)
    ++ if r.context then writeAssignment "context" (writeBool true) else []

/-- A context field as a section. -/
def ContextField.toSection (f : ContextField) : List Char :=
  writeElementHeader "context-field"
    ++ writeAssignment "name" (writeString f.name)
    ++ writeAssignment "range" (writePair f.range.lo.toNat f.range.hi.toNat)

namespace Definition

/-- A list without records, as an assignment; nothing where there are records. -/
def emptyList {α : Type} (key : String) : List α → List Char
  | [] => writeAssignment key ['[', ']']
  | _ :: _ => []

/-- The document of a definition, offsets of any size taken as they are. -/
def documentChars (d : Definition) : List Char :=
  writeAssignment "id" (writeString d.id)
    ++ writeAssignment "processor" (writeString d.processor)
    ++ writeAssignment "endianness" (writeString d.endianness.name)
    ++ writeAssignment "version" (writeString (toString d.version))
    ++ writeAssignment "default-compiler-spec" (writeString d.defaultCompilerSpec)
    ++ emptyList "compiler-spec" d.compilerSpecs
    ++ emptyList "space" d.spaces
    ++ emptyList "register" d.registers
    ++ emptyList "context-field" d.contextFields
    ++ d.compilerSpecs.flatMap CompilerSpec.toSection
    ++ d.spaces.flatMap AddressSpace.toSection
    ++ d.registers.flatMap RegisterDecl.toSection
    ++ d.contextFields.flatMap ContextField.toSection

/-- Whether all numbers of a definition are TOML integers. -/
def writable (d : Definition) : Bool :=
  d.registers.all (·.offset.toNat < UInt64.size / 2)

/-- The document of a definition; `none` if a register's offset is no TOML integer. -/
def toToml? (d : Definition) : Option String :=
  if d.writable then some (String.ofList d.documentChars) else none

end Definition

end RegisterMigration
