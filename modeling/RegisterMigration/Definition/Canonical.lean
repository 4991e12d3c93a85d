import RegisterMigration.Definition.Basic
import RegisterMigration.Hash.Sha256
import RegisterMigration.Json.Compact
import RegisterMigration.Text.HexBytes

/-!
# Canonical form and fingerprints

The canonical form of a definition is a JSON value: every field under its document key, in
a fixed order, with all lists present. A space always says whether it is the default one;
a register says that it is the context register only if it is. The SHA-256 digest of the
compact text is the definition's fingerprint, so definitions that differ only in how their
documents are laid out share it.
-/

namespace RegisterMigration

/-- A register in canonical form. -/
def RegisterDecl.toJson (r : RegisterDecl) : Json :=
  .object <|
    [("name", .string r.name),
     ("space", .string r.space),
     ("offset", .number r.offset.toNat),
     ("bit-size", .number r.bitSize.toNat)]
    ++ if r.context then [("context", .bool true)] else []

/-- An address space in canonical form. -/
def AddressSpace.toJson (s : AddressSpace) : Json :=
  .object
    [("name", .string s.name),
     ("kind", .string s.kind.name),
     ("size", .number s.size.toNat),
     ("default", .bool s.isDefault)]

/-- A compiler specification in canonical form. -/
def CompilerSpec.toJson (c : CompilerSpec) : Json :=
  .object [("id", .string c.id), ("name", .string c.name)]

/-- A context field in canonical form. -/
def ContextField.toJson (f : ContextField) : Json :=
  .object
    [("name", .string f.name),
     ("range", .array [.number f.range.lo.toNat, .number f.range.hi.toNat])]

/-- The SHA-256 digest of some content, in hexadecimal. -/
structure Fingerprint where
  hex : String
  deriving DecidableEq, Repr

namespace Fingerprint

/-- The fingerprint of bytes. -/
def ofBytes (bytes : List UInt8) : Fingerprint :=
  ⟨Text.toHex (Hash.Sha256.digest bytes)⟩

/-- The first twelve digits, for messages. -/
def short (f : Fingerprint) : String :=
  String.ofList (f.hex.toList.take 12)

end Fingerprint

namespace Definition

/-- A definition in canonical form. -/
def toJson (d : Definition) : Json :=
  .object
    [("id", .string d.id),
     ("processor", .string d.processor),
     ("endianness", .string d.endianness.name),
     ("version", .string (toString d.version)),
     ("default-compiler-spec", .string d.defaultCompilerSpec),
     ("compiler-spec", .array (d.compilerSpecs.map CompilerSpec.toJson)),
     ("space", .array (d.spaces.map AddressSpace.toJson)),
     ("register", .array (d.registers.map RegisterDecl.toJson)),
     ("context-field", .array (d.contextFields.map ContextField.toJson))]

/-- The bytes that a definition's fingerprint is taken of. -/
def canonicalBytes (d : Definition) : List UInt8 :=
  d.toJson.compact.toUTF8.toList

/-- The fingerprint of a definition. -/
def fingerprint (d : Definition) : Fingerprint :=
  .ofBytes d.canonicalBytes

end Definition

end RegisterMigration
