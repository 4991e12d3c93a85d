import RegisterMigration.Definition.Basic
import RegisterMigration.Toml.Decode
import RegisterMigration.Toml.Document

/-!
# Definitions in TOML documents

A definition is the top table of a TOML document: the identity of the language under keys
of its own, and its parts in lists of records. The whole document has to be well-formed
before anything in it is looked at.
-/

namespace RegisterMigration

open Toml (DecodeError Decoder Node RecordShape decodeBoolean decodeList decodePair
  decodeString decodeUInt32 decodeUInt64 decodeWord)

/-- Why a text does not hold a definition. -/
inductive DocumentError where
  /-- The text is not TOML. -/
  | syntaxFault
  /-- The text is TOML, and something in it is not what its place asks for. -/
  | contents (e : DecodeError)

/-! ## Compiler specifications -/

/-- The fields of a compiler specification found so far. -/
structure CompilerSpec.Draft where
  id : Option String := none
  name : Option String := none

/-- A compiler specification in a document. -/
def CompilerSpec.shape : RecordShape CompilerSpec.Draft CompilerSpec where
  name := "struct CompilerSpecDescriptor"
  keys := ["id", "name"]
  required := 2
  empty := {}
  set d key v :=
    match key with
    | "id" => (decodeString v).map fun s => { d with id := some s }
    | "name" => (decodeString v).map fun s => { d with name := some s }
    | _ => .ok d
  finish d := do
    let id ← RecordShape.require "id" d.id
    let name ← RecordShape.require "name" d.name
    return { id, name }

/-! ## Address spaces -/

/-- The fields of an address space found so far. -/
structure AddressSpace.Draft where
  name : Option String := none
  kind : Option SpaceKind := none
  size : Option UInt32 := none
  isDefault : Bool := false

/-- An address space in a document. -/
def AddressSpace.shape : RecordShape AddressSpace.Draft AddressSpace where
  name := "struct AddressSpace"
  keys := ["name", "kind", "size", "default"]
  required := 3
  empty := {}
  set d key v :=
    match key with
    | "name" => (decodeString v).map fun s => { d with name := some s }
    | "kind" => (decodeWord SpaceKind.all SpaceKind.name v).map fun k => { d with kind := some k }
    | "size" => (decodeUInt32 v).map fun n => { d with size := some n }
    | "default" => (decodeBoolean v).map fun b => { d with isDefault := b }
    | _ => .ok d
  finish d := do
    let name ← RecordShape.require "name" d.name
    let kind ← RecordShape.require "kind" d.kind
    let size ← RecordShape.require "size" d.size
    return { name, kind, size, isDefault := d.isDefault }

/-! ## Registers -/

/-- The fields of a register found so far. -/
structure RegisterDecl.Draft where
  name : Option String := none
  space : Option String := none
  offset : Option UInt64 := none
  bitSize : Option UInt32 := none
  context : Bool := false

/-- A register in a document. -/
def RegisterDecl.shape : RecordShape RegisterDecl.Draft RegisterDecl where
  name := "struct RegisterDef"
  keys := ["name", "space", "offset", "bit-size", "context"]
  required := 4
  empty := {}
  set d key v :=
    match key with
    | "name" => (decodeString v).map fun s => { d with name := some s }
    | "space" => (decodeString v).map fun s => { d with space := some s }
    | "offset" => (decodeUInt64 v).map fun n => { d with offset := some n }
    | "bit-size" => (decodeUInt32 v).map fun n => { d with bitSize := some n }
    | "context" => (decodeBoolean v).map fun b => { d with context := b }
    | _ => .ok d
  finish d := do
    let name ← RecordShape.require "name" d.name
    let space ← RecordShape.require "space" d.space
    let offset ← RecordShape.require "offset" d.offset
    let bitSize ← RecordShape.require "bit-size" d.bitSize
    return { name, space, offset, bitSize, context := d.context }

/-! ## Context fields -/

/-- A bit range in a document: a list of its two ends. -/
def BitRange.decode : Decoder BitRange := fun v =>
  (decodePair decodeUInt32 v).map fun (lo, hi) => ⟨lo, hi⟩

/-- The fields of a context field found so far. -/
structure ContextField.Draft where
  name : Option String := none
  range : Option BitRange := none

/-- A context field in a document. -/
def ContextField.shape : RecordShape ContextField.Draft ContextField where
  name := "struct ContextFieldDef"
  keys := ["name", "range"]
  required := 2
  empty := {}
  set d key v :=
    match key with
    | "name" => (decodeString v).map fun s => { d with name := some s }
    | "range" => (BitRange.decode v).map fun r => { d with range := some r }
    | _ => .ok d
  finish d := do
    let name ← RecordShape.require "name" d.name
    let range ← RecordShape.require "range" d.range
    return { name, range }

/-! ## The whole document -/

/-- A version in a document: a string. -/
def Version.decode : Decoder Version := fun v => do
  let text ← decodeString v
  match Version.parse text with
  | .ok version => .ok version
  | .error e => .error (.malformed e.message)

namespace Definition

/-- The parts of a definition found so far. -/
structure Draft where
  id : Option String := none
  processor : Option String := none
  endianness : Option Endianness := none
  version : Option Version := none
  defaultCompilerSpec : Option String := none
  compilerSpecs : List CompilerSpec := []
  spaces : List AddressSpace := []
  registers : List RegisterDecl := []
  contextFields : List ContextField := []

/-- Fills in a part of a definition. -/
def Draft.set (d : Draft) (key : String) (v : Node) : Except DecodeError Draft :=
  match key with
  | "id" => (decodeString v).map fun s => { d with id := some s }
  | "processor" => (decodeString v).map fun s => { d with processor := some s }
  | "endianness" =>
    (decodeWord Endianness.all Endianness.name v).map fun e => { d with endianness := some e }
  | "version" => (Version.decode v).map fun n => { d with version := some n }
  | "default-compiler-spec" =>
    (decodeString v).map fun s => { d with defaultCompilerSpec := some s }
  | "compiler-spec" =>
    (decodeList CompilerSpec.shape.decode v).map fun l => { d with compilerSpecs := l }
  | "space" => (decodeList AddressSpace.shape.decode v).map fun l => { d with spaces := l }
  | "register" => (decodeList RegisterDecl.shape.decode v).map fun l => { d with registers := l }
  | "context-field" =>
    (decodeList ContextField.shape.decode v).map fun l => { d with contextFields := l }
  | _ => .ok d

/-- The definition, if nothing is missing. -/
def Draft.finish (d : Draft) : Except DecodeError Definition := do
  let id ← RecordShape.require "id" d.id
  let processor ← RecordShape.require "processor" d.processor
  let endianness ← RecordShape.require "endianness" d.endianness
  let version ← RecordShape.require "version" d.version
  let defaultCompilerSpec ← RecordShape.require "default-compiler-spec" d.defaultCompilerSpec
  return {
    id, processor, endianness, version, defaultCompilerSpec
    compilerSpecs := d.compilerSpecs
    spaces := d.spaces
    registers := d.registers
    contextFields := d.contextFields }

/-- The definition that the entries of a document's top table hold. -/
def ofEntries (entries : Toml.Entries) : Except DecodeError Definition := do
  let d ← entries.foldlM (fun d (key, v) => Draft.set d key v) {}
  d.finish

/-- Reads a definition from the text of a TOML document. -/
def ofToml (text : String) : Except DocumentError Definition :=
  match Toml.parse? text with
  | none => .error .syntaxFault
  | some entries =>
    match ofEntries entries with
    | .ok d => .ok d
    | .error e => .error (.contents e)

end Definition

end RegisterMigration
