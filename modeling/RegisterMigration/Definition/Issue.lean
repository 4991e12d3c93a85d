import RegisterMigration.Definition.Basic

/-!
# What is wrong with a definition

A definition is judged as a whole: every issue is found, in a fixed order, from the
identity of the language to the fields of its context register. Errors keep a definition
from being loaded; the one warning, that two context fields share bits, does not.

All comparisons of offsets are between natural numbers, so a register that runs past the
last offset of a 64-bit space is out of bounds, and never wraps to its beginning.
-/

namespace RegisterMigration

/-- How serious an issue is. -/
inductive Severity where
  /-- The definition cannot be loaded. -/
  | error
  /-- The definition can be loaded, but something about it is suspicious. -/
  | warning
  deriving DecidableEq, Repr

/-- The word for a severity. -/
def Severity.name : Severity → String
  | .error => "error"
  | .warning => "warning"

/-- Something that is wrong with a definition. -/
inductive Issue where
  /-- The identifier holds nothing but blanks. -/
  | blankId
  /-- The processor holds nothing but blanks. -/
  | blankProcessor
  /-- A compiler specification has the identifier of an earlier one. -/
  | repeatedCompilerSpec (id : String)
  /-- The default compiler specification is none of those declared. -/
  | undeclaredDefault (id : String)
  /-- An address space has the name of an earlier one. -/
  | repeatedSpace (name : String)
  /-- Addresses of a space are not one to eight bytes long. -/
  | spaceSize (space : AddressSpace)
  /-- More than one space is the default one. -/
  | severalDefaultSpaces
  /-- A register has the name of an earlier one. -/
  | repeatedRegister (name : String)
  /-- A register has no bits. -/
  | emptyRegister (name : String)
  /-- A register is in a space that is not declared. -/
  | unknownSpace (register : RegisterDecl)
  /-- A register does not end inside its space. -/
  | outsideSpace (register : RegisterDecl)
  /-- More than one register is the context register. -/
  | severalContexts (count : Nat)
  /-- Two registers have the same bytes. -/
  | sameBytes (first second : RegisterDecl)
  /-- Two registers share bytes, and neither holds all bytes of the other. -/
  | partialOverlap (first second : RegisterDecl)
  /-- There are context fields and no context register. -/
  | fieldsWithoutContext
  /-- A context field has the name of an earlier one. -/
  | repeatedField (name : String)
  /-- The ends of a field's range are exchanged. -/
  | invertedField (field : ContextField)
  /-- A field ends outside the context register. -/
  | fieldOutside (field : ContextField) (width : UInt32)
  /-- Two context fields share bits. -/
  | fieldsOverlap (first second : ContextField)
  deriving DecidableEq, Repr

namespace Issue

/-- How serious an issue is: only overlapping fields are tolerated. -/
def severity : Issue → Severity
  | fieldsOverlap .. => .warning
  | _ => .error

/-- The span of a register, from its first byte to its last. -/
def spanText (r : RegisterDecl) : String :=
  s!"0x{Text.upperHex r.offset.toNat}..=0x{Text.upperHex r.lastByte}"

/-- The wording of an issue. -/
def message : Issue → String
  | blankId => "language id is empty"
  | blankProcessor => "processor is empty"
  | repeatedCompilerSpec id => s!"compiler spec '{id}' declared more than once"
  | undeclaredDefault id => s!"default compiler spec '{id}' is not declared"
  | repeatedSpace name => s!"address space '{name}' declared more than once"
  | spaceSize s => s!"address space '{s.name}' has size {s.size} (expected 1..=8 bytes)"
  | severalDefaultSpaces => "more than one address space is marked default"
  | repeatedRegister name => s!"register '{name}' declared more than once"
  | emptyRegister name => s!"register '{name}' has bit size 0"
  | unknownSpace r => s!"register '{r.name}' references unknown address space '{r.space}'"
  | outsideSpace r =>
    s!"register '{r.name}' at 0x{Text.upperHex r.offset.toNat} does not fit in address space "
      ++ s!"'{r.space}'"
  | severalContexts count =>
    s!"{count} registers are marked as processor context (expected at most one)"
  | sameBytes a b => s!"registers '{a.name}' and '{b.name}' occupy the same bytes"
  | partialOverlap a b =>
    s!"registers '{a.name}' ({spanText a}) and '{b.name}' ({spanText b}) partially overlap"
  | fieldsWithoutContext => "context fields declared without a processor-context register"
  | repeatedField name => s!"context field '{name}' declared more than once"
  | invertedField f => s!"context field '{f.name}' has inverted range {f.range}"
  | fieldOutside f width =>
    s!"context field '{f.name}' range {f.range} exceeds the {width}-bit context register"
  | fieldsOverlap a b =>
    s!"context fields '{a.name}' {a.range} and '{b.name}' {b.range} overlap"

end Issue

namespace Definition

/-! ## Walking through lists -/

/-- An issue where a condition holds. -/
def issueIf (p : Bool) (i : Issue) : List Issue :=
  if p then [i] else []

/-- What `f` finds at each item, given the items before it; `seen` precedes the list. -/
def checkEach {α : Type} (f : List α → α → List Issue) (seen : List α) : List α → List Issue
  | [] => []
  | x :: xs => f seen x ++ checkEach f (seen ++ [x]) xs

/-- The pairs of an item and a later one, ordered by the first and then by the second. -/
def pairs {α : Type} : List α → List (α × α)
  | [] => []
  | x :: xs => xs.map (fun y => (x, y)) ++ pairs xs

/-! ## The parts of a definition -/

/-- Issues of the language's identity. -/
def identityIssues (d : Definition) : List Issue :=
  issueIf (Text.allBlank d.id) .blankId ++ issueIf (Text.allBlank d.processor) .blankProcessor

/-- Issues of the compiler specifications. -/
def compilerSpecIssues (d : Definition) : List Issue :=
  checkEach (fun seen (c : CompilerSpec) =>
      issueIf (seen.any (·.id == c.id)) (.repeatedCompilerSpec c.id)) [] d.compilerSpecs
    ++ issueIf (!d.compilerSpecs.any (·.id == d.defaultCompilerSpec))
      (.undeclaredDefault d.defaultCompilerSpec)

/-- Issues of the address spaces. -/
def spaceIssues (d : Definition) : List Issue :=
  checkEach (fun seen (s : AddressSpace) =>
      issueIf (seen.any (·.name == s.name)) (.repeatedSpace s.name)
        ++ issueIf (s.size == 0 || 8 < s.size) (.spaceSize s)) [] d.spaces
    ++ issueIf (1 < d.spaces.countP (·.isDefault)) .severalDefaultSpaces

/-- Whether a register's last byte has an offset in a space. -/
def fits (r : RegisterDecl) (s : AddressSpace) : Bool :=
  r.offset.toNat + (r.byteLen - 1) ≤ s.maxOffset

/-- Issues of a register's place in its space. -/
def placeIssues (d : Definition) (r : RegisterDecl) : List Issue :=
  match d.space? r.space with
  | none => [.unknownSpace r]
  | some s => issueIf (!fits r s) (.outsideSpace r)

/-- Issues of the registers taken one by one. -/
def registerIssues (d : Definition) : List Issue :=
  checkEach (fun seen (r : RegisterDecl) =>
    issueIf (seen.any (·.name == r.name)) (.repeatedRegister r.name)
      ++ issueIf (r.bitSize == 0) (.emptyRegister r.name)
      ++ d.placeIssues r) [] d.registers

/-- The registers that are marked as the context register. -/
def contexts (d : Definition) : List RegisterDecl :=
  d.registers.filter (·.context)

/-- Issues of the choice of the context register. -/
def contextIssues (d : Definition) : List Issue :=
  issueIf (1 < d.contexts.length) (.severalContexts d.contexts.length)

/-- Whether all bytes of `s` are bytes of `r`, where both are in one space. -/
def encloses (r s : RegisterDecl) : Bool :=
  r.offset ≤ s.offset && s.lastByte ≤ r.lastByte

/-- Issues of two registers. Those in different spaces and those without bits are left
alone. -/
def pairIssues (p : RegisterDecl × RegisterDecl) : List Issue :=
  let (a, b) := p
  if a.space != b.space || a.bitSize == 0 || b.bitSize == 0 then []
  else if a.offset == b.offset && a.lastByte == b.lastByte then [.sameBytes a b]
  else issueIf (a.overlaps b && !(encloses a b || encloses b a)) (.partialOverlap a b)

/-- Issues of the registers taken two by two. -/
def spanIssues (d : Definition) : List Issue :=
  (pairs d.registers).flatMap pairIssues

/-- Issues of a field's range in a context register of `width` bits. -/
def rangeIssues (width : UInt32) (f : ContextField) : List Issue :=
  if f.range.hi < f.range.lo then [.invertedField f]
  else issueIf (width ≤ f.range.hi) (.fieldOutside f width)

/-- Issues of the context fields. -/
def fieldIssues (d : Definition) : List Issue :=
  match d.contexts with
  | [] => issueIf (!d.contextFields.isEmpty) .fieldsWithoutContext
  | context :: _ =>
    checkEach (fun seen (f : ContextField) =>
        issueIf (seen.any (·.name == f.name)) (.repeatedField f.name)
          ++ rangeIssues context.bitSize f) [] d.contextFields
      ++ (pairs d.contextFields).flatMap fun (a, b) =>
        issueIf (a.range.overlaps b.range) (.fieldsOverlap a b)

/-! ## The whole -/

/-- Everything that is wrong with a definition, in the order in which it is reported. -/
def issues (d : Definition) : List Issue :=
  d.identityIssues ++ d.compilerSpecIssues ++ d.spaceIssues ++ d.registerIssues
    ++ d.contextIssues ++ d.spanIssues ++ d.fieldIssues

/-- The issues that keep a definition from being loaded. -/
def errors (d : Definition) : List Issue :=
  d.issues.filter (·.severity == .error)

end Definition

end RegisterMigration
