import RegisterMigration.Decimal.Shortest
import RegisterMigration.Text.Escaped
import RegisterMigration.Toml.Node

/-!
# Taking TOML values apart

What a value has to be is said by the place it stands in: a string, a boolean, a number of
some width, one of several words, a list, or a record. A record may be written as a table,
in any order and with further keys, which are ignored, or as the list of its fields. A word
may be written as a string, or as a table whose one key it is.

Faults are reported in the order of the document: the entries of a table are taken one
after another, and only then are missing keys noticed, in the order of the fields.
-/

namespace RegisterMigration.Toml

/-- Why a value is not what its place asks for. -/
inductive DecodeError where
  /-- A record lacks a field. -/
  | missing (key : String)
  /-- A word is none of those allowed. -/
  | unknownWord (word : String) (allowed : List String)
  /-- A value is of another type. -/
  | wrongType (found : Node) (expected : String)
  /-- An integer is too large or too small for its width. -/
  | outOfRange (i : Int) (expected : String)
  /-- A record, written as a list, or a list of fixed length ends too early. -/
  | tooShort (length : Nat) (expected : String)
  /-- A word is neither a string nor a table. -/
  | noWord
  /-- A word is a table without keys. -/
  | wordTableEmpty
  /-- A word is a table of more than one key. -/
  | wordTableLong
  /-- The key of a word has a value that is not empty. -/
  | wordWithContents (v : Node)
  /-- A text of the right type is not well-formed; the message says why. -/
  | malformed (message : String)

namespace Node

/-- How a message names a value that was not expected. -/
def describe : Node → String
  | .string s => s!"string {Text.quoteForMessage s}"
  | .integer i => s!"integer `{i}`"
  | .float x => s!"floating point `{x.text}`"
  | .boolean b => s!"boolean `{b}`"
  | .dateTime => "map"
  | .array _ => "sequence"
  | .table _ _ => "map"
  | .tables _ => "sequence"

/-- What a message says was expected in place of the contents of a word's key: an array only
for tables under headers of their own, a table for all else. -/
def contentsFault : Node → String
  | .array _ => "expected empty table"
  | .tables _ => "expected empty array"
  | .table _ _ => "expected empty table"
  | .string _ => "expected table, found string"
  | .integer _ => "expected table, found integer"
  | .float _ => "expected table, found float"
  | .boolean _ => "expected table, found boolean"
  | .dateTime => "expected table, found datetime"

/-- Whether a value is an array or table without contents. -/
def isEmptyContents : Node → Bool
  | .array items => items.isEmpty
  | .tables elements => elements.isEmpty
  | .table _ entries => entries.isEmpty
  | _ => false

end Node

namespace DecodeError

/-- The words that are allowed, as a message lists them. -/
def listWords : List String → String
  | [a, b] => s!"`{a}` or `{b}`"
  | words => "one of " ++ ", ".intercalate (words.map fun w => s!"`{w}`")

/-- The wording of each cause. -/
def message : DecodeError → String
  | missing key => s!"missing field `{key}`"
  | unknownWord word allowed => s!"unknown variant `{word}`, expected {listWords allowed}"
  | wrongType found expected => s!"invalid type: {found.describe}, expected {expected}"
  | outOfRange i expected => s!"invalid value: integer `{i}`, expected {expected}"
  | tooShort length expected => s!"invalid length {length}, expected {expected}"
  | noWord => "wanted string or table"
  | wordTableEmpty => "wanted exactly 1 element, found 0 elements"
  | wordTableLong => "wanted exactly 1 element, more than 1 element"
  | wordWithContents v => v.contentsFault
  | malformed message => message

end DecodeError

/-- Takes a value apart. -/
abbrev Decoder (α : Type) := Node → Except DecodeError α

/-! ## Plain values -/

/-- A string. -/
def decodeString : Decoder String
  | .string s => .ok s
  | v => .error (.wrongType v "a string")

/-- A boolean. -/
def decodeBoolean : Decoder Bool
  | .boolean b => .ok b
  | v => .error (.wrongType v "a boolean")

/-- An integer from 0 up to a bound, which messages call `expected`. -/
def decodeNat (bound : Nat) (expected : String) : Decoder Nat
  | .integer i =>
    if 0 ≤ i ∧ i < bound then .ok i.toNat else .error (.outOfRange i expected)
  | v => .error (.wrongType v expected)

/-- An unsigned number of 32 bits. -/
def decodeUInt32 : Decoder UInt32 := fun v =>
  (decodeNat UInt32.size "u32" v).map UInt32.ofNat

/-- An unsigned number of 64 bits. -/
def decodeUInt64 : Decoder UInt64 := fun v =>
  (decodeNat UInt64.size "u64" v).map UInt64.ofNat

/-! ## Words -/

/-- The member of a list whose word is given. -/
def chooseWord {α : Type} (all : List α) (name : α → String) (word : String) :
    Except DecodeError α :=
  match all.find? (name · == word) with
  | some a => .ok a
  | none => .error (.unknownWord word (all.map name))

/-- One of several words. -/
def decodeWord {α : Type} (all : List α) (name : α → String) : Decoder α
  | .string s => chooseWord all name s
  | .table _ [] => .error .wordTableEmpty
  | .table _ [(key, v)] => do
    let a ← chooseWord all name key
    if v.isEmptyContents then .ok a else .error (.wordWithContents v)
  | .table _ _ => .error .wordTableLong
  | _ => .error .noWord

/-! ## Lists and records -/

/-- The items of a value that is a list: an array, or tables opened one after another. -/
def Node.items? : Node → Option (List Node)
  | .array items => some items
  | .tables elements => some (elements.map (.table .explicit))
  | _ => none

/-- The entries of a value that counts as a table. A date or time counts as a table with
nothing that a record knows. -/
def Node.entries? : Node → Option Entries
  | .table _ entries => some entries
  | .dateTime => some []
  | _ => none

/-- A list. -/
def decodeList {α : Type} (item : Decoder α) : Decoder (List α) := fun v =>
  match v.items? with
  | some items => items.mapM item
  | none => .error (.wrongType v "a sequence")

/-- Two values, in a list of at least two. -/
def decodePair {α : Type} (item : Decoder α) : Decoder (α × α) := fun v =>
  match v.items? with
  | none => .error (.wrongType v "an array of length 2")
  | some [] => .error (.tooShort 0 "an array of length 2")
  | some [a] => do
    let _ ← item a
    .error (.tooShort 1 "an array of length 2")
  | some (a :: b :: _) => do
    let a ← item a
    let b ← item b
    return (a, b)

/-- A record: what messages call it, the keys of its fields, how many of them have to be
there, how a field is filled in, and what a filled record is. -/
structure RecordShape (draft α : Type) where
  name : String
  keys : List String
  required : Nat
  empty : draft
  /-- Fills in a field; other keys are ignored. -/
  set : draft → String → Node → Except DecodeError draft
  /-- The record, if no field is missing. -/
  finish : draft → Except DecodeError α

namespace RecordShape

variable {draft α : Type}

/-- A record from the entries of a table. -/
def ofEntries (shape : RecordShape draft α) (entries : Entries) : Except DecodeError α := do
  let d ← entries.foldlM (fun d (key, v) => shape.set d key v) shape.empty
  shape.finish d

/-- A record from the list of its fields. -/
def ofItems (shape : RecordShape draft α) (items : List Node) : Except DecodeError α := do
  let d ← (shape.keys.zip items).foldlM (fun d (key, v) => shape.set d key v) shape.empty
  if items.length < shape.required then
    .error (.tooShort items.length s!"{shape.name} with {shape.keys.length} elements")
  else shape.finish d

/-- A record written in either way. -/
def decode (shape : RecordShape draft α) : Decoder α := fun v =>
  match v.entries?, v.items? with
  | some entries, _ => shape.ofEntries entries
  | none, some items => shape.ofItems items
  | none, none => .error (.wrongType v shape.name)

/-- A field that a record has to have. -/
def require {β : Type} (key : String) : Option β → Except DecodeError β
  | some v => .ok v
  | none => .error (.missing key)

end RecordShape

end RegisterMigration.Toml
