import RegisterMigration.Definition.Document
import RegisterMigration.Language.Basic

/-!
# Definition files

A language is loaded from a file in three steps, each of which can fail: the file is read,
its text is taken as a definition, and the definition is checked. What reading the file
gave is an input here, so that loading is a function.
-/

namespace RegisterMigration

/-- What reading a file gave. -/
inductive FileContents where
  /-- There is no such file. -/
  | missing
  /-- The file cannot be read, or does not hold UTF-8. -/
  | unreadable
  | text (s : String)
  deriving DecidableEq, Repr

/-- The contents of a file that holds some bytes. -/
def FileContents.ofBytes (bytes : ByteArray) : FileContents :=
  match String.fromUTF8? bytes with
  | some s => .text s
  | none => .unreadable

/-- A file, as far as it is known. -/
structure SourceFile where
  path : String
  contents : FileContents
  deriving DecidableEq, Repr

/-- Why a file does not give a language. -/
inductive SourceError where
  | notFound (path : String)
  | unreadable
  | document (e : DocumentError)
  | invalid (e : LoadError)

/-- The wording of each cause. -/
def SourceError.message : SourceError → String
  | notFound path => s!"descriptor file not found: {path}"
  | unreadable => "I/O error"
  | document _ => "TOML parse error"
  | invalid e => e.message

namespace SourceFile

/-- The definition that a file holds. -/
def definition (f : SourceFile) : Except SourceError Definition :=
  match f.contents with
  | .missing => .error (.notFound f.path)
  | .unreadable => .error .unreadable
  | .text s => (Definition.ofToml s).mapError .document

/-- The language that a file describes. -/
def language (f : SourceFile) : Except SourceError Language := do
  let d ← f.definition
  (Language.load d).mapError .invalid

end SourceFile

end RegisterMigration
