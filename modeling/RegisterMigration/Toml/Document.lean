import RegisterMigration.Toml.Value

/-!
# TOML documents

A document is a sequence of lines. Each line is blank, or assigns a value to a key, or is
the header of a section, which says what table the following assignments are about. The
document is malformed if one of its lines is, or if a key or a table is given twice.
-/

namespace RegisterMigration.Toml

/-- Which table the assignments of a section go to. -/
inductive Header where
  /-- The table at a path, opened once. -/
  | table (parents : List String) (key : String)
  /-- One more of the tables at a path. -/
  | element (parents : List String) (key : String)
  deriving DecidableEq, Repr

/-- What a line that is not blank says. -/
inductive Statement where
  | assign (path : List String) (v : Node)
  | header (h : Header)

/-- A header and the assignments that follow it. -/
structure Section where
  header : Header
  assignments : List (List String × Node)

/-! ## Reading lines -/

/-- Splits a path into the tables on the way and its last part. -/
def splitPath : List String → Option (List String × String)
  | [] => none
  | [key] => some ([], key)
  | key :: path => (splitPath path).map fun (parents, last) => (key :: parents, last)

/-- Reads the rest of a line after a header's opening brackets. -/
def header? (make : List String → String → Header) (closing : List Char) (s : List Char) :
    Option (Statement × List Char) := do
  let (path, s) ← key? s
  let (parents, key) ← splitPath path
  if s.take closing.length = closing then
    let rest ← lineEnd? (s.drop closing.length)
    return (.header (make parents key), rest)
  else none

/-- Reads a line, with its end. -/
def line? (s : List Char) : Option (List Statement × List Char) :=
  match lineEnd? s with
  | some rest => some ([], rest)
  | none =>
    match skipBlanks s with
    | '[' :: '[' :: s => (header? .element [']', ']'] s).map fun (st, rest) => ([st], rest)
    | '[' :: s => (header? .table [']'] s).map fun (st, rest) => ([st], rest)
    | s => do
      let ((path, v), s) ← assignment? (value? (depthLimit - 1)) s
      let rest ← lineEnd? s
      return ([.assign path v], rest)

/-- Reads all lines. -/
def statements? (s : List Char) : Option (List Statement) :=
  if s.isEmpty then some []
  else
    match line? s with
    | none => none
    | some (st, rest) =>
      if rest.length < s.length then (statements? rest).map (st ++ ·) else none
termination_by s.length

/-! ## Building the tree -/

/-- The assignments before the first header, and the sections. -/
def group : List Statement → List (List String × Node) × List Section
  | [] => ([], [])
  | .assign path v :: rest =>
    let (assignments, sections) := group rest
    ((path, v) :: assignments, sections)
  | .header h :: rest =>
    let (assignments, sections) := group rest
    ([], ⟨h, assignments⟩ :: sections)

/-- Adds a section to the tree. -/
def addSection (root : Entries) (sec : Section) : Option Entries :=
  match sec.header with
  | .table parents key => Entries.alterAt (Entries.openTable key sec.assignments) parents root
  | .element parents key => Entries.alterAt (Entries.addElement key sec.assignments) parents root

/-- The tree that statements build. -/
def build? (statements : List Statement) : Option Entries :=
  let (assignments, sections) := group statements
  (Entries.assignAll [] assignments).bind fun root => sections.foldlM addSection root

/-- A text without the byte order mark that it may start with. -/
def dropByteOrderMark : List Char → List Char
  | '\ufeff' :: s => s
  | s => s

/-- Reads a document; `none` if it is malformed. -/
def parse? (text : String) : Option Entries :=
  (statements? (dropByteOrderMark text.toList)).bind build?

end RegisterMigration.Toml
