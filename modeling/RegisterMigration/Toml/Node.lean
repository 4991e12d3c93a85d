import RegisterMigration.Decimal.Binary64

/-!
# TOML values and tables

A TOML document is a tree whose tables keep their entries in the order in which the keys
first appear. A table remembers how it came about, because that decides what may still be
added to it: a table that was only passed through can be opened by a header once, a table
made by dotted keys can be extended by dotted keys, and a table written between braces is
finished.

Dates and times are recognised and not interpreted.
-/

namespace RegisterMigration.Toml

/-- How a table came about. -/
inductive TableKind where
  /-- Passed through on the way to the table of a longer header. -/
  | implicit
  /-- Passed through by a dotted key. -/
  | dotted
  /-- Opened by a header of its own. -/
  | explicit
  /-- Written between braces. -/
  | inline
  deriving DecidableEq, Repr

/-- A TOML value. -/
inductive Node where
  | string (s : String)
  | integer (i : Int)
  | float (x : Decimal.Binary64)
  | boolean (b : Bool)
  | dateTime
  | array (items : List Node)
  | table (kind : TableKind) (entries : List (String × Node))
  /-- Tables that were opened one after another by headers in double brackets. -/
  | tables (elements : List (List (String × Node)))

/-- The entries of a table, in order. -/
abbrev Entries := List (String × Node)

namespace Entries

/-- The value under a key. -/
def valueAt? (e : Entries) (key : String) : Option Node :=
  e.lookup key

/-- The entries with another value under a key, at the place of the one it had. -/
def withValue (e : Entries) (key : String) (v : Node) : Entries :=
  e.map fun (k, w) => if k == key then (k, v) else (k, w)

/-- The entries without a key. -/
def without (e : Entries) (key : String) : Entries :=
  e.filter (·.1 != key)

/-- Changes the last of several tables. -/
def alterLast (f : Entries → Option Entries) (elements : List Entries) :
    Option (List Entries) :=
  elements.getLast?.bind fun last => (f last).map fun e => elements.dropLast ++ [e]

/-- Adds a value under a dotted key. The last part of the key has to be new, and the table
before it has to be new or made by a dotted key; the tables before that may also have been
passed through by headers. -/
def assign (v : Node) : List String → Entries → Option Entries
  | [], _ => none
  | [key], e => if (e.valueAt? key).isSome then none else some (e ++ [(key, v)])
  | key :: next :: path, e =>
    match e.valueAt? key with
    | none =>
      (assign v (next :: path) []).map fun sub => e ++ [(key, .table .dotted sub)]
    | some (.table .dotted sub) =>
      (assign v (next :: path) sub).map fun sub => e.withValue key (.table .dotted sub)
    | some (.table .implicit sub) =>
      if path.isEmpty then none
      else (assign v (next :: path) sub).map fun sub => e.withValue key (.table .implicit sub)
    | some (.tables elements) =>
      if path.isEmpty then none
      else (alterLast (assign v (next :: path)) elements).map fun t =>
        e.withValue key (.tables t)
    | some _ => none

/-- Adds several values, each under its dotted key. -/
def assignAll (e : Entries) (assignments : List (List String × Node)) : Option Entries :=
  assignments.foldlM (fun e (path, v) => assign v path e) e

/-- Changes the table that the path of a header leads to. Tables that are missing on the
way are made; of several tables under one key the last one is entered. -/
def alterAt (f : Entries → Option Entries) : List String → Entries → Option Entries
  | [], e => f e
  | key :: path, e =>
    match e.valueAt? key with
    | none => (alterAt f path []).map fun sub => e ++ [(key, .table .implicit sub)]
    | some (.table .inline _) => none
    | some (.table kind sub) =>
      (alterAt f path sub).map fun sub => e.withValue key (.table kind sub)
    | some (.tables elements) =>
      (alterLast (alterAt f path) elements).map fun t => e.withValue key (.tables t)
    | some _ => none

/-- Opens the table under a key and fills it. A table that was passed through before keeps
its entries and moves to the end. -/
def openTable (key : String) (assignments : List (List String × Node)) (e : Entries) :
    Option Entries :=
  match e.valueAt? key with
  | none =>
    (assignAll [] assignments).map fun sub => e ++ [(key, .table .explicit sub)]
  | some (.table .implicit old) =>
    (assignAll old assignments).map fun sub => e.without key ++ [(key, .table .explicit sub)]
  | some _ => none

/-- Adds one more table to those under a key. -/
def addElement (key : String) (assignments : List (List String × Node)) (e : Entries) :
    Option Entries :=
  match e.valueAt? key with
  | none => (assignAll [] assignments).map fun sub => e ++ [(key, .tables [sub])]
  | some (.tables elements) =>
    (assignAll [] assignments).map fun sub => e.withValue key (.tables (elements ++ [sub]))
  | some _ => none

end Entries

end RegisterMigration.Toml
