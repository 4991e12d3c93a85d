import RegisterMigration.Text.Numeral

/-!
# Language versions

A language is described anew with each version. Versions are written `MAJOR.MINOR`, or
`MAJOR` alone for minor version zero, and ordered by the major number first.
-/

namespace RegisterMigration

/-- A version of a language. -/
structure Version where
  major : UInt32
  minor : UInt32
  deriving DecidableEq, Hashable, Ord, Repr

instance : ToString Version where
  toString v := s!"{v.major}.{v.minor}"

/-- A text that is not a version. -/
structure VersionError where
  text : String
  deriving DecidableEq, Repr

/-- The wording of a refused version. -/
def VersionError.message (e : VersionError) : String :=
  s!"invalid language version '{e.text}': expected MAJOR.MINOR"

namespace Version

/-- The part before the first point and the part after it; without a point, the part
after it is `0`. -/
def parts (s : List Char) : List Char × List Char :=
  match s.dropWhile (· != '.') with
  | [] => (s, ['0'])
  | _ :: minor => (s.takeWhile (· != '.'), minor)

/-- Reads one number of a version, with blanks around it. -/
def readPart? (s : List Char) : Option UInt32 :=
  match Text.readNumeral 10 UInt32.size (Text.trim s) with
  | .ok n => some (UInt32.ofNat n)
  | .error _ => none

/-- Reads a version. -/
def parse (s : String) : Except VersionError Version :=
  let (major, minor) := parts s.toList
  match readPart? major, readPart? minor with
  | some major, some minor => .ok ⟨major, minor⟩
  | _, _ => .error ⟨s⟩

/-- Whether `v` is no later than `w`. -/
def le (v w : Version) : Bool :=
  (compare v w).isLE

end Version

/-- One version of one language. -/
structure VersionKey where
  language : String
  version : Version
  deriving DecidableEq, Hashable, Ord, Repr

instance : ToString VersionKey where
  toString k := s!"{k.language} (v{k.version})"

/-- Whether `k` comes no later than `l`: by the language's identifier, then by version. -/
def VersionKey.le (k l : VersionKey) : Bool :=
  (compare k l).isLE

end RegisterMigration
