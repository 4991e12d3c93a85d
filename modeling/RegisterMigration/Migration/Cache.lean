import RegisterMigration.Migration.Report
import Std.Data.HashMap

/-!
# Remembered decisions

Deciding about two languages is the one costly step, so decisions are kept under the
versions of the two languages, refusals included. Languages can change without a new
version; a decision is used again only for languages with the same fingerprints as those it
was made for, and is replaced otherwise.

Decisions are numbered in the order in which they are made. The number tells a decision
that was kept from one that was made anew and says the same.
-/

namespace RegisterMigration

/-- The versions of an old and a new language. -/
structure VersionPair where
  old : VersionKey
  new : VersionKey
  deriving DecidableEq, Hashable, Repr

/-- The versions of two languages. -/
def VersionPair.of (old new : Language) : VersionPair :=
  ⟨old.key, new.key⟩

/-- A decision about two languages, and its number. -/
structure Decision where
  serial : Nat
  outcome : Except Obstacle Migrator

/-- A decision and the fingerprints of the languages it was made for. -/
structure CacheEntry where
  old : Fingerprint
  new : Fingerprint
  decision : Decision

/-- Whether a decision was made for languages with the same contents. -/
def CacheEntry.isFor (e : CacheEntry) (old new : Language) : Bool :=
  e.old == old.fingerprint && e.new == new.fingerprint

/-- The decisions that are kept. -/
structure Cache where
  entries : Std.HashMap VersionPair CacheEntry
  /-- The number of the next decision. -/
  next : Nat

namespace Cache

/-- A cache in which nothing is kept. -/
def empty : Cache :=
  ⟨∅, 0⟩

/-- How many decisions are kept. -/
def size (c : Cache) : Nat :=
  c.entries.size

/-- Whether no decision is kept. -/
def isEmpty (c : Cache) : Bool :=
  c.entries.isEmpty

/-- The decision that is kept for two versions. -/
def get? (c : Cache) (pair : VersionPair) : Option Decision :=
  c.entries[pair]?.map (·.decision)

/-- The decision that is kept for two languages with the contents they have now. -/
def current? (c : Cache) (old new : Language) : Option Decision :=
  (c.entries[VersionPair.of old new]?.filter (·.isFor old new)).map (·.decision)

/-- The cache with a new decision about two languages. -/
def decide (c : Cache) (old new : Language) : Decision × Cache :=
  let decision : Decision := ⟨c.next, Migrator.build old new⟩
  let entry : CacheEntry := ⟨old.fingerprint, new.fingerprint, decision⟩
  (decision, ⟨c.entries.insert (.of old new) entry, c.next + 1⟩)

/-- The decision about two languages, made now if none is kept for their contents. -/
def getOrBuild (c : Cache) (old new : Language) : Decision × Cache :=
  match c.current? old new with
  | some decision => (decision, c)
  | none => c.decide old new

/-- The warning that a decision about other contents is replaced. -/
def contentsChanged (old new : Language) : LogRecord :=
  ⟨.warn, s!"descriptor content for {old} -> {new} changed (old {old.fingerprint.short}, "
    ++ s!"new {new.fingerprint.short}); rebuilding"⟩

/-- The records of `getOrBuild`: none if the decision was kept, and a warning if one for
other contents is replaced. -/
def getOrBuildLog (c : Cache) (old new : Language) : List LogRecord :=
  match c.entries[VersionPair.of old new]? with
  | none => Migrator.buildLog old new
  | some e =>
    if e.isFor old new then [] else contentsChanged old new :: Migrator.buildLog old new

/-- Forgets the decision for two versions, and says whether there was one. -/
def invalidate (c : Cache) (pair : VersionPair) : Bool × Cache :=
  (c.entries.contains pair, { c with entries := c.entries.erase pair })

/-- Forgets all decisions. Numbers are not given out again. -/
def clear (c : Cache) : Cache :=
  { c with entries := ∅ }

end Cache

end RegisterMigration
