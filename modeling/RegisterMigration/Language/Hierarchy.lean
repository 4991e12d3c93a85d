import RegisterMigration.Language.Basic
import RegisterMigration.PartialValue

/-!
# The register hierarchy

Registers nest: a register's parent is the smallest one that strictly contains it, and the
outermost of its ancestors is its base. Going up, registers get longer, so the way up ends;
that is how `lineage` recurses.

Where a register lies in one of its ancestors depends on the byte order. The bits of a
little-endian register are counted from its first byte, those of a big-endian one from its
last.

## Main results

* `byteLen_lt_of_parentOf` — a parent is longer than its child.
* `registerById_of_parentOf` — a parent is in the table, under its own id.
-/

namespace RegisterMigration

/-- The number of bytes that hold `2 ^ 32` bits. -/
def maxByteLength : Nat := UInt32.size / 8

/-- No number of bits needs more bytes than that. -/
theorem byteLength_le (bits : UInt32) : byteLength bits ≤ maxByteLength := by
  have := bits.toNat_lt
  simp only [byteLength, maxByteLength, UInt32.size]
  omega

/-- The shortest of several declarations is one of them. -/
theorem Register.mem_of_shortest {ds : List (RegisterDecl × Nat)} {d : RegisterDecl × Nat}
    (h : shortest? ds = some d) : d ∈ ds := by
  induction ds generalizing d with
  | nil => simp [shortest?] at h
  | cons e ds ih =>
    simp only [shortest?] at h
    split at h
    · simp_all
    · split at h <;> simp_all

namespace Language

/-- The parent of a register. -/
def parentOf? (l : Language) (id : RegisterId) : Option Register :=
  ((l.registerById? id).bind (·.parent)).bind l.registerById?

/-- What stands in the table of a language under an index. -/
theorem registerById_eq_some_iff {l : Language} {id : RegisterId} {r : Register} :
    l.registerById? id = some r ↔
      ∃ d, l.definition.registers[id.index]? = some d ∧
        r = { d with
          id := id, parent := Register.containerIn? l.definition.registers d : Register } := by
  simp only [registerById?, l.registers_eq, Register.table, List.getElem?_toArray,
    List.getElem?_map, List.getElem?_zipIdx, Option.map_eq_some_iff, Nat.zero_add]
  constructor
  · rintro ⟨_, ⟨d, hd, rfl⟩, rfl⟩
    exact ⟨d, hd, rfl⟩
  · rintro ⟨d, hd, rfl⟩
    exact ⟨_, ⟨d, hd, rfl⟩, rfl⟩

/-- A register stands in the table under its own id. -/
theorem id_eq_of_registerById {l : Language} {id : RegisterId} {r : Register}
    (h : l.registerById? id = some r) : r.id = id := by
  obtain ⟨_, _, rfl⟩ := registerById_eq_some_iff.1 h
  rfl

/-- A parent is in the table, under its own id. -/
theorem registerById_of_parentOf {l : Language} {id : RegisterId} {p : Register}
    (h : l.parentOf? id = some p) : l.registerById? p.id = some p := by
  obtain ⟨pid, _, hp⟩ := Option.bind_eq_some_iff.1 h
  rw [id_eq_of_registerById hp]
  exact hp

/-- A parent strictly contains its child. -/
theorem strictlyContains_of_parentOf {l : Language} {id : RegisterId} {r p : Register}
    (hr : l.registerById? id = some r) (hp : l.parentOf? id = some p) :
    p.strictlyContains r.toRegisterDecl := by
  obtain ⟨d, _, rfl⟩ := registerById_eq_some_iff.1 hr
  simp only [parentOf?, hr, Option.bind_some] at hp
  obtain ⟨pid, hpid, hp⟩ := Option.bind_eq_some_iff.1 hp
  obtain ⟨e, he, rfl⟩ := registerById_eq_some_iff.1 hp
  obtain ⟨⟨f, i⟩, hf, rfl⟩ := Option.map_eq_some_iff.1 hpid
  have hmem := Register.mem_of_shortest hf
  simp only [List.mem_filter, List.mem_zipIdx_iff_getElem?] at hmem
  obtain rfl : e = f := by simpa [he] using hmem.1
  exact hmem.2

/-- A parent is longer than its child. -/
theorem byteLen_lt_of_parentOf {l : Language} {id : RegisterId} {r p : Register}
    (hr : l.registerById? id = some r) (hp : l.parentOf? id = some p) :
    r.byteLen < p.byteLen := by
  have h := strictlyContains_of_parentOf hr hp
  simp only [RegisterDecl.strictlyContains, Bool.and_eq_true, decide_eq_true_eq] at h
  exact h.2

/-- How much longer than a register any of its ancestors can be. -/
def headroom (l : Language) (id : RegisterId) : Nat :=
  match l.registerById? id with
  | none => 0
  | some r => maxByteLength - r.byteLen

/-- Going up leaves less headroom. -/
theorem headroom_lt_of_parentOf {l : Language} {id : RegisterId} {r p : Register}
    (hr : l.registerById? id = some r) (hp : l.parentOf? id = some p) :
    l.headroom p.id < l.headroom id := by
  have h := byteLen_lt_of_parentOf hr hp
  have hle := byteLength_le p.bitSize
  simp only [headroom, hr, registerById_of_parentOf hp]
  simp only [RegisterDecl.byteLen] at *
  omega

/-- A register, its parent, the parent of that, and so on. -/
def lineage (l : Language) (id : RegisterId) : List Register :=
  match _hr : l.registerById? id with
  | none => []
  | some r =>
    match _hp : l.parentOf? id with
    | none => [r]
    | some p => r :: l.lineage p.id
termination_by l.headroom id
decreasing_by exact headroom_lt_of_parentOf (by assumption) (by assumption)

/-- The outermost of a register's ancestors, or the register itself if it has none. -/
def baseOf? (l : Language) (id : RegisterId) : Option Register :=
  (l.lineage id).getLast?

/-- The registers whose parent has an id, in order. -/
def childrenOf (l : Language) (id : RegisterId) : List Register :=
  l.registers.toList.filter (·.parent == some id)

/-- Whether a register is another one or an ancestor of it. An id that is not in the table
is its own and nobody else's ancestor. -/
def isAncestorOrSelf (l : Language) (ancestor id : RegisterId) : Bool :=
  ancestor == id || (l.lineage id).any (·.id == ancestor)

/-- The number of bytes by which `child` lies above the low end of `ancestor`, in 64 bits. -/
def byteShift (l : Language) (child ancestor : Register) : UInt64 :=
  match l.definition.endianness with
  | .little => child.offset - ancestor.offset
  | .big => UInt64.ofNat ancestor.lastByte - UInt64.ofNat child.lastByte

/-- The place of `child`'s lowest bit among the bits of `ancestor`, if that is `child` or
one of its ancestors. -/
def bitShiftWithin? (l : Language) (child ancestor : RegisterId) : Option UInt32 :=
  if l.isAncestorOrSelf ancestor child then
    match l.registerById? child, l.registerById? ancestor with
    | some c, some a =>
      let bits := (8 * l.byteShift c a).toNat
      if bits < UInt32.size then some (UInt32.ofNat bits) else none
    | _, _ => none
  else none

/-- A value on the base register of its register, where what is outside the register is
unknown, with positions of any size. -/
def widenToBase? (l : Language) (v : PartialValue) : Option PartialValue := do
  let base ← l.baseOf? v.register
  let shift ← l.bitShiftWithin? v.register base.id
  return v.raised base.id base.bitSize shift

/-- The part of a value that belongs to a register inside the value's own, with positions of any
size. -/
def narrow? (l : Language) (v : PartialValue) (id : RegisterId) : Option PartialValue := do
  let target ← l.registerById? id
  let shift ← l.bitShiftWithin? id v.register
  return v.lowered id target.bitSize shift

/-- Widens a value, and stops where the position of a known bit on the base register is none.
No value as wide as its register comes to that (`Language.widen_eq_ok`). -/
def widen (l : Language) (v : PartialValue) : Except Overflow (Option PartialValue) :=
  match l.baseOf? v.register with
  | none => .ok none
  | some base =>
    match l.bitShiftWithin? v.register base.id with
    | none => .ok none
    | some shift => (v.placed base.id base.bitSize shift).map some

/-- Narrows a value, and stops where a position in it is none, which never happens
(`Language.narrow_eq_ok`). -/
def narrow (l : Language) (v : PartialValue) (id : RegisterId) :
    Except Overflow (Option PartialValue) :=
  match l.registerById? id with
  | none => .ok none
  | some target =>
    match l.bitShiftWithin? id v.register with
    | none => .ok none
    | some shift => (v.extracted id target.bitSize shift).map some

end Language

end RegisterMigration
