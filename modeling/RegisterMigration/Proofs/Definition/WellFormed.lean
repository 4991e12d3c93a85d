import Mathlib.Algebra.Group.Nat.Defs
import Mathlib.Data.List.Nodup
import RegisterMigration.Definition.Issue

/-!
# Definitions without errors

`Definition.issues` walks through a definition list by list and pair by pair.  This module
says what the walk decides: a definition has no error exactly if it is `WellFormed`, a
condition on its names, sizes, spans and ranges in which every measure is a natural number.

Each part of the walk has its own lemma, and `errors_eq_nil_iff` puts them together.  A
`Language` carries the absence of errors in its type, so `Language.wellFormed` hands every
later proof these facts for nothing.

## Main results

* `harmless_checkEach_iff` — a walk that reports repeated keys finds nothing exactly if the
  keys are distinct.
* `errors_eq_nil_iff` — no error is found exactly in a well-formed definition.
-/

namespace RegisterMigration

namespace RegisterDecl

/-- The first offset past a register, where nothing wraps or saturates. -/
def stop (r : RegisterDecl) : Nat :=
  r.offset.toNat + r.byteLen

/-- Two registers of one space have no byte in common. -/
def Apart (r s : RegisterDecl) : Prop :=
  r.stop ≤ s.offset.toNat ∨ s.stop ≤ r.offset.toNat

/-- The bytes of `r` are some, but not all, of the bytes of `s` in one space. -/
def Within (r s : RegisterDecl) : Prop :=
  s.offset.toNat ≤ r.offset.toNat ∧ r.stop ≤ s.stop ∧ r.byteLen < s.byteLen

/-- A register with bits has bytes. -/
theorem byteLen_pos {r : RegisterDecl} (h : 1 ≤ r.bitSize.toNat) : 1 ≤ r.byteLen := by
  simp only [byteLen, byteLength]
  omega

/-- Where a register ends inside 64 bits, its last byte is exact. -/
theorem lastByte_eq {r : RegisterDecl} (hpos : 1 ≤ r.byteLen) (hstop : r.stop ≤ 2 ^ 64) :
    r.lastByte + 1 = r.stop := by
  simp only [lastByte, stop, UInt64.size] at *
  omega

end RegisterDecl

namespace Definition

/-- What loading a definition relies on, in exact arithmetic. -/
structure WellFormed (d : Definition) : Prop where
  id_written : Text.allBlank d.id = false
  processor_written : Text.allBlank d.processor = false
  specs_nodup : (d.compilerSpecs.map (·.id)).Nodup
  default_declared : d.defaultCompilerSpec ∈ d.compilerSpecs.map (·.id)
  spaces_nodup : (d.spaces.map (·.name)).Nodup
  space_sizes : ∀ s ∈ d.spaces, 1 ≤ s.size.toNat ∧ s.size.toNat ≤ 8
  one_default : d.spaces.countP (·.isDefault) ≤ 1
  registers_nodup : (d.registers.map (·.name)).Nodup
  registers_sized : ∀ r ∈ d.registers, 1 ≤ r.bitSize.toNat
  registers_placed : ∀ r ∈ d.registers,
    ∃ s ∈ d.spaces, s.name = r.space ∧ r.stop ≤ 256 ^ s.size.toNat
  one_context : d.contexts.length ≤ 1
  spans : d.registers.Pairwise fun a b =>
    a.space = b.space → a.Apart b ∨ a.Within b ∨ b.Within a
  fields_owned : d.contexts = [] → d.contextFields = []
  fields_nodup : (d.contextFields.map (·.name)).Nodup
  fields_inside : ∀ c ∈ d.contexts, ∀ f ∈ d.contextFields,
    f.range.lo.toNat ≤ f.range.hi.toNat ∧ f.range.hi.toNat < c.bitSize.toNat

/-! ## Issues that do not matter -/

/-- None of the issues keeps a definition from being loaded. -/
def Harmless (is : List Issue) : Prop :=
  ∀ i ∈ is, i.severity ≠ .error

@[simp] theorem harmless_nil : Harmless [] := by
  simp [Harmless]

@[simp] theorem harmless_append (is js : List Issue) :
    Harmless (is ++ js) ↔ Harmless is ∧ Harmless js := by
  simp only [Harmless, List.mem_append]
  constructor
  · intro h
    exact ⟨fun i hi => h i (Or.inl hi), fun i hi => h i (Or.inr hi)⟩
  · rintro ⟨h1, h2⟩ i (hi | hi)
    · exact h1 i hi
    · exact h2 i hi

/-- An error is harmless only where it is not reported. -/
theorem harmless_issueIf {p : Bool} {i : Issue} (hi : i.severity = .error) :
    Harmless (issueIf p i) ↔ p = false := by
  cases p <;> simp [Harmless, issueIf, hi]

/-- The errors are the issues that matter. -/
theorem errors_eq_nil_iff_harmless (d : Definition) : d.errors = [] ↔ Harmless d.issues := by
  simp [errors, Harmless, List.filter_eq_nil_iff]

/-! ## Walking through lists -/

/-- A walk that reports each repeated key, and what `g` finds, finds nothing exactly if the
keys are distinct, none of them was seen before, and `g` finds nothing. -/
theorem harmless_checkEach_iff {α β : Type} [BEq β] [LawfulBEq β] (key : α → β)
    (repeated : α → Issue) (hrepeated : ∀ x, (repeated x).severity = .error)
    (g : α → List Issue) (xs seen : List α) :
    Harmless (checkEach
        (fun seen x => issueIf (seen.any fun y => key y == key x) (repeated x) ++ g x) seen xs) ↔
      ((xs.map key).Nodup ∧ ∀ x ∈ xs, key x ∉ seen.map key) ∧ ∀ x ∈ xs, Harmless (g x) := by
  induction xs generalizing seen with
  | nil => simp [checkEach]
  | cons x xs ih =>
      simp only [checkEach, harmless_append, harmless_issueIf (hrepeated x), ih]
      have hseen : (seen.any fun y => key y == key x) = false ↔ key x ∉ seen.map key := by
        rw [List.any_eq_false]
        simp
      rw [hseen]
      simp only [List.map_cons, List.nodup_cons, List.mem_cons, List.map_append, List.map_nil,
        List.mem_append, List.not_mem_nil, or_false, not_or, forall_eq_or_imp]
      constructor
      · intro h
        rcases h with ⟨⟨hx, hgx⟩, ⟨hnodup, hfresh⟩, hg⟩
        refine ⟨⟨⟨?_, hnodup⟩, hx, fun y hy => (hfresh y hy).1⟩, hgx, hg⟩
        intro hmem
        obtain ⟨y, hy, hyx⟩ := List.mem_map.1 hmem
        exact (hfresh y hy).2 hyx
      · intro h
        rcases h with ⟨⟨⟨hxs, hnodup⟩, hx, hfresh⟩, hgx, hg⟩
        refine ⟨⟨hx, hgx⟩, ⟨hnodup, fun y hy => ⟨hfresh y hy, ?_⟩⟩, hg⟩
        intro hyx
        exact hxs (List.mem_map.2 ⟨y, hy, hyx⟩)

/-- From an empty start, nothing was seen before. -/
theorem harmless_checkEach_nil_iff {α β : Type} [BEq β] [LawfulBEq β] (key : α → β)
    (repeated : α → Issue) (hrepeated : ∀ x, (repeated x).severity = .error)
    (g : α → List Issue) (xs : List α) :
    Harmless (checkEach
        (fun seen x => issueIf (seen.any fun y => key y == key x) (repeated x) ++ g x) [] xs) ↔
      (xs.map key).Nodup ∧ ∀ x ∈ xs, Harmless (g x) := by
  rw [harmless_checkEach_iff key repeated hrepeated]
  simp

/-- Looking at all pairs is looking at each item and those after it. -/
theorem harmless_flatMap_pairs_iff {α : Type} (g : α × α → List Issue) (xs : List α) :
    Harmless ((pairs xs).flatMap g) ↔ xs.Pairwise fun a b => Harmless (g (a, b)) := by
  induction xs with
  | nil => simp [pairs]
  | cons x xs ih =>
      rw [pairs, List.flatMap_append, harmless_append, ih, List.pairwise_cons]
      simp only [Harmless, List.mem_flatMap, List.mem_map]
      constructor
      · intro h
        rcases h with ⟨hx, hxs⟩
        exact ⟨fun y hy i hi => hx i ⟨(x, y), ⟨y, hy, rfl⟩, hi⟩, hxs⟩
      · intro h
        rcases h with ⟨hx, hxs⟩
        refine ⟨?_, hxs⟩
        rintro i ⟨_, ⟨y, hy, rfl⟩, hi⟩
        exact hx y hy i hi

/-! ## The parts of a definition -/

theorem harmless_identityIssues_iff (d : Definition) :
    Harmless d.identityIssues ↔
      Text.allBlank d.id = false ∧ Text.allBlank d.processor = false := by
  rw [identityIssues, harmless_append, harmless_issueIf rfl, harmless_issueIf rfl]

theorem harmless_compilerSpecIssues_iff (d : Definition) :
    Harmless d.compilerSpecIssues ↔
      (d.compilerSpecs.map (·.id)).Nodup ∧
        d.defaultCompilerSpec ∈ d.compilerSpecs.map (·.id) := by
  have hwalk := harmless_checkEach_nil_iff (·.id)
    (fun c : CompilerSpec => .repeatedCompilerSpec c.id) (fun _ => rfl) (fun _ => [])
    d.compilerSpecs
  simp only [List.append_nil, harmless_nil, implies_true, and_true] at hwalk
  rw [compilerSpecIssues, harmless_append, hwalk, harmless_issueIf rfl]
  simp

theorem harmless_spaceIssues_iff (d : Definition) :
    Harmless d.spaceIssues ↔
      (d.spaces.map (·.name)).Nodup ∧
        (∀ s ∈ d.spaces, 1 ≤ s.size.toNat ∧ s.size.toNat ≤ 8) ∧
          d.spaces.countP (·.isDefault) ≤ 1 := by
  have hsize : ∀ s : AddressSpace, Harmless (issueIf (s.size == 0 || 8 < s.size) (.spaceSize s)) ↔
      1 ≤ s.size.toNat ∧ s.size.toNat ≤ 8 := by
    intro s
    rw [harmless_issueIf rfl]
    simp only [Bool.or_eq_false_iff, beq_eq_false_iff_ne, ne_eq, decide_eq_false_iff_not,
      UInt32.lt_iff_toNat_lt, ← UInt32.toNat_inj]
    simp
    omega
  rw [spaceIssues, harmless_append, harmless_issueIf rfl,
    harmless_checkEach_nil_iff (·.name) (fun s : AddressSpace => .repeatedSpace s.name)
      (fun _ => rfl), and_assoc]
  simp only [hsize, decide_eq_false_iff_not, Nat.not_lt]

theorem harmless_registerIssues_iff (d : Definition) :
    Harmless d.registerIssues ↔
      (d.registers.map (·.name)).Nodup ∧
        (∀ r ∈ d.registers, 1 ≤ r.bitSize.toNat) ∧
          ∀ r ∈ d.registers, Harmless (d.placeIssues r) := by
  have hsize : ∀ r : RegisterDecl, Harmless (issueIf (r.bitSize == 0) (.emptyRegister r.name)) ↔
      1 ≤ r.bitSize.toNat := by
    intro r
    rw [harmless_issueIf rfl]
    simp only [beq_eq_false_iff_ne, ne_eq, ← UInt32.toNat_inj]
    simp
    omega
  have hwalk := harmless_checkEach_nil_iff (·.name)
    (fun r : RegisterDecl => .repeatedRegister r.name) (fun _ => rfl)
    (fun r => issueIf (r.bitSize == 0) (.emptyRegister r.name) ++ d.placeIssues r) d.registers
  simp only [registerIssues, List.append_assoc]
  rw [hwalk]
  simp only [harmless_append, hsize, forall_and]

/-- Past the checks of names and sizes, a register is placed if it ends inside its space. -/
theorem harmless_placeIssues_iff {d : Definition} (hspaces : (d.spaces.map (·.name)).Nodup)
    (hsizes : ∀ s ∈ d.spaces, 1 ≤ s.size.toNat ∧ s.size.toNat ≤ 8) {r : RegisterDecl}
    (hr : 1 ≤ r.bitSize.toNat) :
    Harmless (d.placeIssues r) ↔
      ∃ s ∈ d.spaces, s.name = r.space ∧ r.stop ≤ 256 ^ s.size.toNat := by
  have hfits : ∀ s ∈ d.spaces, fits r s = true ↔ r.stop ≤ 256 ^ s.size.toNat := by
    intro s hs
    have hlen := r.byteLen_pos hr
    have hpos : 1 ≤ 256 ^ s.size.toNat := Nat.one_le_pow _ _ (by decide)
    have hpow : 1 <<< (8 * s.size.toNat) = 256 ^ s.size.toNat := by
      rw [Nat.one_shiftLeft, Nat.pow_mul]
    simp only [fits, decide_eq_true_eq, AddressSpace.maxOffset, RegisterDecl.stop,
      Nat.min_eq_left (hsizes s hs).2, hpow]
    omega
  rw [placeIssues]
  cases hfind : d.space? r.space with
  | none =>
      have hnone := List.find?_eq_none.1 hfind
      constructor
      · intro h
        exact absurd rfl (h _ (List.mem_singleton.2 rfl))
      · intro h
        rcases h with ⟨s, hs, hname, _⟩
        exact absurd (beq_iff_eq.2 hname) (hnone s hs)
  | some s =>
      have hs := List.mem_of_find?_eq_some hfind
      have hname : s.name = r.space := by simpa using List.find?_some hfind
      simp only
      rw [harmless_issueIf rfl, Bool.not_eq_false', hfits s hs]
      constructor
      · intro h
        exact ⟨s, hs, hname, h⟩
      · rintro ⟨t, ht, htname, h⟩
        rw [List.inj_on_of_nodup_map hspaces hs ht (hname.trans htname.symm)]
        exact h

/-- Two placed registers raise no issue if they nest, if they have no byte in common, or if
they are in different spaces. -/
theorem harmless_pairIssues_iff {a b : RegisterDecl} (ha : 1 ≤ a.bitSize.toNat)
    (hb : 1 ≤ b.bitSize.toNat) (hastop : a.stop ≤ 2 ^ 64) (hbstop : b.stop ≤ 2 ^ 64) :
    Harmless (pairIssues (a, b)) ↔
      (a.space = b.space → a.Apart b ∨ a.Within b ∨ b.Within a) := by
  have hapos := RegisterDecl.byteLen_pos ha
  have hbpos := RegisterDecl.byteLen_pos hb
  have halast := RegisterDecl.lastByte_eq hapos hastop
  have hblast := RegisterDecl.lastByte_eq hbpos hbstop
  have ha0 : (a.bitSize == 0) = false := by
    rw [beq_eq_false_iff_ne, ne_eq, ← UInt32.toNat_inj]
    simp
    omega
  have hb0 : (b.bitSize == 0) = false := by
    rw [beq_eq_false_iff_ne, ne_eq, ← UInt32.toNat_inj]
    simp
    omega
  simp only [pairIssues, ha0, hb0, Bool.or_false, bne_iff_ne, ne_eq, ite_not]
  by_cases hspace : a.space = b.space
  · simp only [hspace, if_true, true_implies, RegisterDecl.Apart, RegisterDecl.Within]
    split
    · rename_i hsame
      simp only [Bool.and_eq_true, beq_iff_eq, ← UInt64.toNat_inj] at hsame
      constructor
      · intro h
        exact absurd rfl (h _ (List.mem_singleton.2 rfl))
      · intro h
        simp only [RegisterDecl.stop] at *
        omega
    · rename_i hsame
      simp only [Bool.and_eq_true, beq_iff_eq, ← UInt64.toNat_inj, not_and] at hsame
      rw [harmless_issueIf rfl]
      simp only [RegisterDecl.overlaps, encloses, hspace, beq_self_eq_true, Bool.true_and,
        Bool.and_eq_false_iff, Bool.not_eq_false', Bool.or_eq_true, Bool.and_eq_true,
        decide_eq_true_eq, decide_eq_false_iff_not, UInt64.le_iff_toNat_le]
      simp only [RegisterDecl.stop] at *
      omega
  · simp [hspace]

/-- The issues of the choice of a context register and of its fields. -/
theorem harmless_fieldIssues_iff {d : Definition} (hone : d.contexts.length ≤ 1) :
    Harmless d.fieldIssues ↔
      (d.contexts = [] → d.contextFields = []) ∧
        (d.contextFields.map (·.name)).Nodup ∧
          ∀ c ∈ d.contexts, ∀ f ∈ d.contextFields,
            f.range.lo.toNat ≤ f.range.hi.toNat ∧ f.range.hi.toNat < c.bitSize.toNat := by
  rw [fieldIssues]
  cases hcontexts : d.contexts with
  | nil =>
      rw [harmless_issueIf rfl]
      constructor
      · intro h
        have hnil : d.contextFields = [] := by simpa using h
        simp [hnil]
      · rintro ⟨h, _⟩
        simp [h rfl]
  | cons c rest =>
      have hrest : rest = [] := by
        rw [hcontexts] at hone
        simpa using hone
      have hrange : ∀ f : ContextField, Harmless (rangeIssues c.bitSize f) ↔
          f.range.lo.toNat ≤ f.range.hi.toNat ∧ f.range.hi.toNat < c.bitSize.toNat := by
        intro f
        simp only [rangeIssues, UInt32.lt_iff_toNat_lt, UInt32.le_iff_toNat_le]
        split
        · simp [Harmless, Issue.severity]
          omega
        · rw [harmless_issueIf rfl, decide_eq_false_iff_not]
          omega
      have hwarn : d.contextFields.Pairwise fun a b =>
          Harmless (issueIf (a.range.overlaps b.range) (.fieldsOverlap a b)) := by
        refine List.pairwise_of_forall fun a b i hi => ?_
        simp only [issueIf] at hi
        split at hi <;> simp_all [Issue.severity]
      simp only
      rw [harmless_append,
        harmless_checkEach_nil_iff (·.name) (fun f : ContextField => .repeatedField f.name)
          (fun _ => rfl)]
      simp only [hrange, harmless_flatMap_pairs_iff, hwarn, and_true, hrest, List.mem_singleton,
        forall_eq, false_implies, true_and, List.cons_ne_self]

/-- No address of a space is longer than eight bytes, so no offset is past 64 bits. -/
theorem stop_le_of_placed {d : Definition}
    (hsizes : ∀ s ∈ d.spaces, 1 ≤ s.size.toNat ∧ s.size.toNat ≤ 8) {r : RegisterDecl}
    (hr : ∃ s ∈ d.spaces, s.name = r.space ∧ r.stop ≤ 256 ^ s.size.toNat) :
    r.stop ≤ 2 ^ 64 := by
  obtain ⟨s, hs, _, hstop⟩ := hr
  calc r.stop ≤ 256 ^ s.size.toNat := hstop
    _ ≤ 256 ^ 8 := Nat.pow_le_pow_right (by decide) (hsizes s hs).2
    _ = 2 ^ 64 := by decide

/-- The issues of registers taken two by two, where each of them has bits and a place. -/
theorem harmless_spanIssues_iff {d : Definition}
    (hsizes : ∀ s ∈ d.spaces, 1 ≤ s.size.toNat ∧ s.size.toNat ≤ 8)
    (hsized : ∀ r ∈ d.registers, 1 ≤ r.bitSize.toNat)
    (hplaced : ∀ r ∈ d.registers,
      ∃ s ∈ d.spaces, s.name = r.space ∧ r.stop ≤ 256 ^ s.size.toNat) :
    Harmless d.spanIssues ↔
      d.registers.Pairwise fun a b =>
        a.space = b.space → a.Apart b ∨ a.Within b ∨ b.Within a := by
  rw [spanIssues, harmless_flatMap_pairs_iff]
  refine List.Pairwise.iff_of_mem fun {a b} ha hb => ?_
  exact harmless_pairIssues_iff (hsized a ha) (hsized b hb)
    (stop_le_of_placed hsizes (hplaced a ha)) (stop_le_of_placed hsizes (hplaced b hb))

/-! ## The whole -/

/-- A definition has no error exactly if it is well formed. -/
theorem errors_eq_nil_iff (d : Definition) : d.errors = [] ↔ d.WellFormed := by
  rw [errors_eq_nil_iff_harmless]
  simp only [issues, harmless_append, harmless_identityIssues_iff,
    harmless_compilerSpecIssues_iff, harmless_spaceIssues_iff, harmless_registerIssues_iff,
    contextIssues, harmless_issueIf (rfl : (Issue.severalContexts _).severity = .error),
    decide_eq_false_iff_not, Nat.not_lt]
  constructor
  · rintro ⟨⟨⟨⟨⟨⟨⟨hid, hproc⟩, hspecs, hdefault⟩, hspaces, hsizes, hone⟩, hregs, hsized, hplace⟩,
      hcontext⟩, hspans⟩, hfields⟩
    have hplaced : ∀ r ∈ d.registers,
        ∃ s ∈ d.spaces, s.name = r.space ∧ r.stop ≤ 256 ^ s.size.toNat := fun r hr =>
      (harmless_placeIssues_iff hspaces hsizes (hsized r hr)).1 (hplace r hr)
    obtain ⟨howned, hnodup, hinside⟩ := (harmless_fieldIssues_iff hcontext).1 hfields
    exact
      { id_written := hid
        processor_written := hproc
        specs_nodup := hspecs
        default_declared := hdefault
        spaces_nodup := hspaces
        space_sizes := hsizes
        one_default := hone
        registers_nodup := hregs
        registers_sized := hsized
        registers_placed := hplaced
        one_context := hcontext
        spans := (harmless_spanIssues_iff hsizes hsized hplaced).1 hspans
        fields_owned := howned
        fields_nodup := hnodup
        fields_inside := hinside }
  · intro h
    have hplace : ∀ r ∈ d.registers, Harmless (d.placeIssues r) := fun r hr =>
      (harmless_placeIssues_iff h.spaces_nodup h.space_sizes (h.registers_sized r hr)).2
        (h.registers_placed r hr)
    have hspans := (harmless_spanIssues_iff h.space_sizes h.registers_sized
      h.registers_placed).2 h.spans
    have hfields := (harmless_fieldIssues_iff h.one_context).2
      ⟨h.fields_owned, h.fields_nodup, h.fields_inside⟩
    exact ⟨⟨⟨⟨⟨⟨⟨h.id_written, h.processor_written⟩, h.specs_nodup, h.default_declared⟩,
      h.spaces_nodup, h.space_sizes, h.one_default⟩, h.registers_nodup, h.registers_sized,
      hplace⟩, h.one_context⟩, hspans⟩, hfields⟩

end Definition

end RegisterMigration
