import Mathlib.Data.List.Pairwise
import RegisterMigration.Proofs.Language.Containment

/-!
# The containment forest

A register's parent is looked up as the first of the shortest registers that strictly contain
it.  Nothing in that search says that the parent sits below every other container, or that the
way up passes all of them.  Both follow from what a definition without errors promises of any two
registers of a space: they have no byte in common, or one lies strictly inside the other.  Two
registers around a third one have a byte in common, so they are nested, and the containers of a
register form a chain.  The shortest of them is its lowest member, so the order of the table
decides nothing.

From there everything is an induction along `lineage`: the way up visits exactly the registers
around the one at which it starts, and it ends at the one that nothing contains.

## Main results

* `nested_or_apart` — two registers of one space nest or are apart.
* `eq_of_span_eq` — registers that occupy the same bytes are one register.
* `parentOf?_eq_some_iff`, `parentOf?_eq_none_iff` — the parent is the least container.
* `mem_lineage_iff`, `climb_eq_getElem?` — the way up visits the containers, and ends.
* `apart_of_parentOf?_eq` — registers with one parent, or with none, are apart.
* `containmentForest` — the table of a loaded language is a forest.
-/

namespace RegisterMigration

namespace Register

/-! ## The search for a container -/

theorem shortest?_eq_none_iff {ds : List (RegisterDecl × Nat)} : shortest? ds = none ↔ ds = [] := by
  cases ds with
  | nil => exact ⟨fun _ => rfl, fun _ => rfl⟩
  | cons d ds =>
      refine ⟨fun h => ?_, fun h => absurd h (List.cons_ne_nil d ds)⟩
      unfold shortest? at h
      split at h
      · cases h
      · split at h <;> cases h

theorem byteLen_le_of_shortest {ds : List (RegisterDecl × Nat)} {d : RegisterDecl × Nat}
    (h : shortest? ds = some d) : ∀ e ∈ ds, d.1.byteLen ≤ e.1.byteLen := by
  induction ds generalizing d with
  | nil => simp
  | cons f ds ih =>
      unfold shortest? at h
      cases hrest : shortest? ds with
      | none =>
          rw [hrest] at h
          rcases Option.some.inj h with rfl
          rw [shortest?_eq_none_iff.1 hrest]
          simp
      | some g =>
          have hg := ih hrest
          rw [hrest] at h
          simp only at h
          intro e he
          by_cases hle : f.1.byteLen ≤ g.1.byteLen
          · rw [if_pos hle] at h
            rcases Option.some.inj h with rfl
            rcases List.mem_cons.1 he with rfl | he
            · exact Nat.le_refl _
            · exact Nat.le_trans hle (hg e he)
          · rw [if_neg hle] at h
            rcases Option.some.inj h with rfl
            rcases List.mem_cons.1 he with rfl | he
            · omega
            · exact hg e he

theorem containerIn?_eq_none_iff {decls : List RegisterDecl} {r : RegisterDecl} :
    containerIn? decls r = none ↔ ∀ d ∈ decls, ¬ d.strictlyContains r := by
  rw [containerIn?, Option.map_eq_none_iff, shortest?_eq_none_iff, List.filter_eq_nil_iff]
  constructor
  · intro h d hd
    obtain ⟨i, hi⟩ := List.mem_iff_getElem?.1 hd
    exact h (d, i) (List.mem_zipIdx_iff_getElem?.2 hi)
  · intro h d hd
    exact h d.1 (List.mem_of_getElem? (List.mem_zipIdx_iff_getElem?.1 hd))

/-- The container that is found stands in the list, contains the register, and is no longer than
any other one that does. -/
theorem exists_of_containerIn? {decls : List RegisterDecl} {r : RegisterDecl} {id : RegisterId}
    (h : containerIn? decls r = some id) :
    ∃ d, decls[id.index]? = some d ∧ d.strictlyContains r ∧
      ∀ e ∈ decls, e.strictlyContains r → d.byteLen ≤ e.byteLen := by
  obtain ⟨⟨d, i⟩, hshortest, rfl⟩ := Option.map_eq_some_iff.1 h
  have hmem := mem_of_shortest hshortest
  rw [List.mem_filter, List.mem_zipIdx_iff_getElem?] at hmem
  refine ⟨d, hmem.1, hmem.2, fun e he hcontains => ?_⟩
  obtain ⟨j, hj⟩ := List.mem_iff_getElem?.1 he
  refine byteLen_le_of_shortest hshortest (e, j) ?_
  rw [List.mem_filter, List.mem_zipIdx_iff_getElem?]
  exact ⟨hj, hcontains⟩

end Register

namespace Language

variable {l : Language} {r s a b p : Register}

/-! ## Registers around a register -/

/-- Two registers of one space have no byte in common, or one strictly contains the other. -/
theorem nested_or_apart (hr : r ∈ l.registers) (hs : s ∈ l.registers) (hne : r ≠ s)
    (hspace : r.space = s.space) :
    r.Apart s.toRegisterDecl ∨ r.strictlyContains s.toRegisterDecl ∨
      s.strictlyContains r.toRegisterDecl := by
  have hsymm : Std.Symm fun a b : RegisterDecl =>
      a.space = b.space → a.Apart b ∨ a.Within b ∨ b.Within a := by
    refine ⟨fun a b h hba => ?_⟩
    rcases h hba.symm with hapart | hab | hba
    · exact Or.inl hapart.symm
    · exact Or.inr (Or.inr hab)
    · exact Or.inr (Or.inl hba)
  have hdecl : r.toRegisterDecl ≠ s.toRegisterDecl := by
    intro heq
    exact hne (eq_of_name_eq hr hs (congrArg RegisterDecl.name heq))
  rw [strictlyContains_iff hr hs, strictlyContains_iff hs hr]
  rcases l.wellFormed.spans.forall (decl_mem hr) (decl_mem hs) hdecl hspace with
    hapart | ⟨hoffset, hstop, hlen⟩ | ⟨hoffset, hstop, hlen⟩
  · exact Or.inl hapart
  · exact Or.inr (Or.inr ⟨⟨hspace, hoffset, hstop⟩, hlen⟩)
  · exact Or.inr (Or.inl ⟨⟨hspace.symm, hoffset, hstop⟩, hlen⟩)

theorem inside_iff (hr : r ∈ l.registers) (ha : a ∈ l.registers) :
    r.Inside a.toRegisterDecl ↔ a = r ∨ a.strictlyContains r.toRegisterDecl := by
  constructor
  · intro hinside
    by_cases heq : a = r
    · exact Or.inl heq
    · obtain ⟨hspace, hoffset, hstop⟩ := hinside
      have hpos := byteLen_pos hr
      -- All bytes of `r` are in `a`, which only one of the three ways to lie allows.
      rcases nested_or_apart ha hr heq hspace.symm with hapart | hcontains | hcontains
      · unfold RegisterDecl.Apart RegisterDecl.stop at hapart
        unfold RegisterDecl.stop at hstop
        omega
      · exact Or.inr hcontains
      · have hlen := ((strictlyContains_iff ha hr).1 hcontains).2
        unfold RegisterDecl.stop at hstop
        omega
  · intro h
    rcases h with rfl | hcontains
    · exact .refl _
    · exact ((strictlyContains_iff hr ha).1 hcontains).1

/-- Of two registers around a third one, one is around the other: they share its bytes. -/
theorem inside_or_inside (hr : r ∈ l.registers) (ha : a ∈ l.registers) (hb : b ∈ l.registers)
    (hra : r.Inside a.toRegisterDecl) (hrb : r.Inside b.toRegisterDecl) :
    a.Inside b.toRegisterDecl ∨ b.Inside a.toRegisterDecl := by
  by_cases heq : a = b
  · rw [heq]
    exact Or.inl (.refl _)
  · have hpos := byteLen_pos hr
    have hspace : a.space = b.space := hra.1.symm.trans hrb.1
    rcases nested_or_apart ha hb heq hspace with hapart | hcontains | hcontains
    · obtain ⟨_, haoffset, hastop⟩ := hra
      obtain ⟨_, hboffset, hbstop⟩ := hrb
      unfold RegisterDecl.Apart at hapart
      have hstop : r.stop = r.offset.toNat + r.byteLen := rfl
      omega
    · exact Or.inr ((inside_iff hb ha).2 (Or.inr hcontains))
    · exact Or.inl ((inside_iff ha hb).2 (Or.inr hcontains))

/-- Registers that occupy the same bytes are one register. -/
theorem eq_of_span_eq (hr : r ∈ l.registers) (hs : s ∈ l.registers) (hspace : r.space = s.space)
    (hoffset : r.offset = s.offset) (hlen : r.byteLen = s.byteLen) : r = s := by
  by_contra hne
  have hpos := byteLen_pos hr
  rcases nested_or_apart hr hs hne hspace with hapart | hcontains | hcontains
  · unfold RegisterDecl.Apart RegisterDecl.stop at hapart
    rw [hoffset] at hapart
    omega
  · have hlt := ((strictlyContains_iff hs hr).1 hcontains).2
    omega
  · have hlt := ((strictlyContains_iff hr hs).1 hcontains).2
    omega

/-! ## Parents -/

theorem parent_eq (hr : r ∈ l.registers) :
    r.parent = Register.containerIn? l.definition.registers r.toRegisterDecl := by
  obtain ⟨d, _, heq⟩ := registerById_eq_some_iff.1 (mem_registers_iff.1 hr)
  rw [heq]

/-- The id that was resolved when the language was loaded leads to a register of the table, which
is no longer than any other one that strictly contains `r`. -/
theorem exists_parentOf_of_parent {id : RegisterId} (hr : r ∈ l.registers)
    (hid : r.parent = some id) :
    ∃ p, l.parentOf? r.id = some p ∧ p.id = id ∧
      ∀ a ∈ l.registers, a.strictlyContains r.toRegisterDecl → p.byteLen ≤ a.byteLen := by
  have hfound := hid
  rw [parent_eq hr] at hfound
  obtain ⟨d, hd, _, hshort⟩ := Register.exists_of_containerIn? hfound
  have hat : ∃ p, l.registerById? id = some p ∧ p.toRegisterDecl = d :=
    ⟨_, registerById_eq_some_iff.2 ⟨d, hd, rfl⟩, rfl⟩
  obtain ⟨p, hp, rfl⟩ := hat
  refine ⟨p, ?_, id_eq_of_registerById hp, fun a ha => hshort _ (decl_mem ha)⟩
  rw [parentOf?, mem_registers_iff.1 hr, Option.bind_some, hid, Option.bind_some, hp]

theorem exists_parentOf (hr : r ∈ l.registers) (ha : a ∈ l.registers)
    (hcontains : a.strictlyContains r.toRegisterDecl) :
    ∃ p, l.parentOf? r.id = some p ∧ p.byteLen ≤ a.byteLen := by
  cases hid : r.parent with
  | none =>
      rw [parent_eq hr] at hid
      exact absurd hcontains (Register.containerIn?_eq_none_iff.1 hid _ (decl_mem ha))
  | some id =>
      obtain ⟨p, hp, _, hshort⟩ := exists_parentOf_of_parent hr hid
      exact ⟨p, hp, hshort a ha hcontains⟩

theorem parentOf_mem {id : RegisterId} (hp : l.parentOf? id = some p) : p ∈ l.registers :=
  mem_of_registerById (registerById_of_parentOf hp)

theorem parentOf?_eq_none_iff (hr : r ∈ l.registers) :
    l.parentOf? r.id = none ↔ ∀ a ∈ l.registers, ¬ a.strictlyContains r.toRegisterDecl := by
  constructor
  · intro hnone a ha hcontains
    obtain ⟨p, hp, _⟩ := exists_parentOf hr ha hcontains
    rw [hnone] at hp
    cases hp
  · intro h
    rw [Option.eq_none_iff_forall_ne_some]
    intro p hp
    exact h p (parentOf_mem hp) (strictlyContains_of_parentOf (mem_registers_iff.1 hr) hp)

/-- Whatever strictly contains a register is around its parent. -/
theorem parentOf_inside (hr : r ∈ l.registers) (hp : l.parentOf? r.id = some p)
    (ha : a ∈ l.registers) (hcontains : a.strictlyContains r.toRegisterDecl) :
    p.Inside a.toRegisterDecl := by
  have hpmem := parentOf_mem hp
  have hrp := inside_of_parentOf (mem_registers_iff.1 hr) hp
  have hra := (inside_iff hr ha).2 (Or.inr hcontains)
  obtain ⟨p', hp', hshort⟩ := exists_parentOf hr ha hcontains
  rw [hp] at hp'
  rcases Option.some.inj hp' with rfl
  -- Both are around `r`, so they are nested, and the parent is not the longer one.
  rcases inside_or_inside hr hpmem ha hrp hra with h | h
  · exact h
  · rcases (inside_iff ha hpmem).1 h with rfl | hlonger
    · exact .refl _
    · have hlen := ((strictlyContains_iff ha hpmem).1 hlonger).2
      omega

/-- The parent is the least container: it strictly contains the register, and every other
register that does strictly contains the parent. -/
theorem parentOf?_eq_some_iff (hr : r ∈ l.registers) :
    l.parentOf? r.id = some p ↔
      p ∈ l.registers ∧ p.strictlyContains r.toRegisterDecl ∧
        ∀ a ∈ l.registers, a ≠ p → a.strictlyContains r.toRegisterDecl →
          a.strictlyContains p.toRegisterDecl := by
  constructor
  · intro hp
    have hpmem := parentOf_mem hp
    refine ⟨hpmem, strictlyContains_of_parentOf (mem_registers_iff.1 hr) hp, ?_⟩
    intro a ha hne hcontains
    rcases (inside_iff hpmem ha).1 (parentOf_inside hr hp ha hcontains) with heq | h
    · exact absurd heq hne
    · exact h
  · rintro ⟨hpmem, hcontains, hleast⟩
    obtain ⟨q, hq, hshort⟩ := exists_parentOf hr hpmem hcontains
    have hqmem := parentOf_mem hq
    by_cases heq : q = p
    · rw [← heq]
      exact hq
    · have hqr := strictlyContains_of_parentOf (mem_registers_iff.1 hr) hq
      have hlonger := ((strictlyContains_iff hpmem hqmem).1 (hleast q hqmem heq hqr)).2
      omega

/-! ## The way up -/

theorem lineage_of_parentOf_eq_none (hr : r ∈ l.registers) (hp : l.parentOf? r.id = none) :
    l.lineage r.id = [r] := by
  fun_cases lineage l r.id with
  | case1 hnone =>
      rw [mem_registers_iff.1 hr] at hnone
      cases hnone
  | case2 s hs _ =>
      rw [mem_registers_iff.1 hr] at hs
      rw [Option.some.inj hs]
  | case3 s _ q hq =>
      rw [hp] at hq
      cases hq

theorem lineage_of_parentOf_eq_some (hr : r ∈ l.registers) (hp : l.parentOf? r.id = some p) :
    l.lineage r.id = r :: l.lineage p.id := by
  fun_cases lineage l r.id with
  | case1 hnone =>
      rw [mem_registers_iff.1 hr] at hnone
      cases hnone
  | case2 s _ hnone =>
      rw [hp] at hnone
      cases hnone
  | case3 s hs q hq =>
      rw [mem_registers_iff.1 hr] at hs
      rw [hp] at hq
      rw [Option.some.inj hs, Option.some.inj hq]

theorem mem_lineage_of_inside {id : RegisterId} (hr : l.registerById? id = some r)
    (ha : a ∈ l.registers) (hinside : r.Inside a.toRegisterDecl) : a ∈ l.lineage id := by
  -- A register strictly around the first one is around its parent, where the way goes on.
  fun_induction lineage l id generalizing r with
  | case1 id hnone =>
      rw [hr] at hnone
      cases hnone
  | case2 id s hs hnone =>
      rw [hr] at hs
      rcases Option.some.inj hs with rfl
      have hmem := mem_of_registerById hr
      rw [← id_eq_of_registerById hr] at hnone
      rcases (inside_iff hmem ha).1 hinside with rfl | hcontains
      · exact List.mem_singleton_self _
      · exact absurd hcontains ((parentOf?_eq_none_iff hmem).1 hnone a ha)
  | case3 id s hs p hp ih =>
      rw [hr] at hs
      rcases Option.some.inj hs with rfl
      have hmem := mem_of_registerById hr
      rcases (inside_iff hmem ha).1 hinside with rfl | hcontains
      · exact List.mem_cons_self
      · have hp' := hp
        rw [← id_eq_of_registerById hr] at hp'
        exact List.mem_cons_of_mem _
          (ih (registerById_of_parentOf hp) (parentOf_inside hmem hp' ha hcontains))

/-- The way up visits exactly the registers around the one at which it starts. -/
theorem mem_lineage_iff (hr : r ∈ l.registers) :
    a ∈ l.lineage r.id ↔ a ∈ l.registers ∧ r.Inside a.toRegisterDecl := by
  have hat := mem_registers_iff.1 hr
  constructor
  · intro h
    exact inside_of_mem_lineage hat h
  · rintro ⟨ha, hinside⟩
    exact mem_lineage_of_inside hat ha hinside

/-- The register that is reached from an id in `n` steps to the parent. -/
def climb (l : Language) (id : RegisterId) : Nat → Option Register
  | 0 => l.registerById? id
  | n + 1 => (l.parentOf? id).bind fun p => l.climb p.id n

/-- Going up step by step follows `lineage`, and ends where it does. -/
theorem climb_eq_getElem? (l : Language) (id : RegisterId) (n : Nat) :
    l.climb id n = (l.lineage id)[n]? := by
  fun_induction lineage l id generalizing n with
  | case1 id hnone =>
      cases n with
      | zero => exact hnone
      | succ n =>
          have hparent : l.parentOf? id = none := by rw [parentOf?, hnone]; rfl
          rw [climb, hparent]
          rfl
  | case2 id s hs hnone =>
      cases n with
      | zero => exact hs
      | succ n =>
          rw [climb, hnone]
          rfl
  | case3 id s hs p hp ih =>
      cases n with
      | zero => exact hs
      | succ n =>
          rw [climb, hp, Option.bind_some, ih n]
          rfl

theorem isAncestorOrSelf_iff (ha : a ∈ l.registers) (hr : r ∈ l.registers) :
    l.isAncestorOrSelf a.id r.id ↔ a = r ∨ a.strictlyContains r.toRegisterDecl := by
  rw [← inside_iff hr ha, isAncestorOrSelf, Bool.or_eq_true, beq_iff_eq, List.any_eq_true]
  constructor
  · rintro (hid | ⟨b, hb, hid⟩)
    · rw [eq_of_id_eq ha hr hid]
      exact .refl _
    · obtain ⟨hbmem, hinside⟩ := (mem_lineage_iff hr).1 hb
      rw [← eq_of_id_eq hbmem ha (beq_iff_eq.1 hid)]
      exact hinside
  · intro hinside
    exact Or.inr ⟨a, (mem_lineage_iff hr).2 ⟨ha, hinside⟩, beq_self_eq_true _⟩

/-! ## Bases and siblings -/

/-- The way up ends at a register without a parent. -/
theorem parentOf?_of_baseOf {id : RegisterId} (hb : l.baseOf? id = some b) :
    l.parentOf? b.id = none := by
  unfold baseOf? at hb
  fun_induction lineage l id with
  | case1 => cases hb
  | case2 id s hs hnone =>
      rw [List.getLast?_singleton] at hb
      rcases Option.some.inj hb with rfl
      rw [id_eq_of_registerById hs]
      exact hnone
  | case3 id s hs p hp ih =>
      have hne : l.lineage p.id ≠ [] :=
        List.ne_nil_of_mem (mem_lineage_self (registerById_of_parentOf hp))
      rw [List.getLast?_cons_of_ne_nil hne] at hb
      exact ih hb

/-- The base is the one register without a parent that is around the register. -/
theorem exists_baseOf?_unique (hr : r ∈ l.registers) :
    ∃ b, l.baseOf? r.id = some b ∧
      ∀ a, a ∈ l.registers ∧ l.parentOf? a.id = none ∧
        (a = r ∨ a.strictlyContains r.toRegisterDecl) ↔ a = b := by
  obtain ⟨b, hlineage, hbase⟩ := exists_baseOf (mem_registers_iff.1 hr)
  obtain ⟨hb, hrb⟩ := (mem_lineage_iff hr).1 hlineage
  have hnone := parentOf?_of_baseOf hbase
  refine ⟨b, hbase, fun a => ?_⟩
  constructor
  · rintro ⟨ha, hanone, haround⟩
    have hra := (inside_iff hr ha).2 haround
    -- The two are nested, and neither of them is contained in anything.
    rcases inside_or_inside hr ha hb hra hrb with h | h
    · rcases (inside_iff ha hb).1 h with heq | hcontains
      · exact heq.symm
      · exact absurd hcontains ((parentOf?_eq_none_iff ha).1 hanone b hb)
    · rcases (inside_iff hb ha).1 h with heq | hcontains
      · exact heq
      · exact absurd hcontains ((parentOf?_eq_none_iff hb).1 hnone a ha)
  · rintro rfl
    exact ⟨hb, hnone, (inside_iff hr hb).1 hrb⟩

/-- Registers of one space with the same parent, or without one, are apart.  If one contained
the other, the common parent would lie between the two and above both. -/
theorem apart_of_parentOf?_eq (hr : r ∈ l.registers) (hs : s ∈ l.registers) (hne : r ≠ s)
    (hspace : r.space = s.space) (hparent : l.parentOf? r.id = l.parentOf? s.id) :
    r.Apart s.toRegisterDecl := by
  have hnot : ∀ x ∈ l.registers, ∀ y ∈ l.registers, l.parentOf? x.id = l.parentOf? y.id →
      ¬ x.strictlyContains y.toRegisterDecl := by
    intro x hx y hy hxy hcontains
    obtain ⟨p, hp, hshort⟩ := exists_parentOf hy hx hcontains
    rw [← hxy] at hp
    have hlen := byteLen_lt_of_parentOf (mem_registers_iff.1 hx) hp
    omega
  rcases nested_or_apart hr hs hne hspace with hapart | hcontains | hcontains
  · exact hapart
  · exact absurd hcontains (hnot r hr s hs hparent)
  · exact absurd hcontains (hnot s hs r hr hparent.symm)

theorem mem_childrenOf_iff {id : RegisterId} :
    r ∈ l.childrenOf id ↔ r ∈ l.registers ∧ ∃ p, l.parentOf? r.id = some p ∧ p.id = id := by
  rw [childrenOf, List.mem_filter, Array.mem_toList_iff, beq_iff_eq]
  refine and_congr_right fun hr => ?_
  constructor
  · intro hid
    obtain ⟨p, hp, hpid, _⟩ := exists_parentOf_of_parent hr hid
    exact ⟨p, hp, hpid⟩
  · rintro ⟨p, hp, rfl⟩
    rw [parentOf?, mem_registers_iff.1 hr, Option.bind_some] at hp
    obtain ⟨id, hid, hp⟩ := Option.bind_eq_some_iff.1 hp
    rw [hid, id_eq_of_registerById hp]

/-- The registers of a language form a forest in which going up means going outwards. -/
structure ContainmentForest (l : Language) : Prop where
  nested_or_apart : ∀ r ∈ l.registers, ∀ s ∈ l.registers, r ≠ s → r.space = s.space →
    r.Apart s.toRegisterDecl ∨ r.strictlyContains s.toRegisterDecl ∨
      s.strictlyContains r.toRegisterDecl
  parent_iff : ∀ r ∈ l.registers, ∀ p, l.parentOf? r.id = some p ↔
    p ∈ l.registers ∧ p.strictlyContains r.toRegisterDecl ∧
      ∀ a ∈ l.registers, a ≠ p → a.strictlyContains r.toRegisterDecl →
        a.strictlyContains p.toRegisterDecl
  parentless_iff : ∀ r ∈ l.registers, l.parentOf? r.id = none ↔
    ∀ a ∈ l.registers, ¬ a.strictlyContains r.toRegisterDecl
  climb_ends : ∀ id, ∃ n, ∀ k, (l.climb id k).isSome ↔ k < n
  ancestor_iff : ∀ a ∈ l.registers, ∀ r ∈ l.registers,
    l.isAncestorOrSelf a.id r.id ↔ a = r ∨ a.strictlyContains r.toRegisterDecl
  base_unique : ∀ r ∈ l.registers, ∃ b, l.baseOf? r.id = some b ∧
    ∀ a, a ∈ l.registers ∧ l.parentOf? a.id = none ∧
      (a = r ∨ a.strictlyContains r.toRegisterDecl) ↔ a = b
  children_apart : ∀ id, ∀ r ∈ l.childrenOf id, ∀ s ∈ l.childrenOf id, r ≠ s →
    r.Apart s.toRegisterDecl
  roots_apart : ∀ r ∈ l.registers, ∀ s ∈ l.registers, l.parentOf? r.id = none →
    l.parentOf? s.id = none → r ≠ s → r.space = s.space → r.Apart s.toRegisterDecl

/-- Strict containment makes the table of every loaded language a forest. -/
theorem containmentForest (l : Language) : l.ContainmentForest where
  nested_or_apart _ hr _ hs hne hspace := nested_or_apart hr hs hne hspace
  parent_iff _ hr _ := parentOf?_eq_some_iff hr
  parentless_iff _ hr := parentOf?_eq_none_iff hr
  climb_ends id := by
    refine ⟨(l.lineage id).length, fun k => ?_⟩
    rw [climb_eq_getElem?, Option.isSome_iff_ne_none, ne_eq, List.getElem?_eq_none_iff, Nat.not_le]
  ancestor_iff _ ha _ hr := isAncestorOrSelf_iff ha hr
  base_unique _ hr := exists_baseOf?_unique hr
  children_apart id r hr s hs hne := by
    obtain ⟨hrmem, p, hrp, hpid⟩ := mem_childrenOf_iff.1 hr
    obtain ⟨hsmem, q, hsq, hqid⟩ := mem_childrenOf_iff.1 hs
    rcases eq_of_id_eq (parentOf_mem hrp) (parentOf_mem hsq) (hpid.trans hqid.symm) with rfl
    have hrspace := (inside_of_parentOf (mem_registers_iff.1 hrmem) hrp).1
    have hsspace := (inside_of_parentOf (mem_registers_iff.1 hsmem) hsq).1
    exact apart_of_parentOf?_eq hrmem hsmem hne (hrspace.trans hsspace.symm) (hrp.trans hsq.symm)
  roots_apart _ hr _ hs hrnone hsnone hne hspace :=
    apart_of_parentOf?_eq hr hs hne hspace (hrnone.trans hsnone.symm)

end Language

end RegisterMigration
