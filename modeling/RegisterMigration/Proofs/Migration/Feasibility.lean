import RegisterMigration.Proofs.Migration.Counterpart
import RegisterMigration.Proofs.Migration.SharedFields

/-!
# When a migrator exists

Building a migrator is a search for obstacles.  This module says what is searched for:
`Language.Compatible` is the condition on two languages under which nothing is found, and
`FirstObstacle` the obstacle that is reported where something is.  Neither mentions a lookup
or a loop; spaces, registers and fields are named by membership.

A register that does not survive is no obstacle, and the context register may become
narrower, since its fields decide about it.

## Main results

* `ofRegister?_eq_some_iff`, `ofRegister?_eq_none_iff` — the checks of one register.
* `exists_build_iff`, `build_eq_error_iff` — the whole search.
* `build_decides` — the search is sound and complete, names the first obstacle, and never
  finds a field out of range.
-/

namespace RegisterMigration

namespace Language

/-- The new language still has a space of the name of a register's space. -/
def KeepsSpace (new : Language) (r : Register) : Prop :=
  ∃ s ∈ new.definition.spaces, s.name = r.space

/-- The spaces of two registers are of one kind. -/
def SameKind (old new : Language) (r n : Register) : Prop :=
  ∃ s ∈ old.definition.spaces, ∃ t ∈ new.definition.spaces,
    s.name = r.space ∧ t.name = n.space ∧ s.kind = t.kind

/-- A register does not survive, or its values can be carried over to its counterpart as far
as its space and its size go. -/
def Carries (old new : Language) (r : Register) : Prop :=
  ∀ n, new.Corresponds r n →
    new.KeepsSpace r ∧ old.SameKind new r n ∧
      (r.context = false → r.bitSize.toNat ≤ n.bitSize.toNat)

/-- Values can be carried over from one language to another.  Fields count where both
languages have a context register; a language without one has none. -/
structure Compatible (old new : Language) : Prop where
  processor : old.definition.processor = new.definition.processor
  endianness : old.definition.endianness = new.definition.endianness
  registers : ∀ r ∈ old.registers, old.Carries new r
  sized : old.SharedSized new
  apart : new.SharedApart old

/-- What is wrong with a register that survives: its space is gone, or else its space is of
another kind, or else it is narrower. -/
inductive Hinders (old new : Language) (r : Register) : Obstacle → Prop
  | missingSpace {n : Register} :
      new.Corresponds r n → ¬ new.KeepsSpace r → Hinders old new r (.missingSpace r)
  | spaceKind {n : Register} {s t : AddressSpace} :
      new.Corresponds r n → new.KeepsSpace r →
        s ∈ old.definition.spaces → s.name = r.space →
          t ∈ new.definition.spaces → t.name = n.space → s.kind ≠ t.kind →
            Hinders old new r (.spaceKind r n.space s.kind t.kind)
  | narrowed {n : Register} :
      new.Corresponds r n → new.KeepsSpace r → old.SameKind new r n →
        r.context = false → n.bitSize.toNat < r.bitSize.toNat →
          Hinders old new r (.narrowed r n)

/-- The first thing that keeps values from being carried over: the processor, the byte order,
a register in the order of the table, and last the fields. -/
inductive FirstObstacle (old new : Language) : Obstacle → Prop
  | processor :
      old.definition.processor ≠ new.definition.processor →
        FirstObstacle old new (.processor old.definition.processor new.definition.processor)
  | endianness :
      old.definition.processor = new.definition.processor →
        old.definition.endianness ≠ new.definition.endianness →
          FirstObstacle old new
            (.endianness old.definition.endianness new.definition.endianness)
  | register {r : Register} {before after : List Register} {o : Obstacle} :
      old.definition.processor = new.definition.processor →
        old.definition.endianness = new.definition.endianness →
          old.registers.toList = before ++ r :: after → (∀ q ∈ before, old.Carries new q) →
            old.Hinders new r o → FirstObstacle old new o
  | context {c : ContextConflict} :
      old.definition.processor = new.definition.processor →
        old.definition.endianness = new.definition.endianness →
          (∀ r ∈ old.registers, old.Carries new r) → ContextMap.Clash old new c →
            FirstObstacle old new (.context c)

theorem keepsSpace_iff {new : Language} {r : Register} :
    new.KeepsSpace r ↔ ∃ s, new.space? r.space = some s := by
  simp only [KeepsSpace, space?_eq_some_iff]

/-- In loaded languages, the kinds of two registers' spaces can be looked up. -/
theorem sameKind_iff {old new : Language} {r n : Register} {s t : AddressSpace}
    (hs : old.space? r.space = some s) (ht : new.space? n.space = some t) :
    old.SameKind new r n ↔ s.kind = t.kind := by
  constructor
  · intro h
    rcases h with ⟨s', hs', t', ht', hsname, htname, hkind⟩
    rw [space?_eq_some_iff.2 ⟨hs', hsname⟩] at hs
    rw [space?_eq_some_iff.2 ⟨ht', htname⟩] at ht
    rcases Option.some.inj hs with rfl
    rcases Option.some.inj ht with rfl
    exact hkind
  · intro hkind
    obtain ⟨hsmem, hsname⟩ := space?_eq_some_iff.1 hs
    obtain ⟨htmem, htname⟩ := space?_eq_some_iff.1 ht
    exact ⟨s, hsmem, t, htmem, hsname, htname, hkind⟩

/-- A register hinders exactly if it survives and cannot be carried over. -/
theorem forall_not_hinders_iff {old new : Language} {r : Register} (hr : r ∈ old.registers) :
    (∀ o, ¬ old.Hinders new r o) ↔ old.Carries new r := by
  constructor
  · intro h n hn
    obtain ⟨s, hs⟩ := exists_space_of_mem hr
    obtain ⟨t, ht⟩ := exists_space_of_mem hn.1
    obtain ⟨hsmem, hsname⟩ := space?_eq_some_iff.1 hs
    obtain ⟨htmem, htname⟩ := space?_eq_some_iff.1 ht
    have hkeeps : new.KeepsSpace r := by
      by_contra hnot
      exact h _ (.missingSpace hn hnot)
    have hkind : old.SameKind new r n := by
      rw [sameKind_iff hs ht]
      by_contra hne
      exact h _ (.spaceKind hn hkeeps hsmem hsname htmem htname hne)
    refine ⟨hkeeps, hkind, fun hcontext => ?_⟩
    by_contra hlt
    exact h _ (.narrowed hn hkeeps hkind hcontext (by omega))
  · rintro h o (⟨hn, hnot⟩ | ⟨hn, _, hs, hsname, ht, htname, hne⟩ | ⟨hn, _, _, hcontext, hlt⟩)
    · exact hnot (h _ hn).1
    · obtain ⟨_, hkind, _⟩ := h _ hn
      exact hne ((sameKind_iff (space?_eq_some_iff.2 ⟨hs, hsname⟩)
        (space?_eq_some_iff.2 ⟨ht, htname⟩)).1 hkind)
    · have hle := (h _ hn).2.2 hcontext
      omega

end Language

namespace Obstacle

variable {old new : Language}

/-- The checks of a register that survives, one after the other. -/
theorem ofRegister?_eq {r n : Register} {s t : AddressSpace} (hn : new.Corresponds r n)
    (hs : old.space? r.space = some s) (ht : new.space? n.space = some t) :
    ofRegister? old new r =
      if (new.space? r.space).isNone then some (.missingSpace r)
      else if s.kind ≠ t.kind then some (.spaceKind r n.space s.kind t.kind)
      else if r.context = false ∧ n.bitSize.toNat < r.bitSize.toNat then some (.narrowed r n)
      else none := by
  rw [ofRegister?, Language.counterpart?_eq_some_iff.2 hn, Option.bind_some, ofSpaceKind?, hs, ht]
  by_cases hkind : s.kind = t.kind
  · simp [hkind, UInt32.lt_iff_toNat_lt]
  · simp [hkind]

/-- What the checks of a register find hinders. -/
theorem hinders_of_ofRegister? {r : Register} (hr : r ∈ old.registers) {o : Obstacle}
    (h : ofRegister? old new r = some o) : old.Hinders new r o := by
  obtain ⟨n, hcounterpart, _⟩ := Option.bind_eq_some_iff.1 h
  have hn := Language.counterpart?_eq_some_iff.1 hcounterpart
  obtain ⟨s, hs⟩ := Language.exists_space_of_mem hr
  obtain ⟨t, ht⟩ := Language.exists_space_of_mem hn.1
  rw [ofRegister?_eq hn hs ht] at h
  by_cases hkeeps : new.KeepsSpace r
  · obtain ⟨u, hu⟩ := Language.keepsSpace_iff.1 hkeeps
    rw [hu, Option.isNone_some, if_neg Bool.false_ne_true] at h
    by_cases hkind : s.kind = t.kind
    · rw [if_neg (not_not.2 hkind)] at h
      obtain ⟨⟨hcontext, hlt⟩, ho⟩ := Option.ite_none_right_eq_some.1 h
      rcases Option.some.inj ho with rfl
      exact .narrowed hn hkeeps ((Language.sameKind_iff hs ht).2 hkind) hcontext hlt
    · rw [if_pos hkind] at h
      rcases Option.some.inj h with rfl
      have hold := Language.space?_eq_some_iff.1 hs
      have hnew := Language.space?_eq_some_iff.1 ht
      exact .spaceKind hn hkeeps hold.1 hold.2 hnew.1 hnew.2 hkind
  · have hnone : new.space? r.space = none := by
      rw [Option.eq_none_iff_forall_ne_some]
      intro u hu
      exact hkeeps (Language.keepsSpace_iff.2 ⟨u, hu⟩)
    rw [hnone, Option.isNone_none, if_pos rfl] at h
    rcases Option.some.inj h with rfl
    exact .missingSpace hn hkeeps

/-- What hinders is found by the checks of the register. -/
theorem ofRegister?_of_hinders {r : Register} (hr : r ∈ old.registers) {o : Obstacle}
    (h : old.Hinders new r o) : ofRegister? old new r = some o := by
  have hpresent : new.KeepsSpace r → ¬ (new.space? r.space).isNone := by
    intro hkeeps
    obtain ⟨u, hu⟩ := Language.keepsSpace_iff.1 hkeeps
    rw [hu]
    exact Bool.false_ne_true
  cases h with
  | missingSpace hn hnot =>
      obtain ⟨s, hs⟩ := Language.exists_space_of_mem hr
      obtain ⟨t, ht⟩ := Language.exists_space_of_mem hn.1
      rw [ofRegister?_eq hn hs ht, if_pos]
      rw [Option.isNone_iff_eq_none, Option.eq_none_iff_forall_ne_some]
      intro u hu
      exact hnot (Language.keepsSpace_iff.2 ⟨u, hu⟩)
  | spaceKind hn hkeeps hs hsname ht htname hne =>
      have hold := Language.space?_eq_some_iff.2 ⟨hs, hsname⟩
      have hnew := Language.space?_eq_some_iff.2 ⟨ht, htname⟩
      rw [ofRegister?_eq hn hold hnew, if_neg (hpresent hkeeps), if_pos hne]
  | narrowed hn hkeeps hsame hcontext hlt =>
      rcases hsame with ⟨s, hs, t, ht, hsname, htname, hkind⟩
      have hold := Language.space?_eq_some_iff.2 ⟨hs, hsname⟩
      have hnew := Language.space?_eq_some_iff.2 ⟨ht, htname⟩
      rw [ofRegister?_eq hn hold hnew, if_neg (hpresent hkeeps), if_neg (not_not.2 hkind),
        if_pos ⟨hcontext, hlt⟩]

/-- The checks of a register find what hinders. -/
theorem ofRegister?_eq_some_iff {r : Register} (hr : r ∈ old.registers) {o : Obstacle} :
    ofRegister? old new r = some o ↔ old.Hinders new r o :=
  ⟨hinders_of_ofRegister? hr, ofRegister?_of_hinders hr⟩

theorem ofRegister?_eq_none_iff {r : Register} (hr : r ∈ old.registers) :
    ofRegister? old new r = none ↔ old.Carries new r := by
  rw [Option.eq_none_iff_forall_ne_some, ← Language.forall_not_hinders_iff hr]
  exact forall_congr' fun o => not_congr (ofRegister?_eq_some_iff hr)

/-- Nothing is found before the fields exactly if the processor and the byte order are the
same and every register can be carried over. -/
theorem ofRegisters?_eq_none_iff :
    ofRegisters? old new = none ↔
      old.definition.processor = new.definition.processor ∧
        old.definition.endianness = new.definition.endianness ∧
          ∀ r ∈ old.registers, old.Carries new r := by
  have hregisters : old.registers.toList.findSome? (ofRegister? old new) = none ↔
      ∀ r ∈ old.registers, old.Carries new r := by
    rw [List.findSome?_eq_none_iff]
    simp only [Array.mem_toList_iff]
    exact forall₂_congr fun r hr => ofRegister?_eq_none_iff hr
  rw [ofRegisters?, Option.or_eq_none_iff, Option.or_eq_none_iff, hregisters, ofProcessor?,
    ofEndianness?, and_assoc]
  simp

/-- What is found before the fields is the first obstacle. -/
theorem ofRegisters?_eq_some_iff {o : Obstacle} :
    ofRegisters? old new = some o ↔
      old.FirstObstacle new o ∧ ∀ c, o ≠ .context c := by
  rw [ofRegisters?, Option.or_eq_some_iff, Option.or_eq_some_iff, Option.or_eq_none_iff,
    List.findSome?_eq_some_iff, ofProcessor?, ofEndianness?]
  simp only [ite_eq_left_iff, Option.ite_none_left_eq_some, reduceCtorEq, imp_false, not_not,
    Option.some.injEq]
  constructor
  · rintro ((⟨hproc, rfl⟩ | ⟨hproc, hendian, rfl⟩) |
      ⟨⟨hproc, hendian⟩, before, r, after, hsplit, ho, hbefore⟩)
    · exact ⟨.processor hproc, by simp⟩
    · exact ⟨.endianness hproc hendian, by simp⟩
    · have hmem : ∀ q ∈ before ++ r :: after, q ∈ old.registers := fun q hq =>
        Array.mem_toList_iff.1 (hsplit ▸ hq)
      have hhinders := (ofRegister?_eq_some_iff (hmem r (by simp))).1 ho
      refine ⟨.register hproc hendian hsplit (fun q hq => ?_) hhinders, ?_⟩
      · exact (ofRegister?_eq_none_iff (hmem q (by simp [hq]))).1 (hbefore q hq)
      · rintro c rfl
        cases hhinders
  · rintro ⟨hproc | ⟨hproc, hendian⟩ | ⟨hproc, hendian, hsplit, hbefore, hhinders⟩ |
      ⟨_, _, _, _⟩, hne⟩
    · exact Or.inl (Or.inl ⟨hproc, rfl⟩)
    · exact Or.inl (Or.inr ⟨hproc, hendian, rfl⟩)
    · have hmem : ∀ q ∈ _, q ∈ old.registers := fun q hq =>
        Array.mem_toList_iff.1 (hsplit ▸ hq)
      refine Or.inr ⟨⟨hproc, hendian⟩, _, _, _, hsplit, ?_, fun q hq => ?_⟩
      · exact (ofRegister?_eq_some_iff (hmem _ (by simp))).2 hhinders
      · exact (ofRegister?_eq_none_iff (hmem q (by simp [hq]))).2 (hbefore q hq)
    · exact absurd rfl (hne _)

end Obstacle

namespace ContextMap

variable {old new : Language}

theorem FirstMeeting.mem {ms : List FieldMove} {m n : FieldMove} (h : FirstMeeting ms m n) :
    m ∈ ms := by
  induction h with
  | here => exact List.mem_cons_self
  | later _ _ ih => exact List.mem_cons_of_mem _ ih

/-- Where fields clash, both languages have a context register. -/
theorem Clash.exists_context {c : ContextConflict} (h : Clash old new c) :
    (∃ o, old.contextRegister? = some o) ∧ ∃ n, new.contextRegister? = some n := by
  have hmove : ∃ m, m ∈ movesBetween old new := by
    cases h with
    | widthChanged hsplit _ _ =>
        exact ⟨_, hsplit ▸ List.mem_append_right _ List.mem_cons_self⟩
    | overlap _ hmeet => exact ⟨_, hmeet.mem⟩
  obtain ⟨m, hm⟩ := hmove
  obtain ⟨f, hf, g, hg, _, _⟩ := mem_movesBetween_iff.1 hm
  exact ⟨Language.exists_contextRegister_of_mem hf, Language.exists_contextRegister_of_mem hg⟩

/-- Fields of both context registers conflict exactly if they clash. -/
theorem between_eq_error_iff {c : ContextConflict} :
    between old new = .error c ↔ Clash old new c := by
  rw [between]
  split
  · rename_i o n ho hn
    rw [← conflict?_eq_some_iff hn, build]
    cases conflict? n.bitSize (movesBetween old new) with
    | none => simp [Except.map]
    | some x => simp [Except.map]
  · rename_i hnot
    constructor
    · intro h
      cases h
    · intro h
      obtain ⟨⟨o, ho⟩, n, hn⟩ := h.exists_context
      exact absurd hn (hnot o n ho)

/-- The fields of both context registers can be carried over exactly if shared fields keep
their sizes and stay apart. -/
theorem exists_between_iff :
    (∃ context, between old new = .ok context) ↔
      old.SharedSized new ∧ new.SharedApart old := by
  rw [between]
  split
  · rename_i o n ho hn
    rw [← conflict?_eq_none_iff hn, build]
    cases conflict? n.bitSize (movesBetween old new) with
    | none => simp [Except.map]
    | some x => simp [Except.map]
  · rename_i hnot
    refine iff_of_true ⟨none, rfl⟩ ⟨?_, ?_⟩
    · intro f hf g hg _
      obtain ⟨o, ho⟩ := Language.exists_contextRegister_of_mem hf
      obtain ⟨n, hn⟩ := Language.exists_contextRegister_of_mem hg
      exact absurd hn (hnot o n ho)
    · rintro f _ ⟨hf, g, hg, _⟩
      obtain ⟨o, ho⟩ := Language.exists_contextRegister_of_mem hg
      obtain ⟨n, hn⟩ := Language.exists_contextRegister_of_mem hf
      exact absurd hn (hnot o n ho)

end ContextMap

namespace Migrator

variable {old new : Language}

/-- What building a migrator puts together. -/
theorem build_eq_ok_iff {m : Migrator} :
    build old new = .ok m ↔
      Obstacle.ofRegisters? old new = none ∧
        ∃ context, ContextMap.between old new = .ok context ∧
          m = { old, new, context,
                correspondence := .build old new (context.any (!·.identity)) } := by
  rw [build]
  cases Obstacle.ofRegisters? old new with
  | some o => simp
  | none =>
      cases ContextMap.between old new with
      | error c => simp
      | ok context => simp [eq_comm]

/-- A migrator exists exactly for compatible languages. -/
theorem exists_build_iff : (∃ m, build old new = .ok m) ↔ old.Compatible new := by
  simp only [build_eq_ok_iff]
  constructor
  · intro h
    rcases h with ⟨_, hregisters, context, hcontext, _⟩
    obtain ⟨hproc, hendian, hcarries⟩ := Obstacle.ofRegisters?_eq_none_iff.1 hregisters
    obtain ⟨hsized, hapart⟩ := ContextMap.exists_between_iff.1 ⟨context, hcontext⟩
    exact ⟨hproc, hendian, hcarries, hsized, hapart⟩
  · intro h
    obtain ⟨context, hcontext⟩ := ContextMap.exists_between_iff.2 ⟨h.sized, h.apart⟩
    exact ⟨_, Obstacle.ofRegisters?_eq_none_iff.2 ⟨h.processor, h.endianness, h.registers⟩,
      context, hcontext, rfl⟩

/-- Fields are reported exactly if they clash and nothing else is in the way. -/
theorem firstObstacle_context_iff {c : ContextConflict} :
    old.FirstObstacle new (.context c) ↔
      Obstacle.ofRegisters? old new = none ∧ ContextMap.Clash old new c := by
  rw [Obstacle.ofRegisters?_eq_none_iff]
  constructor
  · intro h
    cases h with
    | register _ _ _ _ hhinders => cases hhinders
    | context hproc hendian hcarries hclash => exact ⟨⟨hproc, hendian, hcarries⟩, hclash⟩
  · intro h
    rcases h with ⟨⟨hproc, hendian, hcarries⟩, hclash⟩
    exact .context hproc hendian hcarries hclash

/-- What is reported is the first obstacle. -/
theorem build_eq_error_iff {o : Obstacle} :
    build old new = .error o ↔ old.FirstObstacle new o := by
  have hreport : build old new = .error o ↔
      Obstacle.ofRegisters? old new = some o ∨
        ∃ c, o = .context c ∧ old.FirstObstacle new (.context c) := by
    simp only [firstObstacle_context_iff, ← ContextMap.between_eq_error_iff]
    rw [build]
    cases Obstacle.ofRegisters? old new with
    | some p => simp
    | none => cases ContextMap.between old new <;> simp [eq_comm]
  rw [hreport, Obstacle.ofRegisters?_eq_some_iff]
  constructor
  · rintro (⟨h, _⟩ | ⟨c, rfl, h⟩)
    · exact h
    · exact h
  · intro h
    by_cases hcontext : ∃ c, o = .context c
    · obtain ⟨c, rfl⟩ := hcontext
      exact Or.inr ⟨c, rfl, h⟩
    · exact Or.inl ⟨h, fun c hc => hcontext ⟨c, hc⟩⟩

/-- Building a migrator decides whether values can be carried over: it succeeds exactly for
compatible languages, and otherwise reports the first obstacle, which is never that a field
lies outside the new context register. -/
theorem build_decides (old new : Language) :
    ((∃ m, build old new = .ok m) ↔ old.Compatible new) ∧
      (∀ o, build old new = .error o ↔ old.FirstObstacle new o) ∧
        ∀ move width, build old new ≠ .error (.context (.outOfRange move width)) := by
  refine ⟨exists_build_iff, fun o => build_eq_error_iff, fun move width h => ?_⟩
  obtain ⟨_, hclash⟩ := firstObstacle_context_iff.1 (build_eq_error_iff.1 h)
  cases hclash

end Migrator

end RegisterMigration
