import RegisterMigration.Proofs.Migration.Values

/-!
# Carrying values of the context register over

A value of the context register takes one of two ways.  If the register has kept its place, its
parent and its fields, the value goes over as it is, with every bit.  Otherwise the bits of the
shared fields are copied to where the new layout has them, and nothing else is known of the
answer.

On the bits of shared fields the two ways agree: a register whose values go over as they are has
its fields where they were.  On the bits that no field covers they do not.  These have no meaning
in either layout, and they only survive in a register that has not been rearranged.

## Main results

* `migrate_of_context` — which way a value takes.
* `bit_apply_of_identity` — what a copy of unmoved fields keeps.
* `migrate_keeps_shared_fields` — the bits of shared fields arrive, whichever way is taken.
* `migrate_unmoved_fields_eq_reanchor_iff` — when all bits of a value arrive at unmoved fields.
-/

namespace RegisterMigration

variable {old new : Language} {r n : Register}

namespace ContextMap

variable {c : ContextMap}

/-! ## Copies of unmoved fields -/

theorem bitSize_eq_of_identity (h : build old r new n = .ok c) (hidentity : c.identity) :
    r.bitSize = n.bitSize :=
  ((identity_iff_of_build h).1 hidentity).1

/-- A map that changes nothing has a move for every old field. -/
theorem mem_movesBetween_of_identity (h : build old r new n = .ok c) (hidentity : c.identity)
    {f : ContextField} (hf : f ∈ old.contextFields) :
    ⟨f.name, f.range, f.range⟩ ∈ movesBetween old new := by
  have hdropped := ((identity_iff_of_build h).1 hidentity).2.1
  obtain ⟨g, hgmem, hname⟩ := missingFrom_eq_nil_iff.1 hdropped f hf
  have hmove := mem_movesBetween_of_name_eq hf hgmem hname.symm
  have hunmoved : f.range = g.range := unmoved_of_identity h hidentity hmove
  rw [← hunmoved] at hmove
  exact hmove

/-- Copying unmoved fields keeps the bits that they cover at their places, and no others. -/
theorem bit_apply_of_identity (hn : new.contextRegister? = some n)
    (h : build old r new n = .ok c) (hidentity : c.identity) (v : PartialValue) (i : Nat) :
    (c.apply v).bit i =
      if ∃ f ∈ old.contextFields, f.range.covers i then v.bit i else none := by
  by_cases hcovered : ∃ f ∈ old.contextFields, f.range.covers i
  · rw [if_pos hcovered]
    obtain ⟨f, hf, hi⟩ := hcovered
    have hmove := mem_movesBetween_of_identity h hidentity hf
    rw [bit_apply_of_covers hn h v hmove hi]
    have hlo := (BitRange.covers_iff.1 hi).1
    congr 1
    show f.range.lo.toNat + (i - f.range.lo.toNat) = i
    omega
  · -- Every move is that of an old field, and it leads to where the field already was.
    rw [if_neg hcovered]
    refine bit_apply_eq_none v fun m hm hi => hcovered ?_
    rw [moves_of_build h] at hm
    rw [← unmoved_of_identity h hidentity hm] at hi
    obtain ⟨f, hf, g, _, _, rfl⟩ := mem_movesBetween_iff.1 hm
    exact ⟨f, hf, hi⟩

end ContextMap

namespace Migrator

variable {m : Migrator} {v : PartialValue}

/-! ## The two ways -/

/-- A value of the context register is copied field by field if the register's values are
converted, and goes over as it is otherwise; then no field has moved. -/
theorem migrate_of_context (h : build old new = .ok m) (hr : old.contextRegister? = some r)
    (hn : new.contextRegister? = some n) (hregister : v.register = r.id)
    (hwidth : v.width = r.bitSize) :
    ∃ c, m.context = some c ∧ ContextMap.build old r new n = .ok c ∧
      ((m.converts r.id = true ∧ m.migrate v = .ok (some (c.apply v))) ∨
        (m.converts r.id = false ∧ c.identity = true ∧
          m.migrate v = .ok (some (v.reanchor n.id)))) := by
  obtain ⟨hrmem, hrcontext⟩ := Language.contextRegister?_eq_some_iff.1 hr
  have hcorresponds := Language.corresponds_of_contextRegister hr hn
  have hmigrate := migrate_of_corresponds h (Language.registerById?_of_mem hrmem hregister) hwidth
    hcorresponds
  obtain ⟨c, hc, hbuild⟩ := context_of_build h hrmem hcorresponds hrcontext
  obtain ⟨c', hbuild', hways⟩ := convert_of_context h hrmem hcorresponds hrcontext v
  rw [hbuild] at hbuild'
  rcases Except.ok.inj hbuild' with rfl
  refine ⟨c, hc, hbuild, ?_⟩
  rw [hmigrate]
  rcases hways with ⟨hconverts, hconvert⟩ | ⟨hconverts, hidentity, hconvert⟩
  · exact Or.inl ⟨hconverts, by rw [hconvert]⟩
  · exact Or.inr ⟨hconverts, hidentity, by rw [hconvert]⟩

/-! ## Shared fields -/

/-- Every field that both languages declare arrives with its bits in order, whichever way the
value takes.  If it is converted, nothing else is known of the answer. -/
theorem migrate_keeps_shared_fields (h : build old new = .ok m)
    (hr : old.contextRegister? = some r) (hn : new.contextRegister? = some n)
    (hregister : v.register = r.id) (hwidth : v.width = r.bitSize) :
    ∃ w, m.migrate v = .ok (some w) ∧ w.register = n.id ∧ w.width = n.bitSize ∧
      (∀ f ∈ old.contextFields, ∀ g ∈ new.contextFields, f.name = g.name →
        ∀ k, k ≤ f.range.hi.toNat - f.range.lo.toNat →
          w.bit (g.range.lo.toNat + k) = v.bit (f.range.lo.toNat + k)) ∧
      (m.converts r.id = true →
        ∀ j, (∀ f ∈ old.contextFields, ∀ g ∈ new.contextFields, f.name = g.name →
          ¬ g.range.covers j) → w.bit j = none) := by
  obtain ⟨c, _, hc, hways⟩ := migrate_of_context h hr hn hregister hwidth
  rcases hways with ⟨_, hw⟩ | ⟨hconverts, hidentity, hw⟩
  · refine ⟨_, hw, ContextMap.register_of_build hc, ContextMap.width_of_build hc, ?_, ?_⟩
    · intro f hf g hg hname k hk
      have hmove := ContextMap.mem_movesBetween_of_name_eq hf hg hname
      have hordered := (Language.field_bounds hf).1
      have hcovers : f.range.covers (f.range.lo.toNat + k) :=
        BitRange.covers_iff.2 ⟨Nat.le_add_right _ _, by omega⟩
      have harrives := ContextMap.bit_apply_target hn hc v hmove hcovers
      rw [Nat.add_sub_cancel_left] at harrives
      exact harrives
    · intro _ j hj
      refine ContextMap.bit_apply_eq_none v fun move hmove hcovers => ?_
      rw [ContextMap.moves_of_build hc] at hmove
      obtain ⟨f, hf, g, hg, hname, rfl⟩ := ContextMap.mem_movesBetween_iff.1 hmove
      exact hj f hf g hg hname hcovers
  · -- Nothing is converted, so every field is where it was.
    have hsize := ContextMap.bitSize_eq_of_identity hc hidentity
    refine ⟨_, hw, rfl, hwidth.trans hsize, ?_, ?_⟩
    · intro f hf g hg hname k _
      have hmove := ContextMap.mem_movesBetween_of_name_eq hf hg hname
      have hunmoved : f.range = g.range := ContextMap.unmoved_of_identity hc hidentity hmove
      rw [PartialValue.bit_reanchor, hunmoved]
    · intro htrue
      rw [hconverts] at htrue
      cases htrue

/-- A language of which only the context register matters. -/
def contextOnly (name : String) (offset : UInt64) (bitSize : UInt32) (fields : List ContextField)
    (h : (Definition.ofRegisters .little
      [{ name, space := "register", offset, bitSize, context := true }] fields).errors = []) :
    Language :=
  .ofRegisters .little [{ name, space := "register", offset, bitSize, context := true }] fields h

/-- In a wider register of another name, `mode` and `level` have changed sides and `trace` is
gone. -/
theorem migrate_keeps_shared_fields_exchanged :
    ∃ m w, build
        (contextOnly "ctx" 0 8 [⟨"mode", ⟨0, 1⟩⟩, ⟨"trace", ⟨1, 2⟩⟩, ⟨"level", ⟨4, 6⟩⟩] (by decide))
        (contextOnly "state" 4 16 [⟨"level", ⟨0, 2⟩⟩, ⟨"mode", ⟨9, 10⟩⟩] (by decide)) = .ok m ∧
      m.migrate (.ofMask ⟨0⟩ 8 0xd7 0x52) = .ok (some w) ∧ w.width = 16 ∧
        w.bit 9 = some false ∧ w.bit 10 = some true ∧
          w.bit 0 = some true ∧ w.bit 1 = none ∧ w.bit 2 = some true ∧ w.bit 7 = none := by
  obtain ⟨m, hm⟩ : ∃ m, build
      (contextOnly "ctx" 0 8 [⟨"mode", ⟨0, 1⟩⟩, ⟨"trace", ⟨1, 2⟩⟩, ⟨"level", ⟨4, 6⟩⟩] (by decide))
      (contextOnly "state" 4 16 [⟨"level", ⟨0, 2⟩⟩, ⟨"mode", ⟨9, 10⟩⟩] (by decide)) = .ok m :=
    ⟨_, rfl⟩
  have hconverts : m.converts ⟨0⟩ = true := by
    rcases Except.ok.inj hm with rfl
    decide +kernel
  obtain ⟨w, hw, _, hwidth, hfields, hrest⟩ :=
    migrate_keeps_shared_fields hm rfl rfl (v := .ofMask ⟨0⟩ 8 0xd7 0x52) rfl rfl
  have hmode := hfields ⟨"mode", ⟨0, 1⟩⟩ (by decide) ⟨"mode", ⟨9, 10⟩⟩ (by decide) rfl
  have hlevel := hfields ⟨"level", ⟨4, 6⟩⟩ (by decide) ⟨"level", ⟨0, 2⟩⟩ (by decide) rfl
  refine ⟨m, w, hm, hw, hwidth, ?_, ?_, ?_, ?_, ?_, ?_⟩
  · exact (hmode 0 (by decide)).trans (by decide)
  · exact (hmode 1 (by decide)).trans (by decide)
  · exact (hlevel 0 (by decide)).trans (by decide)
  · exact (hlevel 1 (by decide)).trans (by decide)
  · exact (hlevel 2 (by decide)).trans (by decide)
  · exact hrest hconverts 7 (by decide)

/-! ## Unmoved fields -/

/-- Where no field has moved, values are converted exactly if the register lies elsewhere or in
another parent. -/
theorem converts_of_identity (h : build old new = .ok m) (hr : old.contextRegister? = some r)
    (hn : new.contextRegister? = some n) {c : ContextMap} (hc : m.context = some c)
    (hidentity : c.identity) : m.converts r.id = Register.rearranged old new r n := by
  have hrmem := (Language.contextRegister?_eq_some_iff.1 hr).1
  have hcorresponds := Language.corresponds_of_contextRegister hr hn
  rw [converts_of_build h hrmem hcorresponds, hc, Option.any_some, hidentity, Bool.not_true,
    Bool.and_false, Bool.or_false]

/-- Where no field has moved, the bits of the fields are kept, and the others if the register has
not been rearranged. -/
theorem migrate_of_identity (h : build old new = .ok m) (hr : old.contextRegister? = some r)
    (hn : new.contextRegister? = some n) {c : ContextMap} (hc : m.context = some c)
    (hidentity : c.identity) (hregister : v.register = r.id) (hwidth : v.width = r.bitSize) :
    ∃ w, m.migrate v = .ok (some w) ∧ w.register = n.id ∧ w.width = v.width ∧
      ∀ i, w.bit i =
        if Register.rearranged old new r n = false ∨ ∃ f ∈ old.contextFields, f.range.covers i
        then v.bit i else none := by
  obtain ⟨c', hc', hbuild, hways⟩ := migrate_of_context h hr hn hregister hwidth
  rw [hc] at hc'
  rcases Option.some.inj hc' with rfl
  rw [converts_of_identity h hr hn hc hidentity] at hways
  have hsize := ContextMap.bitSize_eq_of_identity hbuild hidentity
  rcases hways with ⟨hrearranged, hw⟩ | ⟨hplaced, _, hw⟩
  · have hwide := (ContextMap.width_of_build hbuild).trans (hsize.symm.trans hwidth.symm)
    refine ⟨_, hw, ContextMap.register_of_build hbuild, hwide, fun i => ?_⟩
    rw [ContextMap.bit_apply_of_identity hn hbuild hidentity, hrearranged]
    simp only [Bool.true_eq_false, false_or]
  · refine ⟨_, hw, rfl, rfl, fun i => ?_⟩
    rw [PartialValue.bit_reanchor, if_pos (Or.inl hplaced)]

/-- What becomes of a value of a context register whose fields have not moved.  It has an answer
of the same width, which keeps the bits of the fields.  The answer is the value itself exactly if
the register has kept its place and its parent, or no other bits are known. -/
theorem migrate_unmoved_fields_eq_reanchor_iff (h : build old new = .ok m)
    (hr : old.contextRegister? = some r) (hn : new.contextRegister? = some n) {c : ContextMap}
    (hc : m.context = some c) (hidentity : c.identity = true) (hregister : v.register = r.id)
    (hwidth : v.width = r.bitSize) :
    ∃ w, m.migrate v = .ok (some w) ∧ w.register = n.id ∧ w.width = v.width ∧
      (∀ i, w.bit i =
        if Register.rearranged old new r n = false ∨ ∃ f ∈ old.contextFields, f.range.covers i
        then v.bit i else none) ∧
      (w = v.reanchor n.id ↔
        Register.rearranged old new r n = false ∨
          ∀ i, (v.bit i).isSome → ∃ f ∈ old.contextFields, f.range.covers i) := by
  obtain ⟨w, hw, hanchor, hwide, hbit⟩ := migrate_of_identity h hr hn hc hidentity hregister hwidth
  refine ⟨w, hw, hanchor, hwide, hbit, ?_⟩
  constructor
  · intro heq
    by_cases hplaced : Register.rearranged old new r n = false
    · exact Or.inl hplaced
    · -- A known bit that no field covers would be lost, but the answer has it.
      refine Or.inr fun i hi => ?_
      by_contra huncovered
      have hlost := hbit i
      rw [if_neg fun hkept => hkept.elim hplaced huncovered, heq, PartialValue.bit_reanchor]
        at hlost
      rw [hlost] at hi
      cases hi
  · intro hkept
    refine PartialValue.ext_bit hanchor hwide fun i => ?_
    rw [hbit, PartialValue.bit_reanchor]
    by_cases hsource : Register.rearranged old new r n = false ∨
        ∃ f ∈ old.contextFields, f.range.covers i
    · rw [if_pos hsource]
    · rw [if_neg hsource]
      rcases hkept with hplaced | hcovered
      · exact absurd (Or.inl hplaced) hsource
      · cases hi : v.bit i with
        | none => rfl
        | some b => exact absurd (Or.inr (hcovered i (by rw [hi]; rfl))) hsource

/-- A language whose context register of eight bits has one field, in its lowest bit. -/
def modeAt (offset : UInt64)
    (h : (Definition.ofRegisters .little
      [{ name := "ctx", space := "register", offset, bitSize := 8, context := true }]
      [⟨"mode", ⟨0, 0⟩⟩]).errors = []) : Language :=
  contextOnly "ctx" offset 8 [⟨"mode", ⟨0, 0⟩⟩] h

theorem exists_build_modeAt :
    ∃ m c, build (modeAt 0 (by decide)) (modeAt 4 (by decide)) = .ok m ∧ m.context = some c ∧
      c.identity = true :=
  ⟨_, _, rfl, rfl, rfl⟩

/-- The register has moved, but only the bit of its field is known. -/
theorem migrate_unmoved_fields_eq_reanchor_iff_covered :
    ∃ m c, build (modeAt 0 (by decide)) (modeAt 4 (by decide)) = .ok m ∧ m.context = some c ∧
      c.identity = true ∧
        m.migrate (.ofMask ⟨0⟩ 8 0x01 0x01) = .ok (some (.ofMask ⟨0⟩ 8 0x01 0x01)) := by
  obtain ⟨m, c, hm, hc, hidentity⟩ := exists_build_modeAt
  obtain ⟨w, hw, _, _, _, hsame⟩ := migrate_unmoved_fields_eq_reanchor_iff hm rfl rfl hc hidentity
    (v := .ofMask ⟨0⟩ 8 0x01 0x01) rfl rfl
  have hcovered : ∀ i < 8, ((PartialValue.ofMask ⟨0⟩ 8 0x01 0x01).bit i).isSome →
      ∃ f ∈ (modeAt 0 (by decide)).contextFields, f.range.covers i := by decide
  have hkept := hsame.2 (Or.inr fun i hi => hcovered i (PartialValue.lt_width_of_isSome hi) hi)
  exact ⟨m, c, hm, hc, hidentity, by rw [hw, hkept]; rfl⟩

/-- The register has moved, and seven known bits of the value are lost. -/
theorem not_forall_migrate_eq_reanchor :
    ¬ ∀ (old new : Language) (r n : Register) (m : Migrator) (c : ContextMap) (v : PartialValue),
      build old new = .ok m → old.contextRegister? = some r → new.contextRegister? = some n →
        m.context = some c → c.identity = true → v.register = r.id → v.width = r.bitSize →
          m.migrate v = .ok (some (v.reanchor n.id)) := by
  intro hall
  obtain ⟨m, c, hm, hc, hidentity⟩ := exists_build_modeAt
  have hkept := hall _ _ _ _ m c (.known ⟨0⟩ 8 0xff) hm rfl rfl hc hidentity rfl rfl
  obtain ⟨w, hw, _, _, hbit⟩ :=
    migrate_of_identity hm rfl rfl hc hidentity (v := .known ⟨0⟩ 8 0xff) rfl rfl
  rw [hkept] at hw
  rcases Option.some.inj (Except.ok.inj hw) with rfl
  have hlost := hbit 1
  rw [if_neg (by decide)] at hlost
  revert hlost
  decide

end Migrator

end RegisterMigration
