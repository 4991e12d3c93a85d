import RegisterMigration.Proofs.Migration.ContextValues

/-!
# Fields that only the new layout has

Nothing is copied to a field that the old layout lacks, so nothing should be known of it.  But a bit
of the new register is copied because a field covers it that both layouts have, whatever else covers
it.  Such fields must not meet each other, and this is all that is checked before a map is built.  A
new field that has a bit in common with one of them is loaded with a warning, and gets that bit.

The statements here hold of maps between any two registers of the languages, as building a map
checks by itself that the fields fit.

## Main results

* `move_fits_of_build` — what is checked of a single field.
* `forall_bit_apply_eq_none_iff` — the bits that are never known.
* `bit_apply_added_eq_none_iff` — when no bit of a new field is ever known.
-/

namespace RegisterMigration.ContextMap

variable {old new : Language} {r n : Register} {c : ContextMap}

theorem mem_missingFrom_iff {a b : Language} {f : ContextField} (hf : f ∈ a.contextFields) :
    f.name ∈ missingFrom a b ↔ ¬ a.Shares b f := by
  rw [missingFrom, List.mem_map]
  constructor
  · rintro ⟨g, hg, hname⟩ ⟨_, k, hk, hkname⟩
    have hnone := (List.mem_filter.1 hg).2
    rw [Language.contextField?_eq_some_iff.2 ⟨hk, hkname.trans hname.symm⟩] at hnone
    cases hnone
  · intro hnot
    refine ⟨f, List.mem_filter.2 ⟨hf, ?_⟩, rfl⟩
    rw [Option.isNone_iff_eq_none, Option.eq_none_iff_forall_ne_some]
    intro k hk
    obtain ⟨hkmem, hkname⟩ := Language.contextField?_eq_some_iff.1 hk
    exact hnot ⟨hf, k, hkmem, hkname⟩

/-- The new fields that a map does not list as added are those that both layouts have. -/
theorem not_mem_added_iff (h : build old r new n = .ok c) {f : ContextField}
    (hf : f ∈ new.contextFields) : f.name ∉ c.added ↔ new.Shares old f := by
  obtain ⟨_, rfl⟩ := build_eq_ok_iff.1 h
  exact not_iff_comm.1 (mem_missingFrom_iff hf).symm

/-- Before a map is built, each of its moves is found to keep its size and to end in the new
register. -/
theorem move_fits_of_build (h : build old r new n = .ok c) {m : FieldMove}
    (hm : m ∈ movesBetween old new) :
    m.old.size = m.new.size ∧ m.new.hi.toNat < n.bitSize.toNat := by
  obtain ⟨hnone, _⟩ := build_eq_ok_iff.1 h
  rw [conflict?, Option.or_eq_none_iff, List.findSome?_eq_none_iff] at hnone
  exact (moveConflict?_eq_none_iff hm).1 (hnone.1 m hm)

/-- Where a field is copied to, some value has a known bit. -/
theorem exists_bit_apply_eq_some (h : build old r new n = .ok c) {m : FieldMove}
    (hm : m ∈ movesBetween old new) {j : Nat} (hj : m.new.covers j) :
    ∃ v b, (c.apply v).bit j = some b := by
  have hsome : (c.moves.find? (·.new.covers j)).isSome := by
    rw [List.find?_isSome, moves_of_build h]
    exact ⟨m, hm, hj⟩
  obtain ⟨k, hfind⟩ := Option.isSome_iff_exists.1 hsome
  have hk : k ∈ movesBetween old new := by
    rw [← moves_of_build h]
    exact List.mem_of_find?_eq_some hfind
  have hkj : k.new.covers j := by simpa using List.find?_some hfind
  rw [BitRange.covers_iff] at hkj
  obtain ⟨hsize, hinside⟩ := move_fits_of_build h hk
  obtain ⟨⟨_, htop⟩, _⟩ := move_bounds hk
  rw [BitRange.size, BitRange.size] at hsize
  have hwidth : (k.old.hi + 1).toNat = k.old.hi.toNat + 1 := by
    rw [UInt32.toNat_add, UInt32.toNat_one]
    omega
  refine ⟨.known ⟨0⟩ (k.old.hi + 1) 0, Nat.testBit 0 (k.old.lo.toNat + (j - k.new.lo.toNat)), ?_⟩
  rw [apply, PartialValue.bit_ofBits, width_of_build h, if_pos (by omega), hfind, Option.bind_some,
    PartialValue.bit_known, hwidth, if_pos (by omega)]

/-- A bit is never known exactly if no field that both layouts have covers it in the new one. -/
theorem forall_bit_apply_eq_none_iff (h : build old r new n = .ok c) (j : Nat) :
    (∀ v, (c.apply v).bit j = none) ↔ ∀ f, new.Shares old f → ¬ f.range.covers j := by
  constructor
  · rintro hnone f ⟨hf, g, hg, hname⟩ hj
    obtain ⟨v, b, hb⟩ := exists_bit_apply_eq_some h (mem_movesBetween_of_name_eq hg hf hname) hj
    rw [hnone v] at hb
    cases hb
  · intro hfree v
    refine bit_apply_eq_none v fun m hm hj => ?_
    rw [moves_of_build h] at hm
    obtain ⟨g, hg, f, hf, hname, rfl⟩ := mem_movesBetween_iff.1 hm
    exact hfree f ⟨hf, g, hg, hname⟩ hj

/-- What is never known.  A bit of the new register is unknown in every answer exactly if each field
that covers it is listed as added.  So the bits of all added fields are, exactly if no added field
has a bit in common with one that is not. -/
theorem bit_apply_added_eq_none_iff (h : build old r new n = .ok c) :
    (∀ j, (∀ v, (c.apply v).bit j = none) ↔
      ∀ f ∈ new.contextFields, f.name ∉ c.added → ¬ f.range.covers j) ∧
    ((∀ g ∈ new.contextFields, g.name ∈ c.added → ∀ v j, g.range.covers j →
        (c.apply v).bit j = none) ↔
      ∀ g ∈ new.contextFields, g.name ∈ c.added →
        ∀ f ∈ new.contextFields, f.name ∉ c.added →
          ∀ j, ¬ (g.range.covers j ∧ f.range.covers j)) := by
  have hbit : ∀ j, (∀ v, (c.apply v).bit j = none) ↔
      ∀ f ∈ new.contextFields, f.name ∉ c.added → ¬ f.range.covers j := by
    intro j
    rw [forall_bit_apply_eq_none_iff h]
    constructor
    · intro hfree f hf hkept
      exact hfree f ((not_mem_added_iff h hf).1 hkept)
    · intro hfree f hshares
      exact hfree f hshares.1 ((not_mem_added_iff h hshares.1).2 hshares)
  refine ⟨hbit, ?_⟩
  constructor
  · rintro hnone g hg hadded f hf hkept j ⟨hgj, hfj⟩
    exact (hbit j).1 (fun v => hnone g hg hadded v j hgj) f hf hkept hfj
  · intro hapart g hg hadded v j hgj
    refine (hbit j).2 (fun f hf hkept hfj => ?_) v
    exact hapart g hg hadded f hf hkept j ⟨hgj, hfj⟩

/-- A context register of eight bits. -/
def control : Register :=
  { name := "ctx", space := "register", offset := 0, bitSize := 8, context := true, id := ⟨0⟩,
    parent := none }

/-- A language in which this register has the field `a` at its lowest bit. -/
def fieldA : Language :=
  .ofRegisters .little [control.toRegisterDecl] [⟨"a", ⟨0, 0⟩⟩] (by decide)

/-- A later version with a field `b` beside it. -/
def fieldBeside : Language :=
  .ofRegisters .little [control.toRegisterDecl] [⟨"a", ⟨0, 0⟩⟩, ⟨"b", ⟨1, 2⟩⟩] (by decide)

/-- A later version with a field `b` around it. -/
def fieldAround : Language :=
  .ofRegisters .little [control.toRegisterDecl] [⟨"a", ⟨0, 0⟩⟩, ⟨"b", ⟨0, 1⟩⟩] (by decide)

/-- Nothing is ever known of a new field beside the old one. -/
theorem bit_apply_added_eq_none_fieldBeside :
    ∃ c, build fieldA control fieldBeside control = .ok c ∧ c.added = ["b"] ∧
      ∀ v, (c.apply v).bit 1 = none ∧ (c.apply v).bit 2 = none := by
  obtain ⟨c, hc⟩ : ∃ c, build fieldA control fieldBeside control = .ok c := ⟨_, rfl⟩
  have hadded : c.added = ["b"] := by
    obtain ⟨_, rfl⟩ := build_eq_ok_iff.1 hc
    decide
  obtain ⟨hbit, _⟩ := bit_apply_added_eq_none_iff hc
  rw [hadded] at hbit
  exact ⟨c, hc, hadded, fun v => ⟨(hbit 1).2 (by decide) v, (hbit 2).2 (by decide) v⟩⟩

/-- A new field around the old one gets the bit of the old one. -/
theorem not_forall_bit_apply_added_eq_none :
    ¬ ∀ (old new : Language) (r n : Register) (c : ContextMap),
      old.contextRegister? = some r → new.contextRegister? = some n → build old r new n = .ok c →
        ∀ g ∈ new.contextFields, g.name ∈ c.added →
          ∀ (v : PartialValue) (j : Nat), v.register = r.id → v.width = r.bitSize →
            g.range.covers j → (c.apply v).bit j = none := by
  intro hall
  obtain ⟨c, hc⟩ : ∃ c, build fieldA control fieldAround control = .ok c := ⟨_, rfl⟩
  have hlost := hall _ _ control control c rfl rfl hc ⟨"b", ⟨0, 1⟩⟩ (by decide)
  obtain ⟨_, rfl⟩ := build_eq_ok_iff.1 hc
  have hknown := hlost (by decide) (.known ⟨0⟩ 8 0xff) 0 rfl rfl (by decide)
  revert hknown
  decide

end RegisterMigration.ContextMap
