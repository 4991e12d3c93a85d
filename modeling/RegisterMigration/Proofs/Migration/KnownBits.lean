import RegisterMigration.Proofs.Migration.ContextValues

/-!
# Known bits of an answer

Carrying a value over never makes a bit up: each known bit of an answer is the copy of a known
bit of the value.  It does not follow that no more bits are known than before.  Fields of the
old context register may lie on top of each other, which a loaded language is only warned
about, and where two such fields survive at different places, a bit that they have in common is
copied to both.

The search for obstacles looks at the new places only.  So the number of known bits stays
bounded for exactly those pairs of languages in which the surviving fields were apart before.

## Main results

* `exists_bit_of_migrate` — known bits are copies.
* `knownCount_lt_of_shared_bit` — a bit of two surviving fields is known twice.
* `knownCount_migrate_le_iff` — when no answer knows more than its value.
-/

namespace RegisterMigration.Migrator

variable {old new : Language} {m : Migrator}

/-- Each known bit of an answer is the copy of a known bit. -/
theorem exists_bit_of_migrate (h : build old new = .ok m) {v w : PartialValue}
    (hw : m.migrate v = .ok (some w)) {i : Nat} {b : Bool} (hi : w.bit i = some b) :
    ∃ j, v.bit j = some b := by
  rcases bit_eq_or_apply_of_migrate h hw with hbit | ⟨r, n, c, _, _, rfl⟩
  · exact ⟨i, by rw [← hbit, hi]⟩
  · obtain ⟨k, _, _, hsource⟩ := ContextMap.exists_source hi
    exact ⟨_, hsource⟩

/-- Where the surviving fields were apart, no value gains known bits. -/
theorem knownCount_le_of_apart (h : build old new = .ok m) (hapart : old.SharedApart new)
    {v w : PartialValue} (hw : m.migrate v = .ok (some w)) : w.knownCount ≤ v.knownCount := by
  rcases bit_eq_or_apply_of_migrate h hw with hbit | ⟨r, n, c, hn, hc, rfl⟩
  · exact le_of_eq (PartialValue.knownCount_eq_of_bit_eq hbit)
  · exact ContextMap.knownCount_apply_le hn hc hapart v

theorem knownCount_le_of_ordinary (h : build old new = .ok m) {v w : PartialValue} {r : Register}
    (hr : old.registerById? v.register = some r) (hordinary : r.context = false)
    (hw : m.migrate v = .ok (some w)) : w.knownCount ≤ v.knownCount := by
  obtain ⟨hwidth, _⟩ := exists_convert_of_register h hr hw
  obtain ⟨_, _, _, _, hbit⟩ := (migrate_eq_some_iff_of_ordinary h hr hwidth hordinary).1 hw
  exact le_of_eq (PartialValue.knownCount_eq_of_bit_eq hbit)

/-- The old bit of two surviving fields is copied to two new ones.  The fields are apart in the
new layout, so at least one of them has moved, and the value is converted. -/
theorem knownCount_lt_of_shared_bit (h : build old new = .ok m) {f g : ContextField}
    (hf : old.Shares new f) (hg : old.Shares new g) (hne : f.name ≠ g.name) {p : Nat}
    (hfp : f.range.covers p) (hgp : g.range.covers p) :
    ∃ v w, m.migrate v = .ok (some w) ∧ v.knownCount < w.knownCount := by
  obtain ⟨hfold, f', hfnew, hfname⟩ := hf
  obtain ⟨hgold, g', hgnew, hgname⟩ := hg
  obtain ⟨r, hr⟩ := Language.exists_contextRegister_of_mem hfold
  obtain ⟨n, hn⟩ := Language.exists_contextRegister_of_mem hfnew
  have hfmove := ContextMap.mem_movesBetween_of_name_eq hfold hfnew hfname.symm
  have hgmove := ContextMap.mem_movesBetween_of_name_eq hgold hgnew hgname.symm
  let v := PartialValue.single r.id r.bitSize p
  obtain ⟨c, _, hc, ⟨_, hmigrate⟩ | ⟨_, hidentity, _⟩⟩ :=
    migrate_of_context h hr hn (v := v) rfl rfl
  · have hp : p < r.bitSize.toNat := by
      have hinside := (Language.field_inside hr hfold).2
      have hle := (BitRange.covers_iff.1 hfp).2
      omega
    have hknown : (v.bit p).isSome := by
      rw [PartialValue.bit_single, if_pos ⟨rfl, hp⟩]
      rfl
    have htwo := ContextMap.two_le_knownCount_apply hn hc hfmove hgmove hne hfp hgp hknown
    have hone := PartialValue.knownCount_single_le r.id r.bitSize p
    exact ⟨v, c.apply v, hmigrate, Nat.lt_of_le_of_lt hone htwo⟩
  · rw [ContextMap.identity_eq_false_of_shared_bit hn hc hfmove hgmove hne hfp hgp] at hidentity
    cases hidentity

/-- What an answer can know.  Its known bits are copies of known bits, and for an ordinary
register they are no more.  For every register they are no more exactly if the fields that both
languages have share no bit of the old context register. -/
theorem knownCount_migrate_le_iff (h : build old new = .ok m) :
    (∀ v w, m.migrate v = .ok (some w) → ∀ i b, w.bit i = some b → ∃ j, v.bit j = some b) ∧
    (∀ v w r, old.registerById? v.register = some r → r.context = false →
      m.migrate v = .ok (some w) → w.knownCount ≤ v.knownCount) ∧
    ((∀ v w, m.migrate v = .ok (some w) → w.knownCount ≤ v.knownCount) ↔
      old.SharedApart new) := by
  refine ⟨fun v w hw i b hi => ?_, fun v w r hr hordinary hw => ?_, ?_⟩
  · exact exists_bit_of_migrate h hw hi
  · exact knownCount_le_of_ordinary h hr hordinary hw
  · constructor
    · intro hle f g hf hg hne p ⟨hfp, hgp⟩
      obtain ⟨v, w, hw, hlt⟩ := knownCount_lt_of_shared_bit h hf hg hne hfp hgp
      have := hle v w hw
      omega
    · intro hapart v w hw
      exact knownCount_le_of_apart h hapart hw

/-- A language whose context register of eight bits has the fields `a` and `b`. -/
def twoFields (a b : BitRange)
    (h : (Definition.ofRegisters .little
      [{ name := "ctx", space := "register", offset := 0, bitSize := 8, context := true }]
      [⟨"a", a⟩, ⟨"b", b⟩]).errors = []) : Language :=
  .ofRegisters .little
    [{ name := "ctx", space := "register", offset := 0, bitSize := 8, context := true }]
    [⟨"a", a⟩, ⟨"b", b⟩] h

/-- Two fields that change places have no bit in common, so no value gains known bits. -/
theorem knownCount_migrate_le_of_swapped :
    ∃ m, build (twoFields ⟨0, 0⟩ ⟨1, 1⟩ (by decide)) (twoFields ⟨1, 1⟩ ⟨0, 0⟩ (by decide)) = .ok m ∧
      ∀ v w, m.migrate v = .ok (some w) → w.knownCount ≤ v.knownCount := by
  obtain ⟨m, hm⟩ : ∃ m, build (twoFields ⟨0, 0⟩ ⟨1, 1⟩ (by decide))
      (twoFields ⟨1, 1⟩ ⟨0, 0⟩ (by decide)) = .ok m := ⟨_, rfl⟩
  obtain ⟨_, _, hiff⟩ := knownCount_migrate_le_iff hm
  refine ⟨m, hm, hiff.2 ?_⟩
  rw [ContextMap.sharedApart_old_iff]
  decide

/-- Two fields that had their only bit in common arrive at different bits, and both are known. -/
theorem not_forall_knownCount_migrate_le :
    ¬ ∀ (old new : Language) (m : Migrator), build old new = .ok m →
      ∀ v w, m.migrate v = .ok (some w) → w.knownCount ≤ v.knownCount := by
  intro h
  obtain ⟨m, hm⟩ : ∃ m, build (twoFields ⟨0, 0⟩ ⟨0, 0⟩ (by decide))
      (twoFields ⟨0, 0⟩ ⟨1, 1⟩ (by decide)) = .ok m := ⟨_, rfl⟩
  obtain ⟨v, w, hw, hlt⟩ :=
    knownCount_lt_of_shared_bit hm (f := ⟨"a", ⟨0, 0⟩⟩) (g := ⟨"b", ⟨0, 0⟩⟩) (p := 0)
      ⟨by decide, ⟨"a", ⟨0, 0⟩⟩, by decide, rfl⟩ ⟨by decide, ⟨"b", ⟨1, 1⟩⟩, by decide, rfl⟩
      (by decide) (by decide) (by decide)
  have hle := h _ _ m hm v w hw
  omega

end RegisterMigration.Migrator
