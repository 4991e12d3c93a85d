import RegisterMigration.Proofs.Migration.Ancestry
import RegisterMigration.Proofs.Migration.Composition

/-!
# Carrying values over to the same language

Nothing should change between a language and itself, and nothing does: each register is its own
counterpart, is where it was, and has the parent that it had; each field is moved to its own range.
All of this is found again by name, by role and by id, so it rests on what loading has checked, that
no name and no role is given twice.

One thing can still be in the way.  Loading allows context fields to have bits in common, and a
field map refuses such fields, even where each of them would stay at its place.  So a language with
overlapping fields cannot be carried over to anything that has the same fields, itself included.

## Main results

* `Language.sharedApart_self_iff` — fields that a language shares with itself.
* `ContextMap.identity_of_build_self` — the field map of a language to itself changes nothing.
* `build_self_iff` — when there is a migrator from a language to itself.
* `build_self` — that migrator changes nothing.
-/

namespace RegisterMigration

variable {l : Language} {r n : Register}

namespace Language

/-! ## What corresponds to itself -/

theorem corresponds_self (hr : r ∈ l.registers) : l.Corresponds r r :=
  corresponds_of_eq hr rfl fun _ => rfl

theorem carries_self (hr : r ∈ l.registers) : l.Carries l r := by
  intro n hn
  rcases (corresponds_self hr).unique hn with rfl
  obtain ⟨s, hs⟩ := exists_space_of_mem hr
  exact ⟨keepsSpace_iff.2 ⟨s, hs⟩, (sameKind_iff hs hs).2 rfl, fun _ => Nat.le_refl _⟩

theorem shares_self {f : ContextField} (hf : f ∈ l.contextFields) : l.Shares l f :=
  ⟨hf, f, hf, rfl⟩

theorem sharedSized_self (l : Language) : l.SharedSized l := by
  intro f hf g hg hname
  rw [eq_of_field_name_eq hf hg hname]

/-- No two context fields cover a bit together. -/
def FieldsApart (l : Language) : Prop :=
  l.contextFields.Pairwise fun f g => ∀ i, ¬ (f.range.covers i ∧ g.range.covers i)

/-- A language shares all its fields with itself. -/
theorem sharedApart_self_iff : l.SharedApart l ↔ l.FieldsApart := by
  constructor
  · intro h
    have hnames := l.contextFields_nodup
    rw [List.Nodup, List.pairwise_map] at hnames
    refine hnames.imp_of_mem fun hf hg hne => ?_
    exact h _ _ (shares_self hf) (shares_self hg) hne
  · intro h f g hf hg hne
    have : Std.Symm fun f g : ContextField => ∀ i, ¬ (f.range.covers i ∧ g.range.covers i) :=
      ⟨fun f g h i hi => h i hi.symm⟩
    exact h.forall hf.1 hg.1 fun heq => hne (congrArg ContextField.name heq)

theorem compatible_self_iff : l.Compatible l ↔ l.FieldsApart := by
  rw [← sharedApart_self_iff]
  constructor
  · intro h
    exact h.apart
  · intro h
    exact ⟨rfl, rfl, fun _ => carries_self, sharedSized_self l, h⟩

/-- A compiler specification that is declared keeps its identifier. -/
theorem carrySpec_of_mem {s : CompilerSpec} (hs : s ∈ l.definition.compilerSpecs) :
    l.carrySpec s.id = s.id := by
  rw [carrySpec, specOrDefault, declaredSpec?, compilerSpec?]
  cases hfind : l.definition.compilerSpecs.find? (·.id == s.id) with
  | none => exact absurd (beq_self_eq_true s.id) (List.find?_eq_none.1 hfind s hs)
  | some t =>
      have hid := List.find?_some hfind
      rw [beq_iff_eq] at hid
      exact hid

end Language

theorem Register.rearranged_self (l : Language) (r : Register) :
    rearranged l l r r = false := by
  rw [rearranged_eq_false_iff]
  refine ⟨⟨rfl, rfl, rfl⟩, ?_⟩
  cases l.parentOf? r.id with
  | none => rfl
  | some p => simp [parentChanged]

namespace ContextMap

theorem missingFrom_self (l : Language) : missingFrom l l = [] :=
  missingFrom_eq_nil_iff.2 fun f hf => ⟨f, hf, rfl⟩

/-- The field map of a language to itself changes nothing. -/
theorem identity_of_build_self {c : ContextMap} (h : build l r l r = .ok c) : c.identity := by
  rw [identity_iff_of_build h]
  refine ⟨rfl, missingFrom_self l, missingFrom_self l, fun m hm => ?_⟩
  obtain ⟨f, hf, g, hg, hname, rfl⟩ := mem_movesBetween_iff.1 hm
  rw [Language.eq_of_field_name_eq hf hg hname]

end ContextMap

namespace Migrator

variable {m : Migrator}

/-! ## Migrators from a language to itself -/

theorem newRegister?_of_build_self (h : build l l = .ok m) (hr : r ∈ l.registers) :
    m.newRegister? r.id = some r := by
  rw [newRegister?_of_build h hr]
  exact Language.counterpart?_eq_some_iff.2 (Language.corresponds_self hr)

theorem converts_of_build_self (h : build l l = .ok m) (hr : r ∈ l.registers) :
    m.converts r.id = false := by
  have hself := Language.corresponds_self hr
  rw [converts_of_build h hr hself, Register.rearranged_self, Bool.false_or]
  cases hcontext : r.context with
  | false => rfl
  | true =>
      obtain ⟨c, hc, hbuild⟩ := context_of_build h hr hself hcontext
      rw [hc, Option.any_some, ContextMap.identity_of_build_self hbuild]
      rfl

theorem migrate_of_build_self (h : build l l = .ok m) {v : PartialValue}
    (hr : l.registerById? v.register = some r) (hwidth : v.width = r.bitSize) :
    m.migrate v = .ok (some v) := by
  have hmem := Language.mem_of_registerById hr
  rw [migrate_of_corresponds h hr hwidth (Language.corresponds_self hmem),
    convert_of_not_converts (converts_of_build_self h hmem), Language.id_eq_of_registerById hr]
  rfl

/-- A migrator leads every register of `l` to itself, with its values as they are, and every
compiler specification too. -/
structure LeavesUnchanged (m : Migrator) (l : Language) : Prop where
  register : ∀ r ∈ l.registers, m.newRegister? r.id = some r ∧ m.converts r.id = false
  value : ∀ (r : Register) (v : PartialValue), l.registerById? v.register = some r →
    v.width = r.bitSize →
      m.migrate v = .ok (some v) ∧ m.migrateToBase v = .ok (l.widenToBase? v)
  spec : ∀ s ∈ l.definition.compilerSpecs, m.carrySpec s.id = s.id

theorem leavesUnchanged_of_build_self (h : build l l = .ok m) : m.LeavesUnchanged l where
  register _ hr := ⟨newRegister?_of_build_self h hr, converts_of_build_self h hr⟩
  value r v hr hwidth := by
    have hmigrate := migrate_of_build_self h hr hwidth
    refine ⟨hmigrate, ?_⟩
    rw [migrateToBase, hmigrate, new_of_build h]
    rfl
  spec s hs := by
    rw [carrySpec, new_of_build h]
    exact Language.carrySpec_of_mem hs

/-- There is a migrator from a language to itself exactly if its context fields are apart. -/
theorem build_self_iff : (∃ m, build l l = .ok m) ↔ l.FieldsApart :=
  exists_build_iff.trans Language.compatible_self_iff

/-- A language can be carried over to itself exactly if no two of its context fields cover a bit
together, and then nothing changes. -/
theorem build_self (l : Language) :
    ((∃ m, build l l = .ok m) ↔ l.FieldsApart) ∧
      ∀ m, build l l = .ok m → m.LeavesUnchanged l :=
  ⟨build_self_iff, fun _ h => leavesUnchanged_of_build_self h⟩

/-- Three registers inside each other and a field stay as they are; a language with two fields that
have a bit in common is not carried over to itself. -/
theorem build_self_threeDeep :
    (∃ m, build threeDeep threeDeep = .ok m ∧
      m.migrate (.ofMask ⟨0⟩ 8 0x3c 0x14) = .ok (some (.ofMask ⟨0⟩ 8 0x3c 0x14)) ∧
        m.migrateToBase (.ofMask ⟨0⟩ 8 0x3c 0x14) =
          .ok (some (.ofMask ⟨1⟩ 36 0x3c0000 0x140000))) ∧
    ¬ ∃ m, build (contextOnly "ctx" 0 8 [⟨"mode", ⟨0, 1⟩⟩, ⟨"trace", ⟨1, 2⟩⟩] (by decide))
      (contextOnly "ctx" 0 8 [⟨"mode", ⟨0, 1⟩⟩, ⟨"trace", ⟨1, 2⟩⟩] (by decide)) = .ok m := by
  constructor
  · obtain ⟨hbuilt, hsame⟩ := build_self threeDeep
    have hfields : threeDeep.contextFields = [⟨"mode", ⟨4, 5⟩⟩] := by decide
    obtain ⟨m, hm⟩ := hbuilt.2 (by
      rw [Language.FieldsApart, hfields]
      exact List.pairwise_singleton _ _)
    obtain ⟨low, hlow⟩ : ∃ r, threeDeep.registerById? ⟨0⟩ = some r := ⟨_, rfl⟩
    have hwidth : low.bitSize = 8 := by
      rcases Option.some.inj hlow with rfl
      rfl
    obtain ⟨hmigrate, hbase⟩ := (hsame m hm).value low (.ofMask ⟨0⟩ 8 0x3c 0x14) hlow hwidth.symm
    refine ⟨m, hm, hmigrate, ?_⟩
    rw [hbase]
    decide +kernel
  · rw [(build_self _).1]
    intro hapart
    have hfields : (contextOnly "ctx" 0 8 [⟨"mode", ⟨0, 1⟩⟩, ⟨"trace", ⟨1, 2⟩⟩]
        (by decide)).contextFields = [⟨"mode", ⟨0, 1⟩⟩, ⟨"trace", ⟨1, 2⟩⟩] := by decide
    rw [Language.FieldsApart, hfields, List.pairwise_pair] at hapart
    exact hapart 1 (by decide)

end Migrator

end RegisterMigration
