import RegisterMigration.Proofs.Migration.ContextValues

/-!
# Carrying values further and back

Versions of a language form chains, and a value may be carried over more than once.  For an ordinary
register nothing depends on the way that is taken: each step leads to the one register of the same
name and keeps every bit at its place, so the last version of a way and the bits of the value decide
what arrives.  Which registers are converted on the way, and which go over as they are, cannot be
told from the answer.

A value of the context register that is carried to another version and back passes two field maps
that were built independently of each other.  They agree on which fields there are, and each takes
the bits of a field to where the other one takes them from.  Both of them exist only if the shared
fields are apart in both layouts, so no bit is overwritten on the way.  What the other version has no
field for is lost, and comes back unknown.

## Main results

* `CarriedAlong.exists_corresponds` — what a way of any length keeps.
* `migrate_of_migrate` — a detour makes no difference.
* `converts_comm` — values are converted in both directions or in neither.
* `migrate_back` — what is left of a value that is carried over and back.
-/

namespace RegisterMigration

variable {old new : Language} {r n : Register}

/-! ## Field maps in both directions -/

/-- The move that takes a field back. -/
def FieldMove.reverse (m : FieldMove) : FieldMove :=
  ⟨m.name, m.new, m.old⟩

namespace ContextMap

variable {c d : ContextMap}

theorem reverse_mem_movesBetween {m : FieldMove} (hm : m ∈ movesBetween old new) :
    m.reverse ∈ movesBetween new old := by
  obtain ⟨f, hf, g, hg, hname, rfl⟩ := mem_movesBetween_iff.1 hm
  exact mem_movesBetween_iff.2 ⟨g, hg, f, hf, hname.symm, by rw [FieldMove.reverse, hname]⟩

/-- A map changes nothing exactly if the map in the other direction changes nothing. -/
theorem identity_comm (h : build old r new n = .ok c) (h' : build new n old r = .ok d) :
    d.identity = c.identity := by
  have hunmoved : ∀ {a b : Language}, (∀ m ∈ movesBetween a b, m.old = m.new) →
      ∀ m ∈ movesBetween b a, m.old = m.new := by
    intro a b hall m hm
    exact (hall m.reverse (reverse_mem_movesBetween hm)).symm
  rw [Bool.eq_iff_iff, identity_iff_of_build h, identity_iff_of_build h']
  -- The fields that one direction adds are those that the other one drops.
  constructor
  · rintro ⟨hsize, hadded, hdropped, hall⟩
    exact ⟨hsize.symm, hdropped, hadded, hunmoved hall⟩
  · rintro ⟨hsize, hdropped, hadded, hall⟩
    exact ⟨hsize.symm, hadded, hdropped, hunmoved hall⟩

/-- The bits of a shared field come back to their places. -/
theorem bit_apply_apply_of_shares (hr : old.contextRegister? = some r)
    (hn : new.contextRegister? = some n) (h : build old r new n = .ok c)
    (h' : build new n old r = .ok d) (v : PartialValue) {f : ContextField}
    (hf : old.Shares new f) {i : Nat} (hi : f.range.covers i) :
    (d.apply (c.apply v)).bit i = v.bit i := by
  obtain ⟨hfmem, g, hg, hname⟩ := hf
  have hmove := mem_movesBetween_of_name_eq hfmem hg hname.symm
  have hback := bit_apply_of_covers hr h' (c.apply v) (reverse_mem_movesBetween hmove) hi
  have hthere := bit_apply_target hn h v hmove hi
  exact hback.trans hthere

/-- Nothing else comes back. -/
theorem bit_apply_apply_of_not_shares (h' : build new n old r = .ok d) (w : PartialValue) {i : Nat}
    (hi : ∀ f, old.Shares new f → ¬ f.range.covers i) : (d.apply w).bit i = none := by
  refine bit_apply_eq_none w fun m hm hcovers => ?_
  rw [moves_of_build h'] at hm
  obtain ⟨g, hg, f, hf, hname, rfl⟩ := mem_movesBetween_iff.1 hm
  exact hi f ⟨hf, g, hg, hname⟩ hcovers

end ContextMap

namespace Migrator

/-! ## Further -/

/-- The value `w` of the language `c` is what becomes of the value `v` of the language `a` if it is
carried over any number of times. -/
inductive CarriedAlong : Language → PartialValue → Language → PartialValue → Prop
  | here {a : Language} {v : PartialValue} : CarriedAlong a v a v
  | step {a b c : Language} {m : Migrator} {v w u : PartialValue} :
      build a b = .ok m → m.migrate v = .ok (some w) → CarriedAlong b w c u → CarriedAlong a v c u

/-- However often a value of an ordinary register is carried over, it ends on a register that
corresponds to its own, with the same bits. -/
theorem CarriedAlong.exists_corresponds {a c : Language} {v u : PartialValue}
    (h : CarriedAlong a v c u) {r : Register} (hr : a.registerById? v.register = some r)
    (hwidth : v.width = r.bitSize) (hordinary : r.context = false) :
    ∃ n, c.Corresponds r n ∧ u.register = n.id ∧ u.width = n.bitSize ∧
      ∀ i, u.bit i = v.bit i := by
  -- The rest of the way starts at the counterpart, which is an ordinary register again.
  induction h generalizing r with
  | here =>
      have hself := Language.corresponds_of_eq (Language.mem_of_registerById hr) rfl fun _ => rfl
      exact ⟨r, hself, (Language.id_eq_of_registerById hr).symm, hwidth, fun _ => rfl⟩
  | step hbuild hw _ ih =>
      obtain ⟨s, hs, hregister, hwide, hbit⟩ :=
        (migrate_eq_some_iff_of_ordinary hbuild hr hwidth hordinary).1 hw
      obtain ⟨n, hn, hanchor, hwide', hbit'⟩ := ih (Language.registerById?_of_mem hs.1 hregister)
        hwide (hs.context_eq.trans hordinary)
      exact ⟨n, hs.trans hn, hanchor, hwide', fun i => (hbit' i).trans (hbit i)⟩

/-- The last version of a way decides what arrives: carrying the value there directly gives the
same. -/
theorem CarriedAlong.migrate_eq {a c : Language} {m : Migrator} {v u : PartialValue}
    (h : CarriedAlong a v c u) (hbuild : build a c = .ok m) {r : Register}
    (hr : a.registerById? v.register = some r) (hwidth : v.width = r.bitSize)
    (hordinary : r.context = false) : m.migrate v = .ok (some u) :=
  (migrate_eq_some_iff_of_ordinary hbuild hr hwidth hordinary).2
    (h.exists_corresponds hr hwidth hordinary)

/-- A value of an ordinary register that is carried over twice arrives as if it had been carried
over once. -/
theorem migrate_of_migrate {a b c : Language} {m k d : Migrator} (hm : build a b = .ok m)
    (hk : build b c = .ok k) (hd : build a c = .ok d) {v w u : PartialValue} {r : Register}
    (hr : a.registerById? v.register = some r) (hwidth : v.width = r.bitSize)
    (hordinary : r.context = false) (hw : m.migrate v = .ok (some w))
    (hu : k.migrate w = .ok (some u)) : d.migrate v = .ok (some u) := by
  have hway : CarriedAlong a v c u := .step hm hw (.step hk hu .here)
  exact hway.migrate_eq hd hr hwidth hordinary

/-- A language in which the register of `shortRegister` is part of a longer one. -/
def enclosedRegister : Language :=
  .ofRegisters .little
    [{ name := "base", space := "register", offset := 0, bitSize := 64 },
      { name := "r0", space := "register", offset := 2, bitSize := 20 }] [] (by decide)

/-- The upper half of the short register goes by way of the enclosed one to the long one. -/
theorem migrate_of_migrate_enclosed :
    ∃ m k d w u, build shortRegister enclosedRegister = .ok m ∧
      build enclosedRegister longRegister = .ok k ∧ build shortRegister longRegister = .ok d ∧
        m.migrate (.ofMask ⟨0⟩ 16 0xff00 0x1200) = .ok (some w) ∧ w.width = 20 ∧
          k.migrate w = .ok (some u) ∧ u.width = 32 ∧
            d.migrate (.ofMask ⟨0⟩ 16 0xff00 0x1200) = .ok (some u) := by
  obtain ⟨m, hm⟩ : ∃ m, build shortRegister enclosedRegister = .ok m := ⟨_, rfl⟩
  obtain ⟨k, hk⟩ : ∃ k, build enclosedRegister longRegister = .ok k := ⟨_, rfl⟩
  obtain ⟨d, hd⟩ : ∃ d, build shortRegister longRegister = .ok d := ⟨_, rfl⟩
  obtain ⟨w, hw, hregister, hwide, _⟩ :=
    exists_migrate hm (v := .ofMask ⟨0⟩ 16 0xff00 0x1200) rfl rfl
      (Language.counterpart?_eq_some_iff.1 rfl)
  obtain ⟨u, hu, _, hwide', _⟩ :=
    exists_migrate hk (by rw [hregister]; rfl) hwide (Language.counterpart?_eq_some_iff.1 rfl)
  exact ⟨m, k, d, w, u, hm, hk, hd, hw, hwide, hu, hwide',
    migrate_of_migrate hm hk hd rfl rfl rfl hw hu⟩

/-! ## Back -/

/-- Values of a register and values of its counterpart are converted both or neither. -/
theorem converts_comm {m k : Migrator} (hm : build old new = .ok m) (hk : build new old = .ok k)
    (hr : r ∈ old.registers) (hn : new.Corresponds r n) : k.converts n.id = m.converts r.id := by
  have hback := hn.symm hr
  rw [converts_of_build hm hr hn, converts_of_build hk hn.1 hback, Register.rearranged_comm,
    hn.context_eq]
  cases hcontext : r.context with
  | false => rfl
  | true =>
      obtain ⟨c, hc, hbuild⟩ := context_of_build hm hr hn hcontext
      obtain ⟨d, hd, hbuild'⟩ := context_of_build hk hn.1 hback (hn.context_eq.trans hcontext)
      rw [hc, hd, Option.any_some, Option.any_some, ContextMap.identity_comm hbuild hbuild']

/-- A value of an ordinary register comes back as it was. -/
theorem migrate_back_of_ordinary {m k : Migrator} (hm : build old new = .ok m)
    (hk : build new old = .ok k) {v w : PartialValue}
    (hr : old.registerById? v.register = some r) (hwidth : v.width = r.bitSize)
    (hordinary : r.context = false) (hw : m.migrate v = .ok (some w)) :
    k.migrate w = .ok (some v) := by
  obtain ⟨n, hn, hregister, hwide, hbit⟩ :=
    (migrate_eq_some_iff_of_ordinary hm hr hwidth hordinary).1 hw
  have hat := Language.registerById?_of_mem hn.1 hregister
  refine (migrate_eq_some_iff_of_ordinary hk hat hwide (hn.context_eq.trans hordinary)).2 ?_
  exact ⟨r, hn.symm (Language.mem_of_registerById hr), (Language.id_eq_of_registerById hr).symm,
    hwidth, fun i => (hbit i).symm⟩

/-- A value that is not converted comes back as it was. -/
theorem migrate_back_of_not_converts {m k : Migrator} (hm : build old new = .ok m)
    (hk : build new old = .ok k) {v w : PartialValue}
    (hr : old.registerById? v.register = some r) (hconverts : m.converts r.id = false)
    (hw : m.migrate v = .ok (some w)) : k.migrate w = .ok (some v) := by
  have hmem := Language.mem_of_registerById hr
  have hid := Language.id_eq_of_registerById hr
  obtain ⟨hwidth, n, hn, hconvert⟩ := exists_convert_of_register hm hr hw
  rw [convert_of_not_converts hconverts] at hconvert
  rcases Option.some.inj hconvert with rfl
  have hsize := bitSize_eq_of_not_converts hm hmem hn hconverts
  have hback : k.converts n.id = false := (converts_comm hm hk hmem hn).trans hconverts
  have hat : new.registerById? (v.reanchor n.id).register = some n :=
    Language.registerById?_of_mem hn.1 rfl
  rw [migrate_of_corresponds hk hat (hwidth.trans hsize) (hn.symm hmem),
    convert_of_not_converts hback, hid]
  rfl

/-- The fields of a value of the context register that is converted move there and back. -/
theorem migrate_back_of_converts {m k : Migrator} (hm : build old new = .ok m)
    (hk : build new old = .ok k) {v w : PartialValue}
    (hr : old.registerById? v.register = some r) (hcontext : r.context = true)
    (hconverts : m.converts r.id = true) (hw : m.migrate v = .ok (some w)) :
    ∃ n c d, new.contextRegister? = some n ∧ ContextMap.build old r new n = .ok c ∧
      ContextMap.build new n old r = .ok d ∧
        k.migrate w = .ok (some (d.apply (c.apply v))) := by
  have hmem := Language.mem_of_registerById hr
  obtain ⟨_, n, hn, hconvert⟩ := exists_convert_of_register hm hr hw
  have hrcontext := Language.contextRegister?_eq_some_iff.2 ⟨hmem, hcontext⟩
  have hncontext := Language.contextRegister?_eq_some_iff.2 ⟨hn.1, hn.context_eq.trans hcontext⟩
  have hback : k.converts n.id = true := (converts_comm hm hk hmem hn).trans hconverts
  obtain ⟨c, hc, ⟨_, hthere⟩ | ⟨hnot, _⟩⟩ := convert_of_context hm hmem hn hcontext v
  · rw [hconvert] at hthere
    rcases Option.some.inj hthere with rfl
    obtain ⟨d, _, hd, ⟨_, hreturn⟩ | ⟨hnot, _⟩⟩ := migrate_of_context hk hncontext hrcontext
      (v := c.apply v) (ContextMap.register_of_build hc) (ContextMap.width_of_build hc)
    · exact ⟨n, c, d, hncontext, hc, hd, hreturn⟩
    · rw [hback] at hnot
      cases hnot
  · rw [hconverts] at hnot
    cases hnot

/-- A value that is carried over and back has an answer on its own register.  It is the value itself
if the register is an ordinary one or its values are not converted.  Otherwise it has the bits of
the fields that both languages declare, and no others. -/
theorem migrate_back {m k : Migrator} (hm : build old new = .ok m) (hk : build new old = .ok k)
    {v w : PartialValue} (hr : old.registerById? v.register = some r)
    (hwidth : v.width = r.bitSize) (hw : m.migrate v = .ok (some w)) :
    ∃ u, k.migrate w = .ok (some u) ∧ u.register = v.register ∧ u.width = v.width ∧
      (r.context = false ∨ m.converts r.id = false → u = v) ∧
      (r.context = true → m.converts r.id = true → ∀ i,
        ((∃ f, old.Shares new f ∧ f.range.covers i) → u.bit i = v.bit i) ∧
        ((∀ f, old.Shares new f → ¬ f.range.covers i) → u.bit i = none)) := by
  by_cases hmoves : r.context = true ∧ m.converts r.id = true
  · obtain ⟨hcontext, hconverts⟩ := hmoves
    have hrcontext := Language.contextRegister?_eq_some_iff.2
      ⟨Language.mem_of_registerById hr, hcontext⟩
    obtain ⟨n, c, d, hncontext, hc, hd, hu⟩ :=
      migrate_back_of_converts hm hk hr hcontext hconverts hw
    refine ⟨_, hu, ?_, ?_, fun hkept => ?_, fun _ _ i => ⟨?_, ?_⟩⟩
    · exact (ContextMap.register_of_build hd).trans (Language.id_eq_of_registerById hr)
    · exact (ContextMap.width_of_build hd).trans hwidth.symm
    · rw [hcontext, hconverts] at hkept
      rcases hkept with hkept | hkept <;> cases hkept
    · rintro ⟨f, hf, hi⟩
      exact ContextMap.bit_apply_apply_of_shares hrcontext hncontext hc hd v hf hi
    · exact ContextMap.bit_apply_apply_of_not_shares hd _
  · have hsame : k.migrate w = .ok (some v) := by
      cases hconverts : m.converts r.id with
      | false => exact migrate_back_of_not_converts hm hk hr hconverts hw
      | true =>
          have hordinary : r.context = false := by
            rw [← Bool.not_eq_true]
            exact fun hcontext => hmoves ⟨hcontext, hconverts⟩
          exact migrate_back_of_ordinary hm hk hr hwidth hordinary hw
    exact ⟨v, hsame, rfl, rfl, fun _ => rfl,
      fun hcontext hconverts => absurd ⟨hcontext, hconverts⟩ hmoves⟩

/-- A language in whose context register `mode` is below `level`. -/
def modeBelow : Language :=
  contextOnly "ctx" 0 8 [⟨"mode", ⟨0, 1⟩⟩, ⟨"trace", ⟨2, 3⟩⟩, ⟨"level", ⟨4, 6⟩⟩] (by decide)

/-- A language in whose wider context register `mode` is above `level`. -/
def modeAbove : Language :=
  contextOnly "state" 4 16 [⟨"level", ⟨0, 2⟩⟩, ⟨"extra", ⟨12, 13⟩⟩, ⟨"mode", ⟨9, 10⟩⟩] (by decide)

/-- `mode` and `level` change sides and come back, and `trace` is lost. -/
theorem migrate_back_modeAbove :
    ∃ m k w u, build modeBelow modeAbove = .ok m ∧ build modeAbove modeBelow = .ok k ∧
      m.migrate (.known ⟨0⟩ 8 0xd7) = .ok (some w) ∧ k.migrate w = .ok (some u) ∧
        u.register = ⟨0⟩ ∧ u.width = 8 ∧ u.bit 1 = some true ∧ u.bit 2 = none ∧
          u.bit 5 = some false ∧ u.bit 6 = some true ∧ u.bit 7 = none := by
  obtain ⟨m, hm⟩ : ∃ m, build modeBelow modeAbove = .ok m := ⟨_, rfl⟩
  obtain ⟨k, hk⟩ : ∃ k, build modeAbove modeBelow = .ok k := ⟨_, rfl⟩
  have hconverts : m.converts ⟨0⟩ = true := by
    rcases Except.ok.inj hm with rfl
    decide +kernel
  obtain ⟨w, hw, _⟩ := exists_migrate hm (v := .known ⟨0⟩ 8 0xd7) rfl rfl
    (Language.counterpart?_eq_some_iff.1 rfl)
  obtain ⟨u, hu, hregister, hwidth, _, hfields⟩ := migrate_back hm hk rfl rfl hw
  have hmode : modeBelow.Shares modeAbove ⟨"mode", ⟨0, 1⟩⟩ :=
    ⟨by decide, ⟨"mode", ⟨9, 10⟩⟩, by decide, rfl⟩
  have hlevel : modeBelow.Shares modeAbove ⟨"level", ⟨4, 6⟩⟩ :=
    ⟨by decide, ⟨"level", ⟨0, 2⟩⟩, by decide, rfl⟩
  have hkept : ∀ i, (∃ f, modeBelow.Shares modeAbove f ∧ f.range.covers i) →
      u.bit i = (PartialValue.known ⟨0⟩ 8 0xd7).bit i := fun i => (hfields rfl hconverts i).1
  have hlost : ∀ i, (∀ f ∈ modeBelow.contextFields, (∃ g ∈ modeAbove.contextFields,
      g.name = f.name) → ¬ f.range.covers i) → u.bit i = none := fun i hi =>
    (hfields rfl hconverts i).2 fun f hf => hi f hf.1 hf.2
  refine ⟨m, k, w, u, hm, hk, hw, hu, hregister, hwidth, ?_, ?_, ?_, ?_, ?_⟩
  · exact (hkept 1 ⟨_, hmode, rfl⟩).trans (by decide)
  · exact hlost 2 (by decide)
  · exact (hkept 5 ⟨_, hlevel, rfl⟩).trans (by decide)
  · exact (hkept 6 ⟨_, hlevel, rfl⟩).trans (by decide)
  · exact hlost 7 (by decide)

end Migrator

end RegisterMigration
