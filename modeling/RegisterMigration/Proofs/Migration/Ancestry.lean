import RegisterMigration.Proofs.Language.Forest
import RegisterMigration.Proofs.Language.Widening
import RegisterMigration.Proofs.Migration.Values

/-!
# Unchanged hierarchies

Whether values of a register are converted depends on one level of the hierarchy: its own place
and size, and the name, offset and size of its parent.  A parent in the new language that merely
looks like the old one need not be the counterpart of the old one, because the context register
corresponds by its role and every other register by its name.  What settles the matter is the
space that the two share: the counterpart of an unconverted parent occupies the same bytes as the
new parent, and no two registers of a language do that.

So one step up leads from corresponding registers to corresponding registers, and an induction
along the way up carries this to the base.  As all places and sizes on the way are the same, a
value lands on the same bits of either base.

## Main results

* `parentOf?_of_keeps` — one step up, in both languages.
* `map_counterpart?_lineage` — the whole way up, in both languages.
* `migrateToBase_of_unchangedUpward` — the value on the base is the same.
-/

namespace RegisterMigration

namespace Language

variable {r : Register}

/-- The place of a register inside another one depends on the offsets and sizes of the two. -/
theorem lowBit_eq_of_span_eq {old new : Language} {a b n : Register}
    (hendianness : old.definition.endianness = new.definition.endianness)
    (hoffset : r.offset = n.offset) (hsize : r.bitSize = n.bitSize)
    (hoffset' : a.offset = b.offset) (hsize' : a.bitSize = b.bitSize) :
    old.lowBit r a = new.lowBit n b := by
  unfold lowBit bytesBelow RegisterDecl.stop RegisterDecl.byteLen
  rw [hendianness, hoffset, hsize, hoffset', hsize']

end Language

namespace Register

/-- A parent is the same register if there is none in either language, or one of the same name,
offset and size in both. -/
theorem parentChanged_eq_false_iff {o n : Option Register} :
    parentChanged o n = false ↔
      (o = none ∧ n = none) ∨
        ∃ p q, o = some p ∧ n = some q ∧ p.name = q.name ∧ p.offset = q.offset ∧
          p.bitSize = q.bitSize := by
  cases o with
  | none => cases n <;> simp [parentChanged]
  | some p =>
      cases n with
      | none => simp [parentChanged]
      | some q => simp [parentChanged, and_assoc]

/-- A register is where it was if its space, offset and size are the same, and its parent is. -/
theorem rearranged_eq_false_iff {old new : Language} {o n : Register} :
    rearranged old new o n = false ↔
      (o.space = n.space ∧ o.offset = n.offset ∧ o.bitSize = n.bitSize) ∧
        parentChanged (old.parentOf? o.id) (new.parentOf? n.id) = false := by
  simp [rearranged, moved, and_assoc]

end Register

namespace Migrator

variable {old new : Language} {m : Migrator} {r n p : Register}

/-- The register `n` takes the place of the old register `r`, and values go over as they are. -/
def Keeps (m : Migrator) (r n : Register) : Prop :=
  m.new.Corresponds r n ∧ m.converts r.id = false

/-- An old register and all its ancestors have counterparts, and values of none of them are
converted. -/
def UnchangedUpward (m : Migrator) (r : Register) : Prop :=
  ∀ a ∈ m.old.lineage r.id, ∃ n, m.Keeps a n

/-- What is not converted is not rearranged. -/
theorem rearranged_of_keeps (h : build old new = .ok m) (hr : r ∈ old.registers)
    (hkeeps : m.Keeps r n) : Register.rearranged old new r n = false := by
  obtain ⟨hn, hconverts⟩ := hkeeps
  rw [new_of_build h] at hn
  rw [converts_of_build h hr hn] at hconverts
  exact (Bool.or_eq_false_iff.1 hconverts).1

theorem span_eq_of_keeps (h : build old new = .ok m) (hr : r ∈ old.registers)
    (hkeeps : m.Keeps r n) :
    r.space = n.space ∧ r.offset = n.offset ∧ r.bitSize = n.bitSize :=
  (Register.rearranged_eq_false_iff.1 (rearranged_of_keeps h hr hkeeps)).1

theorem parentOf?_eq_none_of_keeps (h : build old new = .ok m) (hr : r ∈ old.registers)
    (hkeeps : m.Keeps r n) (hp : old.parentOf? r.id = none) : new.parentOf? n.id = none := by
  have hsame := (Register.rearranged_eq_false_iff.1 (rearranged_of_keeps h hr hkeeps)).2
  rcases Register.parentChanged_eq_false_iff.1 hsame with ⟨_, hnone⟩ | ⟨p, _, hp', _⟩
  · exact hnone
  · rw [hp] at hp'
    cases hp'

/-- One step up: the parent of the counterpart is the counterpart of the parent. -/
theorem parentOf?_of_keeps (h : build old new = .ok m) (hr : r ∈ old.registers)
    (hkeeps : m.Keeps r n) (hp : old.parentOf? r.id = some p) {q : Register}
    (hq : m.Keeps p q) : new.parentOf? n.id = some q := by
  have hnew := new_of_build h
  have hpmem := Language.parentOf_mem hp
  have hnmem : n ∈ new.registers := hnew ▸ hkeeps.1.1
  have hqmem : q ∈ new.registers := hnew ▸ hq.1.1
  have hsame := (Register.rearranged_eq_false_iff.1 (rearranged_of_keeps h hr hkeeps)).2
  rcases Register.parentChanged_eq_false_iff.1 hsame with ⟨hnone, _⟩ | ⟨p', x, hp', hx, hlook⟩
  · rw [hp] at hnone
    cases hnone
  · rw [hp] at hp'
    rcases Option.some.inj hp' with rfl
    obtain ⟨_, hoffset, hsize⟩ := hlook
    obtain ⟨hqspace, hqoffset, hqsize⟩ := span_eq_of_keeps h hpmem hq
    obtain ⟨hnspace, _, _⟩ := span_eq_of_keeps h hr hkeeps
    -- The new parent `x` looks like `p`, and shares the space of everything around `n`.
    have hrp := (Language.inside_of_parentOf (Language.mem_registers_iff.1 hr) hp).1
    have hnx := (Language.inside_of_parentOf (Language.mem_registers_iff.1 hnmem) hx).1
    have hspace : x.space = q.space := by
      rw [← hnx, ← hnspace, hrp, hqspace]
    have heq : x = q := Language.eq_of_span_eq (Language.parentOf_mem hx) hqmem hspace
      (hoffset.symm.trans hqoffset) (congrArg byteLength (hsize.symm.trans hqsize))
    rw [hx, heq]

/-- The whole way up: the counterparts of the ancestors are the ancestors of the counterpart, in
the same order. -/
theorem map_counterpart?_lineage (h : build old new = .ok m) {id : RegisterId}
    (hr : old.registerById? id = some r) (hn : new.Corresponds r n)
    (hup : ∀ a ∈ old.lineage id, ∃ k, m.Keeps a k) :
    (old.lineage id).map new.counterpart? = (new.lineage n.id).map some := by
  have hnew := new_of_build h
  -- Each step of `lineage` in the old language is matched by one in the new language.
  fun_induction Language.lineage old id generalizing r n with
  | case1 id hnone =>
      rw [hr] at hnone
      cases hnone
  | case2 id s hs hnone =>
      rw [hr] at hs
      rcases Option.some.inj hs with rfl
      rw [← Language.id_eq_of_registerById hr] at hnone
      have hmem := Language.mem_of_registerById hr
      obtain ⟨k, hk⟩ := hup r List.mem_cons_self
      have hkn : k = n := (hnew ▸ hk.1).unique hn
      rw [hkn] at hk
      rw [Language.lineage_of_parentOf_eq_none hn.1 (parentOf?_eq_none_of_keeps h hmem hk hnone),
        List.map_singleton, List.map_singleton, Language.counterpart?_eq_some_iff.2 hn]
  | case3 id s hs p hp ih =>
      rw [hr] at hs
      rcases Option.some.inj hs with rfl
      rw [← Language.id_eq_of_registerById hr] at hp
      have hmem := Language.mem_of_registerById hr
      have hpat := Language.registerById_of_parentOf hp
      obtain ⟨k, hk⟩ := hup r List.mem_cons_self
      have hkn : k = n := (hnew ▸ hk.1).unique hn
      rw [hkn] at hk
      obtain ⟨q, hq⟩ := hup p (List.mem_cons_of_mem _ (Language.mem_lineage_self hpat))
      have hqparent := parentOf?_of_keeps h hmem hk hp hq
      have hrest := ih hpat (hnew ▸ hq.1) fun a ha => hup a (List.mem_cons_of_mem _ ha)
      rw [Language.lineage_of_parentOf_eq_some hn.1 hqparent, List.map_cons, List.map_cons, hrest,
        Language.counterpart?_eq_some_iff.2 hn]

/-- Both ways up end at corresponding registers. -/
theorem baseOf?_of_map_counterpart?_lineage {id id' : RegisterId}
    (h : (old.lineage id).map new.counterpart? = (new.lineage id').map some) {a b : Register}
    (ha : old.baseOf? id = some a) (hb : new.baseOf? id' = some b) : new.Corresponds a b := by
  have hlast := congrArg List.getLast? h
  rw [List.getLast?_map, List.getLast?_map, ← Language.baseOf?, ← Language.baseOf?, ha, hb]
    at hlast
  exact Language.counterpart?_eq_some_iff.1 (Option.some.inj hlast)

/-- If a register and all its ancestors have counterparts whose values go over as they are, the
counterparts of the way up are the way up from the counterpart.  A value that is carried over and
put on the base there has the size and the bits that it has on the base here. -/
theorem migrateToBase_of_unchangedUpward (h : build old new = .ok m) (hr : r ∈ old.registers)
    (hup : m.UnchangedUpward r) :
    ∃ n a b, new.Corresponds r n ∧
      (old.lineage r.id).map new.counterpart? = (new.lineage n.id).map some ∧
      old.baseOf? r.id = some a ∧ new.baseOf? n.id = some b ∧ new.Corresponds a b ∧
      ∀ v : PartialValue, v.register = r.id → v.width = r.bitSize →
        ∃ w u, old.widenToBase? v = some w ∧ m.migrateToBase v = .ok (some u) ∧
          u.register = b.id ∧ u.width = w.width ∧ u.maskBytes = w.maskBytes ∧
            u.valueBytes = w.valueBytes := by
  have hold := old_of_build h
  have hnew := new_of_build h
  rw [UnchangedUpward, hold] at hup
  have hat := Language.mem_registers_iff.1 hr
  obtain ⟨n, hkeeps⟩ := hup r (Language.mem_lineage_self hat)
  have hn : new.Corresponds r n := hnew ▸ hkeeps.1
  have hways := map_counterpart?_lineage h hat hn hup
  obtain ⟨a, s, hbase, hamem, _, _, hs, hwiden⟩ := Language.widenToBase?_eq hr
  obtain ⟨b, t, hbase', _, _, _, ht, hwiden'⟩ := Language.widenToBase?_eq hn.1
  have hab := baseOf?_of_map_counterpart?_lineage hways hbase hbase'
  refine ⟨n, a, b, hn, hways, hbase, hbase', hab, fun v hv hwidth => ?_⟩
  -- The base is an ancestor, so it has kept its place and size too.
  have halineage : a ∈ old.lineage r.id := List.mem_of_getLast? hbase
  obtain ⟨k, hk⟩ := hup a halineage
  have hkb : k = b := (hnew ▸ hk.1).unique hab
  rw [hkb] at hk
  obtain ⟨_, hoffset, hsize⟩ := span_eq_of_keeps h hr hkeeps
  obtain ⟨_, hoffset', hsize'⟩ := span_eq_of_keeps h hamem hk
  have hshift : s = t := by
    rw [← UInt32.toNat_inj, hs, ht]
    exact Language.lowBit_eq_of_span_eq (compatible_of_build h).endianness hoffset hsize hoffset'
      hsize'
  have hmigrate : m.migrate v = .ok (some (v.reanchor n.id)) := by
    rw [migrate_of_corresponds h (hv ▸ hat) hwidth hn, convert_of_not_converts hkeeps.2]
  have hsame : (v.reanchor n.id).raised b.id b.bitSize t =
      (v.raised a.id a.bitSize s).reanchor b.id := by
    rw [hshift, hsize']
    rfl
  refine ⟨_, (v.raised a.id a.bitSize s).reanchor b.id, hwiden v hv, ?_, rfl, rfl, rfl, rfl⟩
  rw [migrateToBase, hmigrate, hnew, ← hsame]
  exact congrArg Except.ok (hwiden' _ rfl)

/-- A language whose context register holds a register that holds another one. -/
def threeDeep : Language :=
  .ofRegisters .big
    [{ name := "low", space := "register", offset := 2, bitSize := 8 },
      { name := "state", space := "register", offset := 0, bitSize := 36, context := true },
      { name := "half", space := "register", offset := 1, bitSize := 16 }]
    [⟨"mode", ⟨4, 5⟩⟩] (by decide)

/-- The same hierarchy, declared in another order and beside another register. -/
def threeDeepReordered : Language :=
  .ofRegisters .big
    [{ name := "half", space := "register", offset := 1, bitSize := 16 },
      { name := "flags", space := "register", offset := 5, bitSize := 8 },
      { name := "low", space := "register", offset := 2, bitSize := 8 },
      { name := "state", space := "register", offset := 0, bitSize := 36, context := true }]
    [⟨"mode", ⟨4, 5⟩⟩] (by decide)

/-- The lowest register goes over with its two ancestors, and its value is found on the third byte
of the context register in either language. -/
theorem migrateToBase_of_unchangedUpward_threeDeep :
    ∃ m u, build threeDeep threeDeepReordered = .ok m ∧
      (threeDeep.lineage ⟨0⟩).map (·.name) = ["low", "half", "state"] ∧
        m.migrateToBase (.ofMask ⟨0⟩ 8 0x3c 0x14) = .ok (some u) ∧
          u.register = ⟨3⟩ ∧ u.width = 36 ∧ u.maskBytes = [0, 0, 0x3c, 0, 0] ∧
            u.valueBytes = [0, 0, 0x14, 0, 0] := by
  obtain ⟨m, hm⟩ : ∃ m, build threeDeep threeDeepReordered = .ok m := ⟨_, rfl⟩
  obtain ⟨low, hlow⟩ : ∃ r, threeDeep.registerById? ⟨0⟩ = some r := ⟨_, rfl⟩
  have hid := Language.id_eq_of_registerById hlow
  have hwidth : low.bitSize = 8 := by
    rcases Option.some.inj hlow with rfl
    rfl
  have hunconverted : ∀ a ∈ threeDeep.lineage ⟨0⟩,
      (build threeDeep threeDeepReordered).toOption.any
        (fun m => (threeDeepReordered.counterpart? a).isSome && !m.converts a.id) := by
    decide +kernel
  have hup : m.UnchangedUpward low := by
    rw [UnchangedUpward, old_of_build hm, hid]
    intro a ha
    have hkept := hunconverted a ha
    rw [hm] at hkept
    simp only [Except.toOption, Option.any_some, Bool.and_eq_true, Bool.not_eq_true'] at hkept
    obtain ⟨n, hn⟩ := Option.isSome_iff_exists.1 hkept.1
    refine ⟨n, ?_, hkept.2⟩
    rw [new_of_build hm]
    exact Language.counterpart?_eq_some_iff.1 hn
  obtain ⟨_, a, b, _, _, hbase, _, hab, hvalue⟩ :=
    migrateToBase_of_unchangedUpward hm (Language.mem_of_registerById hlow) hup
  obtain ⟨w, u, hw, hu, hregister, hwide, hmask, hbits⟩ :=
    hvalue (.ofMask ⟨0⟩ 8 0x3c 0x14) hid.symm hwidth.symm
  have hwidened : threeDeep.widenToBase? (.ofMask ⟨0⟩ 8 0x3c 0x14) =
      some (.ofMask ⟨1⟩ 36 0x3c0000 0x140000) := by decide +kernel
  rw [hwidened] at hw
  rcases Option.some.inj hw with rfl
  have hbottom : ((threeDeep.baseOf? ⟨0⟩).bind threeDeepReordered.counterpart?).map (·.id) =
      some ⟨3⟩ := by decide +kernel
  rw [← hid, hbase, Option.bind_some, Language.counterpart?_eq_some_iff.2 hab] at hbottom
  refine ⟨m, u, hm, by decide +kernel, hu, ?_, hwide, ?_, ?_⟩
  · exact hregister.trans (Option.some.inj hbottom)
  · rw [hmask]
    decide
  · rw [hbits]
    decide

end Migrator

end RegisterMigration
