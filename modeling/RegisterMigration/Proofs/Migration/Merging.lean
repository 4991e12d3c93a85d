import RegisterMigration.Proofs.Language.Widening
import RegisterMigration.Proofs.Migration.ContextValues
import RegisterMigration.Proofs.PartialValue.Wiring

/-!
# Merging values before and after they are carried over

Observations of one register are merged bit by bit, and the first one wins where both of them know
a bit.  Carrying a value over moves bits in one of three ways, and putting the answer on a base
register moves them once more.  All of these are wirings: a bit of the answer has one bit of the
value for its source, or none, and the languages alone decide which.  So for every register there is
one wiring that serves all of its values, and merging commutes with it.

Nothing is asked of the fields of the old context register.  Where two of them share a bit, that
bit is the source of two bits of the answer, and both of them come from the same observation.

## Main results

* `exists_wiring`, `exists_baseWiring` — one wiring serves all values of a register.
* `treatsAlike` — carrying over treats the values of a register alike.
* `migrate_combine` — values can be merged before or after they are carried over.
-/

namespace RegisterMigration

namespace ContextMap

/-- The bit that a bit of the new context register is copied from. -/
def wiring (c : ContextMap) (j : Nat) : Option Nat :=
  (c.moves.find? (·.new.covers j)).map fun m => m.old.lo.toNat + (j - m.new.lo.toNat)

theorem apply_eq_wired (c : ContextMap) (v : PartialValue) :
    c.apply v = v.wired c.register c.width c.wiring := by
  refine PartialValue.ext_bit rfl rfl fun j => ?_
  rw [apply, PartialValue.bit_ofBits, PartialValue.bit_wired, wiring]
  cases c.moves.find? (·.new.covers j) with
  | none => rfl
  | some m => rfl

end ContextMap

namespace Migrator

variable {old new : Language} {m : Migrator} {r n : Register}

/-! ## One wiring for a register -/

/-- All values of a register that survives are wired to its counterpart in one way. -/
theorem exists_wiring (h : build old new = .ok m) (hr : r ∈ old.registers)
    (hn : new.Corresponds r n) :
    ∃ source, ∀ v : PartialValue, v.register = r.id → v.width = r.bitSize →
      m.migrate v = .ok (some (v.wired n.id n.bitSize source)) := by
  have hmigrate : ∀ v : PartialValue, v.register = r.id → v.width = r.bitSize →
      m.migrate v = .ok (m.convert r n v) := fun v hregister hwidth =>
    migrate_of_corresponds h (Language.registerById?_of_mem hr hregister) hwidth hn
  -- Which of the three ways is taken depends on the register alone.
  cases hconverts : m.converts r.id with
  | false =>
      have hsize := bitSize_eq_of_not_converts h hr hn hconverts
      refine ⟨some, fun v hregister hwidth => ?_⟩
      rw [hmigrate v hregister hwidth, convert_of_not_converts hconverts,
        PartialValue.reanchor_eq_wired, hwidth, hsize]
  | true =>
      cases hcontext : r.context with
      | false =>
          refine ⟨some, fun v hregister hwidth => ?_⟩
          rw [hmigrate v hregister hwidth, convert_of_converts hconverts, hcontext,
            if_neg (by decide), PartialValue.resized_eq_wired]
      | true =>
          obtain ⟨c, hc, hbuild⟩ := context_of_build h hr hn hcontext
          refine ⟨c.wiring, fun v hregister hwidth => ?_⟩
          rw [hmigrate v hregister hwidth, convert_of_converts hconverts, if_pos hcontext, hc,
            Option.map_some, ContextMap.apply_eq_wired, ContextMap.register_of_build hbuild,
            ContextMap.width_of_build hbuild]

/-- They are wired to the base register of the counterpart in one way, too. -/
theorem exists_baseWiring (h : build old new = .ok m) (hr : r ∈ old.registers)
    (hn : new.Corresponds r n) :
    ∃ a source, new.baseOf? n.id = some a ∧
      ∀ v : PartialValue, v.register = r.id → v.width = r.bitSize →
        m.migrateToBase v = .ok (some (v.wired a.id a.bitSize source)) := by
  obtain ⟨source, hwiring⟩ := exists_wiring h hr hn
  obtain ⟨a, s, hbase, _, _, _, _, hwiden⟩ := Language.widenToBase?_eq hn.1
  refine ⟨a, PartialValue.sourceThrough n.bitSize source fun j =>
      if s.toNat ≤ j then some (j - s.toNat) else none,
    hbase, fun v hregister hwidth => ?_⟩
  rw [migrateToBase, hwiring v hregister hwidth, new_of_build h]
  show Except.ok (new.widenToBase? (v.wired n.id n.bitSize source)) = _
  rw [hwiden _ rfl, PartialValue.raised_eq_wired, PartialValue.wired_wired]

/-- All values of a register are treated alike: there is no answer for any of them, or every answer
is the value in one and the same wiring. -/
def TreatsAlike (f : PartialValue → Except RequestError (Option PartialValue)) (r : Register) :
    Prop :=
  (∀ v : PartialValue, v.register = r.id → v.width = r.bitSize → f v = .ok none) ∨
    ∃ register width source, ∀ v : PartialValue, v.register = r.id → v.width = r.bitSize →
      f v = .ok (some (v.wired register width source))

theorem migrate_eq_none_of_lost (h : build old new = .ok m) (hr : r ∈ old.registers)
    (hlost : ∀ n, ¬ new.Corresponds r n) {v : PartialValue} (hregister : v.register = r.id)
    (hwidth : v.width = r.bitSize) : m.migrate v = .ok none := by
  rw [migrate_of_width h (Language.registerById?_of_mem hr hregister) hwidth,
    Language.counterpart?_eq_none_iff.2 hlost, Option.bind_none]

/-- Whether a register survives decides about all of its values. -/
theorem treatsAlike (h : build old new = .ok m) (hr : r ∈ old.registers) :
    TreatsAlike m.migrate r ∧ TreatsAlike m.migrateToBase r := by
  by_cases hsurvives : ∃ n, new.Corresponds r n
  · obtain ⟨n, hn⟩ := hsurvives
    obtain ⟨source, hwiring⟩ := exists_wiring h hr hn
    obtain ⟨a, source', _, hwiring'⟩ := exists_baseWiring h hr hn
    exact ⟨Or.inr ⟨n.id, n.bitSize, source, hwiring⟩,
      Or.inr ⟨a.id, a.bitSize, source', hwiring'⟩⟩
  · have hnone : ∀ v : PartialValue, v.register = r.id → v.width = r.bitSize →
        m.migrate v = .ok none := fun v hregister hwidth =>
      migrate_eq_none_of_lost h hr (not_exists.1 hsurvives) hregister hwidth
    refine ⟨Or.inl hnone, Or.inl fun v hregister hwidth => ?_⟩
    rw [migrateToBase, hnone v hregister hwidth]
    rfl

/-! ## Merging -/

/-- Two values can be merged before or after something is done with them: either both of them and
the merged one have no answer, or the answers can be merged, and that gives the answer for the
merged value. -/
def CommutesWithMerging (f : PartialValue → Except RequestError (Option PartialValue))
    (v w : PartialValue) : Prop :=
  ∃ x, v.combine w = .ok x ∧
    ((f v = .ok none ∧ f w = .ok none ∧ f x = .ok none) ∨
      ∃ v' w' x', f v = .ok (some v') ∧ f w = .ok (some w') ∧ v'.combine w' = .ok x' ∧
        f x = .ok (some x'))

/-- What treats all values of a register alike can be done before or after merging them. -/
theorem TreatsAlike.commutesWithMerging
    {f : PartialValue → Except RequestError (Option PartialValue)} (hf : TreatsAlike f r)
    {v w : PartialValue} (hv : v.register = r.id) (hvwidth : v.width = r.bitSize)
    (hw : w.register = r.id) (hwwidth : w.width = r.bitSize) : CommutesWithMerging f v w := by
  obtain ⟨x, hx, hregister, hwidth⟩ :=
    PartialValue.exists_combine (hv.trans hw.symm) (hvwidth.trans hwwidth.symm)
  have hxregister : x.register = r.id := hregister.trans hv
  have hxwidth : x.width = r.bitSize := hwidth.trans hvwidth
  refine ⟨x, hx, ?_⟩
  rcases hf with hnone | ⟨_, _, _, hwiring⟩
  · exact Or.inl ⟨hnone v hv hvwidth, hnone w hw hwwidth, hnone x hxregister hxwidth⟩
  · exact Or.inr ⟨_, _, _, hwiring v hv hvwidth, hwiring w hw hwwidth,
      PartialValue.combine_wired hx, hwiring x hxregister hxwidth⟩

/-- Values of one register can be merged before or after they are carried over, and before or after
they are put on the base register.  If nothing is known of a value, nothing is known of either
answer. -/
theorem migrate_combine (h : build old new = .ok m) (hr : r ∈ old.registers) :
    (∀ v w : PartialValue, v.register = r.id → v.width = r.bitSize → w.register = r.id →
      w.width = r.bitSize →
        CommutesWithMerging m.migrate v w ∧ CommutesWithMerging m.migrateToBase v w) ∧
    ∀ n, new.Corresponds r n →
      ∃ a, new.baseOf? n.id = some a ∧
        m.migrate (.unknown r.id r.bitSize) = .ok (some (.unknown n.id n.bitSize)) ∧
        m.migrateToBase (.unknown r.id r.bitSize) = .ok (some (.unknown a.id a.bitSize)) := by
  refine ⟨fun v w hv hvwidth hw hwwidth => ?_, fun n hn => ?_⟩
  · obtain ⟨hvalue, hbase⟩ := treatsAlike h hr
    exact ⟨hvalue.commutesWithMerging hv hvwidth hw hwwidth,
      hbase.commutesWithMerging hv hvwidth hw hwwidth⟩
  · obtain ⟨_, hwiring⟩ := exists_wiring h hr hn
    obtain ⟨a, _, hbase, hwiring'⟩ := exists_baseWiring h hr hn
    refine ⟨a, hbase, ?_, ?_⟩
    · rw [hwiring _ rfl rfl, PartialValue.wired_unknown]
    · rw [hwiring' _ rfl rfl, PartialValue.wired_unknown]

/-- A language whose fields `a` and `b` have a bit in common. -/
def sharedBit : Language :=
  contextOnly "ctx" 0 8 [⟨"a", ⟨0, 1⟩⟩, ⟨"b", ⟨1, 2⟩⟩] (by decide)

/-- A language in whose wider context register the fields are apart. -/
def apartBits : Language :=
  contextOnly "state" 4 16 [⟨"b", ⟨0, 1⟩⟩, ⟨"a", ⟨8, 9⟩⟩] (by decide)

/-- Two observations differ in the bit that the fields share, and the first one wins, on either
side. -/
theorem migrate_combine_sharedBit :
    ∃ m v' w' x', build sharedBit apartBits = .ok m ∧
      m.migrate (.ofMask ⟨0⟩ 8 0x03 0x02) = .ok (some v') ∧
      m.migrate (.ofMask ⟨0⟩ 8 0x06 0x04) = .ok (some w') ∧
      v'.combine w' = .ok x' ∧ m.migrate (.ofMask ⟨0⟩ 8 0x07 0x06) = .ok (some x') ∧
      m.migrate (.unknown ⟨0⟩ 8) = .ok (some (.unknown ⟨0⟩ 16)) := by
  obtain ⟨m, hm⟩ : ∃ m, build sharedBit apartBits = .ok m := ⟨_, rfl⟩
  obtain ⟨r, hr⟩ : ∃ r, sharedBit.contextRegister? = some r := ⟨_, rfl⟩
  obtain ⟨n, hn⟩ : ∃ n, apartBits.contextRegister? = some n := ⟨_, rfl⟩
  have hcorresponds := Language.corresponds_of_contextRegister hr hn
  obtain ⟨hmerge, hunknown⟩ := migrate_combine hm (Language.contextRegister?_eq_some_iff.1 hr).1
  rcases Option.some.inj hr with rfl
  rcases Option.some.inj hn with rfl
  obtain ⟨⟨x, hx, hways⟩, _⟩ :=
    hmerge (.ofMask ⟨0⟩ 8 0x03 0x02) (.ofMask ⟨0⟩ 8 0x06 0x04) rfl rfl rfl rfl
  obtain ⟨_, _, hnothing, _⟩ := hunknown _ hcorresponds
  have hmerged : (PartialValue.ofMask ⟨0⟩ 8 0x03 0x02).combine (.ofMask ⟨0⟩ 8 0x06 0x04) =
      .ok (.ofMask ⟨0⟩ 8 0x07 0x06) := by decide
  rw [hmerged] at hx
  rcases Except.ok.inj hx with rfl
  rcases hways with ⟨hnone, _⟩ | ⟨v', w', x', hv, hw, hx', hxanswer⟩
  · obtain ⟨v', hv, _⟩ := exists_migrate hm (v := .ofMask ⟨0⟩ 8 0x03 0x02) rfl rfl hcorresponds
    rw [hnone] at hv
    cases hv
  · exact ⟨m, v', w', x', hm, hv, hw, hx', hxanswer, hnothing⟩

end Migrator

end RegisterMigration
