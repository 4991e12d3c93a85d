import RegisterMigration.Proofs.Language.Shifts
import RegisterMigration.Proofs.Migration.Feasibility
import RegisterMigration.Proofs.Migration.FieldCopy

/-!
# Carrying values of ordinary registers over

A migrator answers a request from tables that were filled when it was built.  The first part
of this module reads these tables back: where a register goes, and when its values are
converted.  The second part describes an answer.  A request is refused exactly for a register
that is not in the old table or for a value of another width; a register that survives always
has an answer; and an ordinary register keeps every bit at its place.

What makes the last part true is decided elsewhere.  The search for obstacles has made sure
that the counterpart is no narrower, and a value that goes over unconverted belongs to a
counterpart of the same size.

## Main results

* `newRegister?_of_build`, `converts_of_build` — the tables of a built migrator.
* `migrate_eq_error_iff`, `migrate_of_width` — refusals, and every other answer.
* `bit_eq_or_apply_of_migrate` — the two ways in which a value goes over.
* `widen_of_migrate` — an answer can be put on the base register.
* `migrate_lossless` — what becomes of a value.
-/

namespace RegisterMigration.Migrator

variable {old new : Language} {m : Migrator}

/-! ## The tables of a migrator -/

theorem old_of_build (h : build old new = .ok m) : m.old = old := by
  obtain ⟨_, _, _, rfl⟩ := build_eq_ok_iff.1 h
  rfl

theorem new_of_build (h : build old new = .ok m) : m.new = new := by
  obtain ⟨_, _, _, rfl⟩ := build_eq_ok_iff.1 h
  rfl

theorem correspondence_of_build (h : build old new = .ok m) :
    m.correspondence = .build old new (m.context.any (!·.identity)) := by
  obtain ⟨_, _, _, rfl⟩ := build_eq_ok_iff.1 h
  rfl

theorem between_of_build (h : build old new = .ok m) :
    ContextMap.between old new = .ok m.context := by
  obtain ⟨_, _, hcontext, rfl⟩ := build_eq_ok_iff.1 h
  exact hcontext

/-- A migrator exists for compatible languages only. -/
theorem compatible_of_build (h : build old new = .ok m) : old.Compatible new :=
  exists_build_iff.1 ⟨m, h⟩

/-- A migrator leads a register to its counterpart. -/
theorem newRegister?_of_build (h : build old new = .ok m) {r : Register}
    (hr : r ∈ old.registers) : m.newRegister? r.id = new.counterpart? r := by
  rw [newRegister?, correspondence_of_build h, new_of_build h]
  cases hcounterpart : new.counterpart? r with
  | none =>
      rw [(Correspondence.map?_eq_none_iff hr).2 (Language.counterpart?_eq_none_iff.1 hcounterpart)]
      rfl
  | some n =>
      have hn := Language.counterpart?_eq_some_iff.1 hcounterpart
      rw [Correspondence.map?_of_corresponds hr hn, Option.bind_some]
      exact Language.mem_registers_iff.1 hn.1

/-- A migrator converts values of a register that lies elsewhere in the new language, or that
is the context register and has its fields elsewhere. -/
theorem converts_of_build (h : build old new = .ok m) {r n : Register} (hr : r ∈ old.registers)
    (hn : new.Corresponds r n) :
    m.converts r.id =
      (Register.rearranged old new r n || (r.context && m.context.any (!·.identity))) := by
  rw [converts, correspondence_of_build h, Correspondence.converts_of_corresponds hr hn]

/-- Values that are not converted belong to registers of one size. -/
theorem bitSize_eq_of_not_converts (h : build old new = .ok m) {r n : Register}
    (hr : r ∈ old.registers) (hn : new.Corresponds r n) (hconverts : m.converts r.id = false) :
    r.bitSize = n.bitSize := by
  rw [converts_of_build h hr hn] at hconverts
  simp only [Register.rearranged, Register.moved, Bool.or_eq_false_iff, bne_eq_false_iff_eq]
    at hconverts
  exact hconverts.1.1.2

/-- A context register that survives comes with the moves of its fields. -/
theorem context_of_build (h : build old new = .ok m) {r n : Register} (hr : r ∈ old.registers)
    (hn : new.Corresponds r n) (hcontext : r.context) :
    ∃ c, m.context = some c ∧ ContextMap.build old r new n = .ok c := by
  have hbetween := between_of_build h
  have hold := Language.contextRegister?_eq_some_iff.2 ⟨hr, hcontext⟩
  have hnew := Language.contextRegister?_eq_some_iff.2 ⟨hn.1, hn.context_eq.trans hcontext⟩
  rw [ContextMap.between, hold, hnew] at hbetween
  simp only at hbetween
  cases hbuild : ContextMap.build old r new n with
  | error c =>
      rw [hbuild] at hbetween
      cases hbetween
  | ok c =>
      rw [hbuild] at hbetween
      exact ⟨c, (Except.ok.inj hbetween).symm, rfl⟩

/-! ## Answers -/

/-- Which requests are refused, and how. -/
theorem migrate_eq_error_iff {v : PartialValue} {e : RequestError} :
    m.migrate v = .error e ↔
      (m.old.registerById? v.register = none ∧ e = .unknownRegister v.register) ∨
        ∃ r, m.old.registerById? v.register = some r ∧ v.width ≠ r.bitSize ∧
          e = .widthMismatch r v.width := by
  rw [migrate, registerOf]
  cases hr : m.old.registerById? v.register with
  | none => simp [Except.map, eq_comm]
  | some r =>
      by_cases hwidth : v.width = r.bitSize
      · simp [hwidth, Except.map]
      · simp [hwidth, Except.map, eq_comm]

/-- Every other request is answered from the counterpart. -/
theorem migrate_of_width (h : build old new = .ok m) {v : PartialValue} {r : Register}
    (hr : old.registerById? v.register = some r) (hwidth : v.width = r.bitSize) :
    m.migrate v = .ok ((new.counterpart? r).bind fun n => m.convert r n v) := by
  rw [migrate, registerOf, old_of_build h, hr]
  simp only [if_pos hwidth, Except.map, newRegister?_of_build h (Language.mem_of_registerById hr)]

/-- A register that survives has its values converted to its counterpart. -/
theorem migrate_of_corresponds (h : build old new = .ok m) {v : PartialValue} {r n : Register}
    (hr : old.registerById? v.register = some r) (hwidth : v.width = r.bitSize)
    (hn : new.Corresponds r n) : m.migrate v = .ok (m.convert r n v) := by
  rw [migrate_of_width h hr hwidth, Language.counterpart?_eq_some_iff.2 hn, Option.bind_some]

/-- A value that has an answer belongs to a register that survives. -/
theorem exists_convert_of_migrate (h : build old new = .ok m) {v w : PartialValue}
    (hw : m.migrate v = .ok (some w)) :
    ∃ r n, old.registerById? v.register = some r ∧ v.width = r.bitSize ∧
      new.Corresponds r n ∧ m.convert r n v = some w := by
  cases hr : old.registerById? v.register with
  | none =>
      rw [migrate_eq_error_iff.2 (Or.inl ⟨by rw [old_of_build h]; exact hr, rfl⟩)] at hw
      cases hw
  | some r =>
      by_cases hwidth : v.width = r.bitSize
      · rw [migrate_of_width h hr hwidth] at hw
        obtain ⟨n, hn, hconvert⟩ := Option.bind_eq_some_iff.1 (Except.ok.inj hw)
        exact ⟨r, n, rfl, hwidth, Language.counterpart?_eq_some_iff.1 hn, hconvert⟩
      · rw [migrate_eq_error_iff.2
          (Or.inr ⟨r, by rw [old_of_build h]; exact hr, hwidth, rfl⟩)] at hw
        cases hw

/-- The same where the register is known. -/
theorem exists_convert_of_register (h : build old new = .ok m) {v w : PartialValue} {r : Register}
    (hr : old.registerById? v.register = some r) (hw : m.migrate v = .ok (some w)) :
    v.width = r.bitSize ∧ ∃ n, new.Corresponds r n ∧ m.convert r n v = some w := by
  obtain ⟨r', n, hr', hwidth, hn, hconvert⟩ := exists_convert_of_migrate h hw
  rw [hr] at hr'
  rcases Option.some.inj hr' with rfl
  exact ⟨hwidth, n, hn, hconvert⟩

/-- How a value is converted, by what has been worked out about its register. -/
theorem convert_of_not_converts {r n : Register} (h : m.converts r.id = false)
    (v : PartialValue) : m.convert r n v = some (v.reanchor n.id) := by
  rw [convert, h]
  rfl

theorem convert_of_converts {r n : Register} (h : m.converts r.id = true) (v : PartialValue) :
    m.convert r n v =
      if r.context then m.context.map (·.apply v) else some (v.resized n.id n.bitSize) := by
  rw [convert, h]
  rfl

/-- A value of an ordinary register goes to the counterpart with every bit at its place: the
counterpart is no narrower, and where nothing is converted it has the same size. -/
theorem convert_of_ordinary (h : build old new = .ok m) {r n : Register}
    (hr : r ∈ old.registers) (hn : new.Corresponds r n) (hordinary : r.context = false)
    {v : PartialValue} (hwidth : v.width = r.bitSize) :
    ∃ w, m.convert r n v = some w ∧ w.register = n.id ∧ w.width = n.bitSize ∧
      ∀ i, w.bit i = v.bit i := by
  cases hconverts : m.converts r.id with
  | false =>
      refine ⟨v.reanchor n.id, convert_of_not_converts hconverts v, rfl, ?_,
        PartialValue.bit_reanchor v n.id⟩
      rw [← bitSize_eq_of_not_converts h hr hn hconverts, ← hwidth]
      rfl
  | true =>
      have hle := ((compatible_of_build h).registers r hr n hn).2.2 hordinary
      refine ⟨v.resized n.id n.bitSize, ?_, rfl, rfl, fun i => ?_⟩
      · rw [convert_of_converts hconverts, hordinary, if_neg (by decide)]
      rw [PartialValue.bit_resized]
      split
      · rfl
      · rename_i hge
        rw [PartialValue.bit_eq_none_of_le]
        rw [hwidth]
        omega

/-- The answer for a value of an ordinary register is the value on the counterpart that has the
same bits. -/
theorem migrate_eq_some_iff_of_ordinary (h : build old new = .ok m) {v w : PartialValue}
    {r : Register} (hr : old.registerById? v.register = some r) (hwidth : v.width = r.bitSize)
    (hordinary : r.context = false) :
    m.migrate v = .ok (some w) ↔
      ∃ n, new.Corresponds r n ∧ w.register = n.id ∧ w.width = n.bitSize ∧
        ∀ i, w.bit i = v.bit i := by
  have hmem := Language.mem_of_registerById hr
  constructor
  · intro hw
    obtain ⟨_, n, hn, hconvert⟩ := exists_convert_of_register h hr hw
    obtain ⟨w', hw', hregister, hwide, hbit⟩ := convert_of_ordinary h hmem hn hordinary hwidth
    rw [hconvert] at hw'
    rcases Option.some.inj hw' with rfl
    exact ⟨n, hn, hregister, hwide, hbit⟩
  · rintro ⟨n, hn, hregister, hwide, hbit⟩
    obtain ⟨w', hw', hregister', hwide', hbit'⟩ :=
      convert_of_ordinary h hmem hn hordinary hwidth
    have hsame : w' = w := PartialValue.ext_bit (hregister'.trans hregister.symm)
      (hwide'.trans hwide.symm) fun i => (hbit' i).trans (hbit i).symm
    rw [migrate_of_corresponds h hr hwidth hn, hw', hsame]

/-- A value of the context register is copied field by field, or goes over as it is if no field
has moved. -/
theorem convert_of_context (h : build old new = .ok m) {r n : Register}
    (hr : r ∈ old.registers) (hn : new.Corresponds r n) (hcontext : r.context) (v : PartialValue) :
    ∃ c, ContextMap.build old r new n = .ok c ∧
      ((m.converts r.id = true ∧ m.convert r n v = some (c.apply v)) ∨
        (m.converts r.id = false ∧ c.identity = true ∧
          m.convert r n v = some (v.reanchor n.id))) := by
  obtain ⟨c, hc, hbuild⟩ := context_of_build h hr hn hcontext
  refine ⟨c, hbuild, ?_⟩
  cases hconverts : m.converts r.id with
  | true =>
      refine Or.inl ⟨rfl, ?_⟩
      rw [convert_of_converts hconverts, if_pos hcontext, hc, Option.map_some]
  | false =>
      refine Or.inr ⟨rfl, ?_, convert_of_not_converts hconverts v⟩
      rw [converts_of_build h hr hn, hcontext, hc] at hconverts
      simpa using (Bool.or_eq_false_iff.1 hconverts).2

/-- A register that survives always has an answer, on its counterpart. -/
theorem exists_convert (h : build old new = .ok m) {r n : Register} (hr : r ∈ old.registers)
    (hn : new.Corresponds r n) {v : PartialValue} (hwidth : v.width = r.bitSize) :
    ∃ w, m.convert r n v = some w ∧ w.register = n.id ∧ w.width = n.bitSize ∧
      (r.context = false → ∀ i, w.bit i = v.bit i) := by
  cases hcontext : r.context with
  | false =>
      obtain ⟨w, hw, hregister, hwide, hbit⟩ := convert_of_ordinary h hr hn hcontext hwidth
      exact ⟨w, hw, hregister, hwide, fun _ => hbit⟩
  | true =>
      obtain ⟨c, hc, ⟨_, hw⟩ | ⟨hconverts, _, hw⟩⟩ := convert_of_context h hr hn hcontext v
      · exact ⟨_, hw, ContextMap.register_of_build hc, ContextMap.width_of_build hc, nofun⟩
      · refine ⟨_, hw, rfl, ?_, nofun⟩
        rw [← bitSize_eq_of_not_converts h hr hn hconverts, ← hwidth]
        rfl

theorem exists_migrate (h : build old new = .ok m) {v : PartialValue} {r n : Register}
    (hr : old.registerById? v.register = some r) (hwidth : v.width = r.bitSize)
    (hn : new.Corresponds r n) :
    ∃ w, m.migrate v = .ok (some w) ∧ w.register = n.id ∧ w.width = n.bitSize ∧
      (r.context = false → ∀ i, w.bit i = v.bit i) := by
  obtain ⟨w, hw, hrest⟩ := exists_convert h (Language.mem_of_registerById hr) hn hwidth
  exact ⟨w, by rw [migrate_of_corresponds h hr hwidth hn, hw], hrest⟩

/-- An answer has the bits of its value at their places, or is copied field by field. -/
theorem bit_eq_or_apply_of_migrate (h : build old new = .ok m) {v w : PartialValue}
    (hw : m.migrate v = .ok (some w)) :
    (∀ i, w.bit i = v.bit i) ∨
      ∃ r n c, new.contextRegister? = some n ∧ ContextMap.build old r new n = .ok c ∧
        w = c.apply v := by
  obtain ⟨r, n, hr, hwidth, hn, hconvert⟩ := exists_convert_of_migrate h hw
  have hmem := Language.mem_of_registerById hr
  cases hcontext : r.context with
  | false =>
      obtain ⟨_, _, _, _, hbit⟩ := (migrate_eq_some_iff_of_ordinary h hr hwidth hcontext).1 hw
      exact Or.inl hbit
  | true =>
      have hnew : new.contextRegister? = some n :=
        Language.contextRegister?_eq_some_iff.2 ⟨hn.1, hn.context_eq.trans hcontext⟩
      obtain ⟨c, hc, hcases⟩ := convert_of_context h hmem hn hcontext v
      rw [hconvert] at hcases
      rcases hcases with ⟨_, hw'⟩ | ⟨_, _, hw'⟩
      · exact Or.inr ⟨r, n, c, hnew, hc, Option.some.inj hw'⟩
      · rcases Option.some.inj hw' with rfl
        exact Or.inl (PartialValue.bit_reanchor v n.id)

/-- An answer is as wide as its register, so there is a position for each of its bits on the base
register. -/
theorem widen_of_migrate (h : build old new = .ok m) {v w : PartialValue}
    (hw : m.migrate v = .ok (some w)) : m.new.widen w = .ok (m.new.widenToBase? w) := by
  obtain ⟨r, n, hr, hwidth, hn, hconvert⟩ := exists_convert_of_migrate h hw
  obtain ⟨w', hw', hregister, hwide, _⟩ :=
    exists_convert h (Language.mem_of_registerById hr) hn hwidth
  rcases Option.some.inj (hconvert.symm.trans hw') with rfl
  rw [new_of_build h]
  refine Language.widen_eq_ok ?_ hwide
  rw [hregister]
  exact Language.mem_registers_iff.1 hn.1

/-- What becomes of a value.  It is refused if its register is not in the old table, and
otherwise if its width is not that of its register.  Any other value has no answer exactly if
its register has no counterpart, and otherwise an answer on the counterpart, with the
counterpart's size.  If the register is not the context register, the answer has the bits of
the value below the old width and nothing above. -/
theorem migrate_lossless (h : build old new = .ok m) (v : PartialValue) :
    (∀ e, m.migrate v = .error e ↔
      (old.registerById? v.register = none ∧ e = .unknownRegister v.register) ∨
        ∃ r, old.registerById? v.register = some r ∧ v.width ≠ r.bitSize ∧
          e = .widthMismatch r v.width) ∧
    ∀ r, old.registerById? v.register = some r → v.width = r.bitSize →
      (m.migrate v = .ok none ↔ ∀ n, ¬ new.Corresponds r n) ∧
      ∀ n, new.Corresponds r n →
        ∃ w, m.migrate v = .ok (some w) ∧ w.register = n.id ∧ w.width = n.bitSize ∧
          (r.context = false →
            (∀ i, w.bit i = if i < r.bitSize.toNat then v.bit i else none) ∧
              w.knownCount = v.knownCount) := by
  refine ⟨fun e => ?_, fun r hr hwidth => ?_⟩
  · rw [migrate_eq_error_iff, old_of_build h]
  · constructor
    · constructor
      · intro hnone n hn
        obtain ⟨w, hw, _⟩ := exists_migrate h hr hwidth hn
        rw [hnone] at hw
        cases hw
      · intro hlost
        rw [migrate_of_width h hr hwidth, Language.counterpart?_eq_none_iff.2 hlost,
          Option.bind_none]
    · intro n hn
      obtain ⟨w, hw, hregister, hwide, hbit⟩ := exists_migrate h hr hwidth hn
      refine ⟨w, hw, hregister, hwide, fun hordinary => ⟨fun i => ?_, ?_⟩⟩
      · rw [hbit hordinary i]
        split
        · rfl
        · rename_i hge
          rw [PartialValue.bit_eq_none_of_le]
          rw [hwidth]
          omega
      · exact PartialValue.knownCount_eq_of_bit_eq (hbit hordinary)

/-- A language with one register of 16 bits. -/
def shortRegister : Language :=
  .ofRegisters .little [{ name := "r0", space := "register", offset := 0, bitSize := 16 }] []
    (by decide)

/-- A language in which the register has 32 bits and lies elsewhere. -/
def longRegister : Language :=
  .ofRegisters .little [{ name := "r0", space := "register", offset := 4, bitSize := 32 }] []
    (by decide)

/-- The upper half of the short register is known, and stays where it is. -/
theorem migrate_lossless_longRegister :
    ∃ m w, build shortRegister longRegister = .ok m ∧
      m.migrate (.ofMask ⟨0⟩ 16 0xff00 0x1200) = .ok (some w) ∧
        w.width = 32 ∧ w.bit 7 = none ∧ w.bit 9 = some true ∧ w.bit 16 = none ∧
          w.knownCount = 8 := by
  obtain ⟨m, hm⟩ : ∃ m, build shortRegister longRegister = .ok m := ⟨_, rfl⟩
  obtain ⟨_, hvalid⟩ := migrate_lossless hm (.ofMask ⟨0⟩ 16 0xff00 0x1200)
  obtain ⟨_, hanswer⟩ := hvalid _ rfl rfl
  obtain ⟨w, hw, _, hwidth, hkept⟩ :=
    hanswer _ (Language.counterpart?_eq_some_iff.1 rfl)
  obtain ⟨hbit, hcount⟩ := hkept rfl
  refine ⟨m, w, hm, hw, hwidth, ?_, ?_, ?_, ?_⟩
  · rw [hbit]
    decide
  · rw [hbit]
    decide
  · rw [hbit]
    decide
  · rw [hcount]
    decide

end RegisterMigration.Migrator
