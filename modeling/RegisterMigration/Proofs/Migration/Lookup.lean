import RegisterMigration.Proofs.Language.MemoryImage
import RegisterMigration.Proofs.Migration.Values

/-!
# Looking registers up

A register can be asked for by its name, by its number in the table, and by its place.  By name and by
place the table is searched from the front, and the first register that fits is the answer.  That is
the right one, wherever it stands in the table, since no other one fits: in a language that passed its
checks no two registers share a name, and no two have the same addresses.

The place is where this takes an argument.  Registers of different sizes in bits can have the same
number of bytes, and it is the bytes that must differ.  An end of a register is counted without a
bound, so a register that ends with the last address of a space of 64 bits has a place like any other.

## Main results

* `hasSpan_iff` — what the search compares, offset and length, is a set of addresses.
* `registerAt?_eq_some_iff`, `registerAt?_eq_none_iff` — the search by place and its only failure.
* `lookupsAgree` — by name, by number and by place the answer is the same register.
* `oldRegisterAt_eq_ok_iff`, `oldRegisterAt_eq_error_iff` — the same for what a migrator is asked.
* `lookups_agree` — in every language, and from an old register to its counterpart.
-/

namespace RegisterMigration

/-- The addresses of a register in a space are `length` addresses from an offset on. -/
def RegisterDecl.Occupies (r : RegisterDecl) (space : String) (offset : UInt64) (length : Nat) :
    Prop :=
  r.space = space ∧
    ∀ address, r.Holds address ↔ offset.toNat ≤ address ∧ address < offset.toNat + length

namespace Language

variable {l : Language} {r s : Register} {space : String} {offset : UInt64} {length : Nat}

/-- A register has the addresses of a span exactly if it starts and ends where the span does. -/
theorem hasSpan_iff (hr : r ∈ l.registers) :
    r.hasSpan space offset length ↔ r.Occupies space offset length := by
  have hpos := byteLen_pos hr
  have hstop : r.stop = r.offset.toNat + r.byteLen := rfl
  simp only [RegisterDecl.hasSpan, RegisterDecl.Occupies, Bool.and_eq_true, beq_iff_eq, and_assoc,
    ← UInt64.toNat_inj, holds_iff hr]
  refine and_congr_right fun _ => ?_
  constructor
  · rintro ⟨hoffset, hlength⟩ address
    omega
  · intro h
    -- The ends of either span are addresses of the other one.
    have hfirst := h r.offset.toNat
    have hlast := h (r.stop - 1)
    have hstart := h offset.toNat
    have hend := h (offset.toNat + length - 1)
    omega

/-- The lookup by place finds the register that has exactly the addresses. -/
theorem registerAt?_eq_some_iff :
    l.registerAt? space offset length = some r ↔
      r ∈ l.registers ∧ r.Occupies space offset length := by
  rw [registerAt?, ← Array.find?_toList, find?_eq_some_iff_of_unique, Array.mem_toList_iff]
  · exact and_congr_right hasSpan_iff
  -- Two registers that fit have one span, which no two registers of a language have.
  · intro x hx y hy hxspan hyspan
    simp only [RegisterDecl.hasSpan, Bool.and_eq_true, beq_iff_eq] at hxspan hyspan
    obtain ⟨⟨hxspace, hxoffset⟩, hxlength⟩ := hxspan
    obtain ⟨⟨hyspace, hyoffset⟩, hylength⟩ := hyspan
    exact eq_of_span_eq (Array.mem_toList_iff.1 hx) (Array.mem_toList_iff.1 hy)
      (hxspace.trans hyspace.symm) (hxoffset.trans hyoffset.symm) (hxlength.trans hylength.symm)

theorem registerAt?_eq_none_iff :
    l.registerAt? space offset length = none ↔
      ∀ r ∈ l.registers, ¬ r.Occupies space offset length := by
  rw [Option.eq_none_iff_forall_ne_some]
  exact forall_congr' fun r => (not_congr registerAt?_eq_some_iff).trans not_and

/-- A register is found at its own place. -/
theorem registerAt?_of_mem (hr : r ∈ l.registers) :
    l.registerAt? r.space r.offset r.byteLen = some r := by
  refine registerAt?_eq_some_iff.2 ⟨hr, (hasSpan_iff hr).1 ?_⟩
  simp [RegisterDecl.hasSpan]

/-- No two registers have the same addresses. -/
theorem eq_of_occupies (hr : r ∈ l.registers) (hs : s ∈ l.registers)
    (hrplace : r.Occupies space offset length) (hsplace : s.Occupies space offset length) :
    r = s :=
  Option.some.inj ((registerAt?_eq_some_iff.2 ⟨hr, hrplace⟩).symm.trans
    (registerAt?_eq_some_iff.2 ⟨hs, hsplace⟩))

/-! ## One register for all lookups -/

/-- The lookups of a language find the same registers. -/
structure LookupsAgree (l : Language) : Prop where
  by_name : ∀ r ∈ l.registers, l.register? r.name = some r
  by_id : ∀ r ∈ l.registers, l.registerById? r.id = some r
  by_place : ∀ r ∈ l.registers, l.registerAt? r.space r.offset r.byteLen = some r
  found_iff : ∀ space offset length r, l.registerAt? space offset length = some r ↔
    (r ∈ l.registers ∧ r.Occupies space offset length) ∧
      ∀ s ∈ l.registers, s.Occupies space offset length → s = r
  missing_iff : ∀ space offset length, l.registerAt? space offset length = none ↔
    ∀ r ∈ l.registers, ¬ r.Occupies space offset length

theorem lookupsAgree (l : Language) : l.LookupsAgree where
  by_name _ hr := register?_of_mem hr
  by_id _ hr := mem_registers_iff.1 hr
  by_place _ hr := registerAt?_of_mem hr
  found_iff space offset length r := by
    rw [registerAt?_eq_some_iff, iff_self_and]
    rintro ⟨hr, hplace⟩ s hs hsplace
    exact eq_of_occupies hs hr hsplace hplace
  missing_iff _ _ _ := registerAt?_eq_none_iff

end Language

namespace Migrator

variable {old new : Language} {m : Migrator} {r : Register} {space : String} {offset length : UInt64}

/-! ## Places in the old language -/

/-- A migrator finds old registers by their places. -/
theorem oldRegisterAt_eq_ok_iff (h : build old new = .ok m) :
    m.oldRegisterAt space offset length = .ok r ↔
      r ∈ old.registers ∧ r.Occupies space offset length.toNat := by
  rw [← Language.registerAt?_eq_some_iff, oldRegisterAt, old_of_build h]
  cases old.registerAt? space offset length.toNat <;> simp

/-- It fails where no old register has exactly the addresses, and says which place it was asked for. -/
theorem oldRegisterAt_eq_error_iff (h : build old new = .ok m) {e : RequestError} :
    m.oldRegisterAt space offset length = .error e ↔
      (∀ r ∈ old.registers, ¬ r.Occupies space offset length.toNat) ∧
        e = .registerNotFound space offset length := by
  rw [← Language.registerAt?_eq_none_iff, oldRegisterAt, old_of_build h]
  cases old.registerAt? space offset length.toNat <;> simp [eq_comm]

/-- The number of bytes of a register is a word. -/
theorem toNat_ofNat_byteLen (r : Register) : (UInt64.ofNat r.byteLen).toNat = r.byteLen := by
  have hlen := Language.byteLen_le r
  rw [UInt64.toNat_ofNat', Nat.mod_eq_of_lt]
  omega

theorem oldRegisterAt_of_mem (h : build old new = .ok m) (hr : r ∈ old.registers) :
    m.oldRegisterAt r.space r.offset (.ofNat r.byteLen) = .ok r := by
  rw [oldRegisterAt, old_of_build h, toNat_ofNat_byteLen, Language.registerAt?_of_mem hr]

/-! ## Counterparts by place and by name -/

/-- The counterpart of the old register that is found at a place. -/
def newRegisterAt (m : Migrator) (space : String) (offset length : UInt64) :
    Except RequestError (Option Register) :=
  (m.oldRegisterAt space offset length).map fun r => m.newRegister? r.id

/-- The counterpart of the old register that is found by a name. -/
def newRegisterNamed? (m : Migrator) (name : String) : Option Register :=
  (m.old.register? name).bind fun r => m.newRegister? r.id

theorem newRegisterNamed?_of_mem (h : build old new = .ok m) (hr : r ∈ old.registers) :
    m.newRegisterNamed? r.name = new.counterpart? r := by
  rw [newRegisterNamed?, old_of_build h, Language.register?_of_mem hr,
    Option.bind_some, newRegister?_of_build h hr]

/-- Looking registers up in any language gives one answer by name, by id and by place, and the answer
by place is the one register with exactly these addresses.  So a migrator leads from the place of an
old register to where it leads from the name, the corresponding register of the new language if there
is one. -/
theorem lookups_agree :
    (∀ l : Language, l.LookupsAgree) ∧
      ∀ old new m, build old new = .ok m → ∀ r ∈ old.registers,
        m.oldRegisterAt r.space r.offset (.ofNat r.byteLen) = .ok r ∧
          m.newRegisterAt r.space r.offset (.ofNat r.byteLen) = .ok (m.newRegisterNamed? r.name) ∧
            ∀ n, m.newRegisterNamed? r.name = some n ↔ new.Corresponds r n := by
  refine ⟨Language.lookupsAgree, fun old new m h r hr => ⟨oldRegisterAt_of_mem h hr, ?_, fun n => ?_⟩⟩
  · rw [newRegisterAt, oldRegisterAt_of_mem h hr, newRegisterNamed?_of_mem h hr, Except.map,
      newRegister?_of_build h hr]
  · rw [newRegisterNamed?_of_mem h hr, Language.counterpart?_eq_some_iff]

/-! ## Registers at the end of a space -/

/-- A definition with given registers in a space of 64 bits. -/
def inWideSpace (registers : List RegisterDecl) : Definition :=
  { Definition.ofRegisters .little registers [] with
    spaces := [{ name := "register", kind := .register, size := 8 }] }

/-- A language in which two registers end at the last byte of the space, the inner one declared
first, and a third one has the offset of the outer one. -/
def endOfSpace : Language where
  definition := inWideSpace
    [{ name := "top", space := "register", offset := 0xffffffffffffffff, bitSize := 7 },
      { name := "half", space := "register", offset := 0xfffffffffffffff8, bitSize := 32 },
      { name := "whole", space := "register", offset := 0xfffffffffffffff8, bitSize := 61 }]
  registers := _
  defaultCompilerSpec := _
  fingerprint := _
  errors_eq_nil := by decide
  registers_eq := rfl
  find_default := rfl
  fingerprint_eq := rfl

/-- A language without the third register, in which the innermost one has all bits of its byte. -/
def endOfSpaceFilled : Language where
  definition := inWideSpace
    [{ name := "whole", space := "register", offset := 0xfffffffffffffff8, bitSize := 64 },
      { name := "top", space := "register", offset := 0xffffffffffffffff, bitSize := 8 }]
  registers := _
  defaultCompilerSpec := _
  fingerprint := _
  errors_eq_nil := by decide
  registers_eq := rfl
  find_default := rfl
  fingerprint_eq := rfl

/-- The last byte of the space belongs to two registers, and is a register by itself. -/
theorem lookups_agree_endOfSpace :
    ∃ m r n, build endOfSpace endOfSpaceFilled = .ok m ∧
      endOfSpace.register? "top" = some r ∧
        endOfSpace.registerAt? "register" 0xffffffffffffffff 1 = some r ∧
          m.newRegisterAt "register" 0xffffffffffffffff 1 = .ok (some n) ∧
            n.id = ⟨1⟩ ∧ n.bitSize = 8 := by
  obtain ⟨m, hm⟩ : ∃ m, build endOfSpace endOfSpaceFilled = .ok m := ⟨_, rfl⟩
  obtain ⟨r, hr⟩ : ∃ r, endOfSpace.registerById? ⟨0⟩ = some r := ⟨_, rfl⟩
  obtain ⟨n, hn⟩ : ∃ n, endOfSpaceFilled.registerById? ⟨1⟩ = some n := ⟨_, rfl⟩
  have hmem := Language.mem_of_registerById hr
  obtain ⟨hlanguages, hmigrators⟩ := lookups_agree
  have hname := (hlanguages endOfSpace).by_name r hmem
  have hplace := (hlanguages endOfSpace).by_place r hmem
  obtain ⟨-, hnew, hcounterpart⟩ := hmigrators _ _ m hm r hmem
  have hpair : endOfSpaceFilled.Corresponds r n := by
    refine ⟨Language.mem_of_registerById hn, ?_⟩
    rcases Option.some.inj hr with rfl
    rcases Option.some.inj hn with rfl
    decide
  rw [(hcounterpart n).2 hpair] at hnew
  rcases Option.some.inj hr with rfl
  rcases Option.some.inj hn with rfl
  exact ⟨m, _, _, hm, hname, hplace, hnew, rfl, rfl⟩

end Migrator

end RegisterMigration
