import RegisterMigration.Command.Validate
import RegisterMigration.Proofs.Command.Basic
import RegisterMigration.Proofs.Language.Table

/-!
# Which definitions can be loaded

A definition is loaded if nothing keeps it from being loaded, and `Definition.WellFormed` says
what that means without a walk.  Loading looks the default compiler specification up as well, but
a definition without errors declares it, so this lookup never fails by itself.

The command `validate` reads a definition from a file, prints what is wrong with it, and fails if
there is an error among that.  Printing never fails, so the errors alone decide.

Offsets are compared as natural numbers.  Where they are 64-bit words, the end of a register is a
checked sum and the end of a space a shifted word; `fits_eq_checkedAdd` says that this comes to
the same for every register and every space, also where the register ends outside 64 bits and
where the space has an impossible size.

## Main results

* `exists_load_iff` — the definitions that can be loaded are the well-formed ones.
* `failure_validate` — what the command `validate` fails with.
* `load_and_validate_iff_wellFormed` — loading and validating accept the same definitions.
-/

namespace RegisterMigration

/-! ## Offsets as words -/

/-- The sum of two words, unless it takes more than 64 bits. -/
def checkedAdd (a b : UInt64) : Option UInt64 :=
  if a.toNat + b.toNat < UInt64.size then some (a + b) else none

/-- The last offset of a space as a word. -/
def AddressSpace.lastOffset (s : AddressSpace) : UInt64 :=
  if 8 ≤ s.size then 0xffffffffffffffff else (1 <<< (8 * s.size.toUInt64)) - 1

theorem AddressSpace.toNat_lastOffset (s : AddressSpace) : s.lastOffset.toNat = s.maxOffset := by
  unfold lastOffset maxOffset
  by_cases hlong : 8 ≤ s.size
  · have hsize : 8 ≤ s.size.toNat := UInt32.le_iff_toNat_le.1 hlong
    rw [if_pos hlong, Nat.min_eq_right hsize]
    rfl
  · -- In less than eight bytes, neither the shift nor the subtraction wraps.
    have hsize : s.size.toNat < 8 := by
      rw [UInt32.le_iff_toNat_le] at hlong
      exact Nat.lt_of_not_le hlong
    have hbits : (8 * s.size.toUInt64).toNat = 8 * s.size.toNat := by
      have height : (8 : UInt64).toNat = 8 := rfl
      rw [UInt64.toNat_mul, UInt32.toNat_toUInt64, height]
      omega
    have hshift : 8 * s.size.toNat % 64 = 8 * s.size.toNat := Nat.mod_eq_of_lt (by omega)
    have hpow : 2 ^ (8 * s.size.toNat) < 2 ^ 64 := Nat.pow_lt_pow_right (by decide) (by omega)
    have hword : ((1 : UInt64) <<< (8 * s.size.toUInt64)).toNat = 2 ^ (8 * s.size.toNat) := by
      rw [UInt64.toNat_shiftLeft, hbits, UInt64.toNat_one, hshift, Nat.one_shiftLeft,
        Nat.mod_eq_of_lt hpow]
    have hpos : 1 ≤ 2 ^ (8 * s.size.toNat) := Nat.one_le_two_pow
    have hle : 1 ≤ (1 : UInt64) <<< (8 * s.size.toUInt64) := by
      rw [UInt64.le_iff_toNat_le, hword]
      exact hpos
    rw [if_neg hlong, Nat.min_eq_left (by omega), UInt64.toNat_sub_of_le _ _ hle, hword,
      Nat.one_shiftLeft]
    rfl

/-- Whether a register ends in its space can be decided with words: the end of the register is a
word and no more than the last offset. -/
theorem Definition.fits_eq_checkedAdd (r : RegisterDecl) (s : AddressSpace) :
    fits r s = (checkedAdd r.offset (UInt64.ofNat (r.byteLen - 1))).any (· ≤ s.lastOffset) := by
  have hlen : r.byteLen ≤ 2 ^ 29 := byteLength_le r.bitSize
  have hword : (UInt64.ofNat (r.byteLen - 1)).toNat = r.byteLen - 1 := by
    rw [UInt64.toNat_ofNat']
    omega
  have hmax := s.lastOffset.toNat_lt
  rw [AddressSpace.toNat_lastOffset] at hmax
  unfold fits checkedAdd
  rw [hword]
  by_cases hsum : r.offset.toNat + (r.byteLen - 1) < UInt64.size
  · have hexact : (r.offset + UInt64.ofNat (r.byteLen - 1)).toNat
        = r.offset.toNat + (r.byteLen - 1) := by
      rw [UInt64.toNat_add, hword]
      exact Nat.mod_eq_of_lt hsum
    rw [if_pos hsum, Option.any_some, decide_eq_decide, UInt64.le_iff_toNat_le, hexact,
      AddressSpace.toNat_lastOffset]
  · -- The end is outside 64 bits, and no space has an offset there.
    rw [if_neg hsum, Option.any_none, decide_eq_false_iff_not]
    unfold UInt64.size at hsum
    omega

/-! ## Loading -/

namespace Language

theorem wellFormed_of_load {d : Definition} {l : Language} (h : load d = .ok l) :
    d.WellFormed := by
  unfold load at h
  split at h
  · rename_i herr
    exact (Definition.errors_eq_nil_iff d).1 herr
  · cases h

theorem exists_load_of_wellFormed {d : Definition} (h : d.WellFormed) : ∃ l, load d = .ok l := by
  have herr : d.errors = [] := (Definition.errors_eq_nil_iff d).2 h
  unfold load
  rw [dif_pos herr]
  split
  · exact ⟨_, rfl⟩
  · -- The default is declared, so the lookup cannot fail.
    rename_i hnone
    obtain ⟨spec, hspec, hid⟩ := List.mem_map.1 h.default_declared
    have hother := List.find?_eq_none.1 hnone spec hspec
    rw [beq_iff_eq] at hother
    exact absurd hid hother

theorem exists_load_iff (d : Definition) : (∃ l, load d = .ok l) ↔ d.WellFormed := by
  constructor
  · rintro ⟨l, hl⟩
    exact wellFormed_of_load hl
  · exact exists_load_of_wellFormed

end Language

/-! ## The command -/

namespace Command

/-- The command `validate` fails for a file that holds no definition, and for a definition with
errors.  Warnings are printed and do not matter. -/
theorem failure_validate (file : SourceFile) :
    (outcome (validate file)).failure =
      match file.definition with
      | .error e => some (.message s!"reading {file.path}: {e.message}")
      | .ok d =>
        if d.errors = [] then none
        else some (.message s!"{file.path} has {d.errors.length} error(s)") := by
  rw [failure_outcome]
  unfold validate
  rw [runFrom_bind, runFrom_during]
  cases file.definition with
  | error e => rfl
  | ok d =>
      simp only [Except.mapError]
      by_cases hclean : d.issues.isEmpty
      · have herr : d.errors = [] := by
          unfold Definition.errors
          rw [List.isEmpty_iff.1 hclean]
          rfl
        rw [if_pos hclean, if_pos herr, runFrom_printLines]
      · rw [if_neg hclean, runFrom_bind, runFrom_printLines]
        by_cases herr : d.errors = []
        · have hempty : d.errors.isEmpty = true := List.isEmpty_iff.2 herr
          simp only
          rw [if_pos herr, if_pos hempty]
          rfl
        · have hempty : ¬ d.errors.isEmpty = true := fun h => herr (List.isEmpty_iff.1 h)
          simp only
          rw [if_neg herr, if_neg hempty]
          rfl

end Command

/-- Loading accepts exactly the well-formed definitions, and the command `validate` succeeds
exactly for the files that hold one. -/
theorem load_and_validate_iff_wellFormed :
    (∀ d : Definition, (∃ l, Language.load d = .ok l) ↔ d.WellFormed) ∧
      ∀ file : SourceFile, (Command.outcome (Command.validate file)).failure = none ↔
        ∃ d, file.definition = .ok d ∧ d.WellFormed := by
  refine ⟨Language.exists_load_iff, fun file => ?_⟩
  rw [Command.failure_validate]
  cases file.definition with
  | error e => simp
  | ok d => simp [Definition.errors_eq_nil_iff]

end RegisterMigration
