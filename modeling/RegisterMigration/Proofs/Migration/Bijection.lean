import Mathlib.Combinatorics.Enumerative.DoubleCounting
import RegisterMigration.Proofs.Migration.Counterpart
import RegisterMigration.Proofs.PartialValue.Counting

/-!
# Correspondence both ways

A counterpart is looked up by role for the context register and by name for all others, and the
lookup refuses the new context register to an ordinary name.  Names may clash across the roles: an
ordinary register may be called what the context register of the other language is called, on either
side.  Still the lookup in one direction undoes the lookup in the other one, as both decide one
relation between two registers, which is symmetric.  Registers are told apart by their ids alone, as
a language has no name twice and no second context register.

So a migration back has a row for the same pairs of registers, with the same answer whether values
have to be converted.

## Main results

* `map?_eq_some_iff` — which ids are paired.
* `map?_symm`, `map?_comm` — the two tables are inverse to each other.
* `mappedCount_eq_card`, `mappedCount_le_of_inverse` — counting pairs.
* `partialBijection` — what holds of the tables of two languages.
-/

namespace RegisterMigration.Correspondence

variable {old new : Language} {changed other : Bool} {c d : Correspondence} {i k : RegisterId}

/-! ## Pairs of registers -/

/-- The table of two languages says nothing of an id outside the table of the old one. -/
theorem exists_of_map?_build (h : (build old new changed).map? i = some k) :
    ∃ r, old.registerById? i = some r := by
  cases hr : old.registerById? i with
  | some r => exact ⟨r, rfl⟩
  | none =>
      rw [Language.registerById?] at hr
      simp [map?, row?, build, hr] at h

/-- Two ids are paired exactly if they belong to corresponding registers. -/
theorem map?_eq_some_iff :
    (build old new changed).map? i = some k ↔
      ∃ r ∈ old.registers, ∃ n, new.Corresponds r n ∧ r.id = i ∧ n.id = k := by
  constructor
  · intro h
    obtain ⟨r, hr⟩ := exists_of_map?_build h
    have hmem := Language.mem_of_registerById hr
    have hid := Language.id_eq_of_registerById hr
    rw [← hid, map?, row?_build hmem, Option.map_map, Option.map_eq_some_iff] at h
    obtain ⟨n, hn, hnid⟩ := h
    exact ⟨r, hmem, n, Language.counterpart?_eq_some_iff.1 hn, hid, hnid⟩
  · rintro ⟨r, hr, n, hn, rfl, rfl⟩
    exact map?_of_corresponds hr hn

/-- The table of the way back pairs the same ids, whatever has become of the context fields. -/
theorem map?_symm (h : (build old new changed).map? i = some k) :
    (build new old other).map? k = some i := by
  obtain ⟨r, hr, n, hn, hri, hnk⟩ := map?_eq_some_iff.1 h
  exact map?_eq_some_iff.2 ⟨n, hn.1, r, hn.symm hr, hnk, hri⟩

/-- So each of the two tables is the inverse of the other one. -/
theorem map?_comm :
    (build old new changed).map? i = some k ↔ (build new old other).map? k = some i :=
  ⟨map?_symm, map?_symm⟩

/-- Values are converted on the way back exactly if they are on the way there. -/
theorem converts_comm (h : (build old new changed).map? i = some k) :
    (build old new changed).converts i = (build new old changed).converts k := by
  obtain ⟨r, hr, n, hn, rfl, rfl⟩ := map?_eq_some_iff.1 h
  rw [converts_of_corresponds hr hn, converts_of_corresponds hn.1 (hn.symm hr),
    Register.rearranged_comm, hn.context_eq]

/-! ## Counting pairs -/

/-- The indices of the registers that have a counterpart. -/
def mapped (c : Correspondence) : Finset Nat :=
  (Finset.range c.rows.size).filter fun i => (c.row? ⟨i⟩).isSome

theorem mem_mapped {i : Nat} : i ∈ c.mapped ↔ ∃ k, c.map? ⟨i⟩ = some k := by
  rw [mapped, Finset.mem_filter, Finset.mem_range, ← Option.isSome_iff_exists, map?,
    Option.isSome_map]
  refine and_iff_right_of_imp fun h => ?_
  by_contra hge
  rw [row?, Array.getElem?_eq_none (Nat.le_of_not_lt hge)] at h
  cases h

/-- The count is the size of the set. -/
theorem mappedCount_eq_card (c : Correspondence) : c.mappedCount = c.mapped.card :=
  countP_isSome_eq_card c.rows

/-- A table that another one undoes has no more pairs than that one. -/
theorem mappedCount_le_of_inverse (h : ∀ i k, c.map? i = some k → d.map? k = some i) :
    c.mappedCount ≤ d.mappedCount := by
  rw [mappedCount_eq_card, mappedCount_eq_card]
  refine Finset.card_le_card_of_forall_subsingleton (fun i k => c.map? ⟨i⟩ = some ⟨k⟩) ?_ ?_
  · intro i hi
    obtain ⟨k, hk⟩ := mem_mapped.1 hi
    exact ⟨k.index, mem_mapped.2 ⟨⟨i⟩, h _ _ hk⟩, hk⟩
  · rintro k - i ⟨-, hi⟩ j ⟨-, hj⟩
    have hsame := (h _ _ hi).symm.trans (h _ _ hj)
    exact congrArg RegisterId.index (Option.some.inj hsame)

/-! ## All together -/

/-- What holds of the tables of two languages, in both directions. -/
structure PartialBijection (old new : Language) (changed : Bool) : Prop where
  /-- Only registers of the two tables are paired. -/
  in_tables : ∀ i k, (build old new changed).map? i = some k →
    ∃ r n, old.registerById? i = some r ∧ new.registerById? k = some n
  /-- The context register is paired with the context register, and any other one with the register
  of the same name if that has the same role. -/
  paired_iff : ∀ r ∈ old.registers, ∀ n ∈ new.registers,
    (build old new changed).map? r.id = some n.id ↔
      (r.context = true ∧ n.context = true) ∨
        (r.context = false ∧ n.context = false ∧ n.name = r.name)
  /-- No two registers are paired with the same one. -/
  injective : ∀ i j k, (build old new changed).map? i = some k →
    (build old new changed).map? j = some k → i = j
  /-- The table of the way back is the inverse. -/
  inverse : ∀ other i k,
    (build old new changed).map? i = some k ↔ (build new old other).map? k = some i
  /-- The way back converts the values of the same registers. -/
  converts_eq : ∀ i k, (build old new changed).map? i = some k →
    (build old new changed).converts i = (build new old changed).converts k
  /-- The way back has as many pairs. -/
  mappedCount_eq : ∀ other,
    (build old new changed).mappedCount = (build new old other).mappedCount

/-- Correspondence of registers is a partial bijection that keeps the roles, for any two languages,
whether or not a migration between them is possible. -/
theorem partialBijection (old new : Language) (changed : Bool) :
    PartialBijection old new changed where
  in_tables i k h := by
    obtain ⟨r, hr, n, hn, rfl, rfl⟩ := map?_eq_some_iff.1 h
    exact ⟨r, n, Language.mem_registers_iff.1 hr, Language.mem_registers_iff.1 hn.1⟩
  paired_iff r hr n hn := by
    rw [← Language.corresponds_iff hn]
    constructor
    · intro h
      obtain ⟨r', hr', n', hn', hri, hnk⟩ := map?_eq_some_iff.1 h
      rw [Language.eq_of_id_eq hr hr' hri.symm, Language.eq_of_id_eq hn hn'.1 hnk.symm]
      exact hn'
    · exact map?_of_corresponds hr
  injective i j k hi hj := by
    have hback : (build new old changed).map? k = some i := map?_symm hi
    exact Option.some.inj (hback.symm.trans (map?_symm hj))
  inverse _ _ _ := map?_comm
  converts_eq _ _ h := converts_comm h
  mappedCount_eq _ := Nat.le_antisymm
    (mappedCount_le_of_inverse fun _ _ => map?_symm)
    (mappedCount_le_of_inverse fun _ _ => map?_symm)

/-- A language in which `mode` is an ordinary register and `ctx` is the context register. -/
def modeInRegister : Language :=
  .ofRegisters .little
    [{ name := "mode", space := "register", offset := 0, bitSize := 8 },
      { name := "ctx", space := "register", offset := 16, bitSize := 8, context := true }] []
    (by decide)

/-- A language in which it is the other way round. -/
def modeInContext : Language :=
  .ofRegisters .little
    [{ name := "mode", space := "register", offset := 16, bitSize := 8, context := true },
      { name := "ctx", space := "register", offset := 0, bitSize := 8 }] []
    (by decide)

/-- Only the context registers are paired, in both directions. -/
example :
    (build modeInRegister modeInContext false).map? ⟨0⟩ = none ∧
      (build modeInRegister modeInContext false).map? ⟨1⟩ = some ⟨0⟩ ∧
      (build modeInContext modeInRegister true).map? ⟨0⟩ = some ⟨1⟩ ∧
      (build modeInContext modeInRegister true).mappedCount = 1 := by
  decide +kernel

end RegisterMigration.Correspondence
