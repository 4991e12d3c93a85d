import RegisterMigration.Migration.Migrator
import RegisterMigration.Proofs.Language.Table

/-!
# Which register corresponds to which

`Language.counterpart?` looks a register up by name, or by role for the context register.
`Language.Corresponds` says the same without a lookup: the new context register for the old
one, and a register of the same name that is not the context register for any other.

## Main results

* `counterpart?_eq_some_iff` — the lookup finds exactly the corresponding register.
* `Corresponds.symm`, `Corresponds.trans` — correspondence can be followed back and further on.
* `Register.rearranged_comm` — neither side decides alone what counts as rearranged.
* `map?_of_corresponds`, `converts_of_corresponds` — the table that a migrator keeps.
-/

namespace RegisterMigration

namespace Language

/-- The register `n` of the language `new` takes the place of the register `r` of an older
one. -/
def Corresponds (new : Language) (r n : Register) : Prop :=
  n ∈ new.registers ∧
    if r.context then n.context = true else n.context = false ∧ n.name = r.name

/-- The lookup finds exactly the corresponding register. -/
theorem counterpart?_eq_some_iff {new : Language} {r n : Register} :
    new.counterpart? r = some n ↔ new.Corresponds r n := by
  rw [counterpart?, Corresponds]
  cases hcontext : r.context with
  | true =>
      rw [if_pos rfl, if_pos rfl]
      exact contextRegister?_eq_some_iff
  | false =>
      rw [if_neg (by decide), if_neg (by decide), Option.filter_eq_some_iff,
        register?_eq_some_iff]
      simp only [Bool.not_eq_true']
      constructor
      · intro h
        rcases h with ⟨⟨hn, hname⟩, hordinary⟩
        exact ⟨hn, hordinary, hname⟩
      · intro h
        rcases h with ⟨hn, hordinary, hname⟩
        exact ⟨⟨hn, hname⟩, hordinary⟩

theorem counterpart?_eq_none_iff {new : Language} {r : Register} :
    new.counterpart? r = none ↔ ∀ n, ¬ new.Corresponds r n := by
  rw [Option.eq_none_iff_forall_ne_some]
  exact forall_congr' fun n => not_congr counterpart?_eq_some_iff

/-- A register has one counterpart at most. -/
theorem Corresponds.unique {new : Language} {r n k : Register} (hn : new.Corresponds r n)
    (hk : new.Corresponds r k) : n = k := by
  rw [← counterpart?_eq_some_iff] at hn hk
  exact Option.some.inj (hn.symm.trans hk)

/-- The context register corresponds to the context register and no other one does. -/
theorem Corresponds.context_eq {new : Language} {r n : Register} (h : new.Corresponds r n) :
    n.context = r.context := by
  obtain ⟨_, h⟩ := h
  cases hcontext : r.context with
  | true =>
      rw [hcontext, if_pos rfl] at h
      exact h
  | false =>
      rw [hcontext, if_neg (by decide)] at h
      exact h.1

theorem Corresponds.name_eq {new : Language} {r n : Register} (h : new.Corresponds r n)
    (hordinary : r.context = false) : n.name = r.name := by
  obtain ⟨_, h⟩ := h
  rw [hordinary, if_neg (by decide)] at h
  exact h.2

/-- Correspondence needs one role, and one name where the role is an ordinary one. -/
theorem corresponds_of_eq {new : Language} {r n : Register} (hn : n ∈ new.registers)
    (hcontext : n.context = r.context) (hname : r.context = false → n.name = r.name) :
    new.Corresponds r n := by
  refine ⟨hn, ?_⟩
  cases hrole : r.context with
  | true =>
      rw [if_pos rfl]
      exact hcontext.trans hrole
  | false =>
      rw [if_neg (by decide)]
      exact ⟨hcontext.trans hrole, hname hrole⟩

/-- Both are context registers, or neither is and they have one name. -/
theorem corresponds_iff {new : Language} {r n : Register} (hn : n ∈ new.registers) :
    new.Corresponds r n ↔
      (r.context = true ∧ n.context = true) ∨
        (r.context = false ∧ n.context = false ∧ n.name = r.name) := by
  rw [Corresponds]
  cases r.context with
  | true => simp [hn]
  | false => simp [hn]

/-- Correspondence holds in both directions. -/
theorem Corresponds.symm {old new : Language} {r n : Register} (h : new.Corresponds r n)
    (hr : r ∈ old.registers) : old.Corresponds n r := by
  refine corresponds_of_eq hr h.context_eq.symm fun hordinary => ?_
  rw [h.context_eq] at hordinary
  exact (h.name_eq hordinary).symm

/-- The counterpart of a counterpart is a counterpart. -/
theorem Corresponds.trans {mid new : Language} {r s n : Register} (h : mid.Corresponds r s)
    (h' : new.Corresponds s n) : new.Corresponds r n := by
  refine corresponds_of_eq h'.1 (h'.context_eq.trans h.context_eq) fun hordinary => ?_
  exact (h'.name_eq (h.context_eq.trans hordinary)).trans (h.name_eq hordinary)

theorem corresponds_of_contextRegister {old new : Language} {r n : Register}
    (hr : old.contextRegister? = some r) (hn : new.contextRegister? = some n) :
    new.Corresponds r n := by
  have hrcontext := (contextRegister?_eq_some_iff.1 hr).2
  obtain ⟨hnmem, hncontext⟩ := contextRegister?_eq_some_iff.1 hn
  exact ⟨hnmem, by rw [if_pos hrcontext, hncontext]⟩

end Language

namespace Register

/-! ## Rearranged registers -/

theorem moved_comm (o n : Register) : o.moved n = n.moved o := by
  unfold moved
  rw [bne_comm (a := o.space), bne_comm (a := o.offset), bne_comm (a := o.bitSize)]

theorem parentChanged_comm (o n : Option Register) : parentChanged o n = parentChanged n o := by
  cases o with
  | none => cases n <;> rfl
  | some o =>
      cases n with
      | none => rfl
      | some n =>
          show (o.name != n.name || o.offset != n.offset || o.bitSize != n.bitSize) =
            (n.name != o.name || n.offset != o.offset || n.bitSize != o.bitSize)
          rw [bne_comm (a := o.name), bne_comm (a := o.offset), bne_comm (a := o.bitSize)]

/-- A register lies elsewhere than its counterpart exactly if the counterpart lies elsewhere than
the register. -/
theorem rearranged_comm (old new : Language) (o n : Register) :
    rearranged old new o n = rearranged new old n o := by
  unfold rearranged
  rw [moved_comm, parentChanged_comm]

end Register

namespace Correspondence

variable {old new : Language} {changed : Bool}

/-- What the table says of a register of the old language. -/
theorem row?_build {r : Register} (hr : r ∈ old.registers) :
    (build old new changed).row? r.id =
      (new.counterpart? r).map fun n =>
        { id := n.id
          converts := Register.rearranged old new r n || (r.context && changed) } := by
  have hat := Language.mem_registers_iff.1 hr
  rw [Language.registerById?] at hat
  simp only [row?, build, Array.getElem?_map, hat, Option.map_some, Option.join_some]

theorem map?_of_corresponds {r n : Register} (hr : r ∈ old.registers)
    (hn : new.Corresponds r n) : (build old new changed).map? r.id = some n.id := by
  rw [map?, row?_build hr, Language.counterpart?_eq_some_iff.2 hn]
  rfl

theorem map?_eq_none_iff {r : Register} (hr : r ∈ old.registers) :
    (build old new changed).map? r.id = none ↔ ∀ n, ¬ new.Corresponds r n := by
  rw [map?, row?_build hr, Option.map_eq_none_iff, Option.map_eq_none_iff,
    Language.counterpart?_eq_none_iff]

/-- When values of a register that has a counterpart are converted. -/
theorem converts_of_corresponds {r n : Register} (hr : r ∈ old.registers)
    (hn : new.Corresponds r n) :
    (build old new changed).converts r.id
      = (Register.rearranged old new r n || (r.context && changed)) := by
  rw [converts, row?_build hr, Language.counterpart?_eq_some_iff.2 hn]
  rfl

end Correspondence

end RegisterMigration
