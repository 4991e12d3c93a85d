/-!
# Overflow

Positions of bits are 32-bit numbers.  A position that is computed from others need not be one, and
where it is not, the program stops: there is no result, and no error that could be handled.

What an operation gives is therefore described in two parts, by the result that it has with numbers of
any size, and by the condition under which all positions on the way are 32-bit numbers.

## Main results

* `ifFits_eq_ok_iff`, `ifFits_eq_error_iff` — when there is a result.
* `mapM_ifFits` — a list of results is there if all of them are.
-/

namespace RegisterMigration

/-- The program stops, as a number does not fit 32 bits. -/
inductive Overflow where
  | overflow
  deriving DecidableEq, Repr

/-- A result that is there only if all numbers on the way to it fit. -/
def ifFits {α : Type} (fits : Prop) [Decidable fits] (a : α) : Except Overflow α :=
  if fits then .ok a else .error .overflow

/-- A number as a position. -/
def position (n : Nat) : Except Overflow UInt32 :=
  ifFits (n < UInt32.size) (.ofNat n)

section

variable {α β : Type} {p q : Prop} [Decidable p] [Decidable q] {a b : α}

theorem ifFits_of (h : p) (a : α) : ifFits p a = .ok a :=
  if_pos h

theorem ifFits_of_not (h : ¬ p) (a : α) : ifFits p a = .error .overflow :=
  if_neg h

@[simp] theorem ifFits_eq_ok_iff : ifFits p a = .ok b ↔ p ∧ a = b := by
  by_cases h : p
  · rw [ifFits_of h, and_iff_right h, Except.ok.injEq]
  · rw [ifFits_of_not h]
    exact iff_of_false nofun fun hboth => h hboth.1

@[simp] theorem ifFits_eq_error_iff {e : Overflow} : ifFits p a = .error e ↔ ¬ p := by
  by_cases h : p
  · rw [ifFits_of h]
    exact iff_of_false nofun (not_not_intro h)
  · rw [ifFits_of_not h]
    exact iff_of_true rfl h

@[simp] theorem map_ifFits (f : α → β) : (ifFits p a).map f = ifFits p (f a) := by
  by_cases h : p
  · rw [ifFits_of h, ifFits_of h]
    rfl
  · rw [ifFits_of_not h, ifFits_of_not h]
    rfl

/-- Only the results that are there have to be the same. -/
theorem ifFits_congr (hfits : p ↔ q) (h : p → a = b) : ifFits p a = ifFits q b := by
  by_cases hp : p
  · rw [ifFits_of hp, ifFits_of (hfits.1 hp), h hp]
  · rw [ifFits_of_not hp, ifFits_of_not fun hq => hp (hfits.2 hq)]

/-- A list of results is there if all of them are. -/
theorem mapM_ifFits {fits : α → Prop} [DecidablePred fits] (f : α → β) (xs : List α) :
    (xs.mapM fun x => ifFits (fits x) (f x)) = ifFits (∀ x ∈ xs, fits x) (xs.map f) := by
  induction xs with
  | nil => rfl
  | cons x xs ih =>
      rw [List.mapM_cons, ih]
      by_cases hx : fits x
      · have hcons : (∀ y ∈ x :: xs, fits y) ↔ ∀ y ∈ xs, fits y := by
          rw [List.forall_mem_cons]
          exact and_iff_right hx
        rw [ifFits_of hx]
        exact (map_ifFits (f x :: ·)).trans (ifFits_congr hcons.symm fun _ => rfl)
      · have hcons : ¬ ∀ y ∈ x :: xs, fits y := fun hall => hx (hall x List.mem_cons_self)
        rw [ifFits_of_not hx, ifFits_of_not hcons]
        rfl

end

end RegisterMigration
