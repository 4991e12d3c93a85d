import RegisterMigration.Proofs.PackedValue.Operations

/-!
# The laws of merging

Values can be merged if they belong to one register and have one width.  The merged value takes each bit
from the first value that knows it, so bit by bit merging is `Option.or`, and it has the laws of that: it
is associative, a value merged with itself stays the same, and the value of which nothing is known
changes nothing on either side.  It does not commute, as the first value wins where both know a bit.
The order is without effect exactly if the values never contradict each other there.

## Main results

* `combine_eq_error_iff` — which values cannot be merged.
* `combine_assoc`, `combine_self`, `combine_unknown`, `unknown_combine` — the laws.
* `combine_comm_iff` — when the order is without effect.
* `exists_combine_of_disjoint` — values that know no bit in common.
* `combine_laws` — all of them, also in bytes.
-/

namespace RegisterMigration.PartialValue

variable {v w x : PartialValue}

/-- Whether two values belong to one register and have one width. -/
def Alike (v w : PartialValue) : Prop :=
  v.register = w.register ∧ v.width = w.width

/-- Whether no bit that two values both know is known differently. -/
def AgreesWith (v w : PartialValue) : Prop :=
  ∀ i, (v.bit i).isSome → (w.bit i).isSome → v.bit i = w.bit i

theorem Alike.symm (h : v.Alike w) : w.Alike v :=
  ⟨h.1.symm, h.2.symm⟩

theorem Alike.trans (h : v.Alike w) (h' : w.Alike x) : v.Alike x :=
  ⟨h.1.trans h'.1, h.2.trans h'.2⟩

/-! ## Merging two values -/

/-- Values of different registers or widths cannot be merged, and no others. -/
theorem combine_eq_error_iff {e : ValueError} :
    v.combine w = .error e ↔ ¬ v.Alike w ∧ e = .mismatch v.register w.register := by
  rw [combine]
  by_cases h : v.register = w.register ∧ v.width = w.width
  · rw [if_pos h]
    constructor
    · intro herror
      cases herror
    · exact fun hboth => absurd h hboth.1
  · rw [if_neg h, Except.error.injEq]
    exact ⟨fun heq => ⟨h, heq.symm⟩, fun hboth => hboth.2.symm⟩

/-- A merged value is known by its bits. -/
theorem combine_eq_ok (h : v.Alike w) (hx : x.Alike v) (hbit : ∀ i, x.bit i = (v.bit i).or (w.bit i)) :
    v.combine w = .ok x := by
  obtain ⟨y, hy, hregister, hwidth⟩ := exists_combine h.1 h.2
  rw [hy, Except.ok.injEq]
  refine ext_bit (hregister.trans hx.1.symm) (hwidth.trans hx.2.symm) fun i => ?_
  rw [bit_of_combine hy, hbit]

/-- The merged value knows what either value knows. -/
theorem knownPositions_of_combine (h : v.combine w = .ok x) :
    x.knownPositions = v.knownPositions ∪ w.knownPositions := by
  ext i
  rw [Finset.mem_union, mem_knownPositions, mem_knownPositions, mem_knownPositions,
    bit_of_combine h, Option.isSome_or, Bool.or_eq_true]

/-! ## The laws -/

/-- Of three values it does not matter which two are merged first. -/
theorem combine_assoc (hvw : v.Alike w) (hwx : w.Alike x) :
    ∃ y, (v.combine w).bind (·.combine x) = .ok y ∧ (w.combine x).bind v.combine = .ok y := by
  obtain ⟨a, ha, haRegister, haWidth⟩ := exists_combine hvw.1 hvw.2
  obtain ⟨b, hb, hbRegister, hbWidth⟩ := exists_combine hwx.1 hwx.2
  have hav : a.Alike v := ⟨haRegister, haWidth⟩
  have hbw : b.Alike w := ⟨hbRegister, hbWidth⟩
  have hax : a.Alike x := hav.trans (hvw.trans hwx)
  obtain ⟨y, hy, hyRegister, hyWidth⟩ := exists_combine hax.1 hax.2
  have hyv : y.Alike v := Alike.trans ⟨hyRegister, hyWidth⟩ hav
  refine ⟨y, ?_, ?_⟩
  · rw [ha]
    exact hy
  · rw [hb]
    refine combine_eq_ok (hvw.trans hbw.symm) hyv fun i => ?_
    calc y.bit i = (a.bit i).or (x.bit i) := bit_of_combine hy i
      _ = ((v.bit i).or (w.bit i)).or (x.bit i) := by rw [bit_of_combine ha]
      _ = (v.bit i).or ((w.bit i).or (x.bit i)) := Option.or_assoc
      _ = (v.bit i).or (b.bit i) := by rw [bit_of_combine hb]

theorem combine_self (v : PartialValue) : v.combine v = .ok v :=
  combine_eq_ok ⟨rfl, rfl⟩ ⟨rfl, rfl⟩ fun _ => Option.or_self.symm

theorem combine_unknown (v : PartialValue) : v.combine (unknown v.register v.width) = .ok v := by
  refine combine_eq_ok ⟨rfl, rfl⟩ ⟨rfl, rfl⟩ fun i => ?_
  rw [bit_unknown, Option.or_none]

theorem unknown_combine (v : PartialValue) : (unknown v.register v.width).combine v = .ok v := by
  refine combine_eq_ok ⟨rfl, rfl⟩ ⟨rfl, rfl⟩ fun i => ?_
  rw [bit_unknown, Option.none_or]

/-- The order of two values is without effect exactly if they agree on every bit that both know. -/
theorem combine_comm_iff (h : v.Alike w) : v.combine w = w.combine v ↔ v.AgreesWith w := by
  obtain ⟨a, ha, haRegister, haWidth⟩ := exists_combine h.1 h.2
  constructor
  · intro hcomm i hv hw
    have hb : w.combine v = .ok a := hcomm.symm.trans ha
    calc v.bit i = (v.bit i).or (w.bit i) := (Option.or_of_isSome hv).symm
      _ = a.bit i := (bit_of_combine ha i).symm
      _ = (w.bit i).or (v.bit i) := bit_of_combine hb i
      _ = w.bit i := Option.or_of_isSome hw
  · intro hagree
    rw [ha]
    refine (combine_eq_ok h.symm (Alike.trans ⟨haRegister, haWidth⟩ h) fun i => ?_).symm
    rw [bit_of_combine ha]
    -- Where one of the values knows nothing, the other one is taken in either order.
    cases hv : v.bit i with
    | none => rw [Option.none_or, Option.or_none]
    | some b =>
        cases hw : w.bit i with
        | none => rw [Option.or_none, Option.none_or]
        | some c =>
            have hbc := hagree i (by rw [hv]; rfl) (by rw [hw]; rfl)
            rw [hv, hw] at hbc
            rw [hbc]

/-- Where no bit is known to both values, the order is without effect and no known bit is lost. -/
theorem exists_combine_of_disjoint (h : v.Alike w)
    (hdisjoint : Disjoint v.knownPositions w.knownPositions) :
    ∃ x, v.combine w = .ok x ∧ w.combine v = .ok x ∧
      x.knownCount = v.knownCount + w.knownCount := by
  obtain ⟨x, hx, _, _⟩ := exists_combine h.1 h.2
  have hagree : v.AgreesWith w := by
    intro i hv hw
    exact absurd (mem_knownPositions.2 hw)
      (Finset.disjoint_left.1 hdisjoint (mem_knownPositions.2 hv))
  refine ⟨x, hx, ((combine_comm_iff h).2 hagree).symm.trans hx, ?_⟩
  rw [knownCount_eq_card, knownCount_eq_card, knownCount_eq_card, knownPositions_of_combine hx,
    Finset.card_union_of_disjoint hdisjoint]

/-- The laws of merging, also in bytes.  Only values of different registers or widths are refused.  Of all
others the merged value has each bit from the first value if that knows it and from the second one
otherwise, so it knows what either of them knows.  Merging is associative and idempotent, and what
nothing is known of changes nothing.  Two values can be merged in either order exactly if they agree on
every bit that both know. -/
theorem combine_laws (v w : PartialValue) :
    v.pack.combine w.pack = (v.combine w).map pack ∧
    (∀ e, v.combine w = .error e ↔
      ¬ (v.register = w.register ∧ v.width = w.width) ∧ e = .mismatch v.register w.register) ∧
    (v.Alike w →
      (∃ x, v.combine w = .ok x ∧ x.Alike v ∧
        (∀ i, x.bit i = if (v.bit i).isSome then v.bit i else w.bit i) ∧
        x.knownPositions = v.knownPositions ∪ w.knownPositions) ∧
      (∀ x, w.Alike x →
        ∃ y, (v.combine w).bind (·.combine x) = .ok y ∧ (w.combine x).bind v.combine = .ok y) ∧
      (v.combine w = w.combine v ↔ v.AgreesWith w)) ∧
    v.combine v = .ok v ∧
    v.combine (unknown v.register v.width) = .ok v ∧ (unknown v.register v.width).combine v = .ok v := by
  refine ⟨PackedValue.combine_pack v w, fun e => combine_eq_error_iff, fun h => ⟨?_, ?_, ?_⟩,
    combine_self v, combine_unknown v, unknown_combine v⟩
  · obtain ⟨x, hx, hregister, hwidth⟩ := exists_combine h.1 h.2
    refine ⟨x, hx, ⟨hregister, hwidth⟩, fun i => ?_, knownPositions_of_combine hx⟩
    rw [bit_of_combine hx]
    cases v.bit i <;> rfl
  · exact fun x => combine_assoc h
  · exact combine_comm_iff h

/-- Twelve bits of which the low four are known. -/
def lowFour : PartialValue :=
  (unknown ⟨0⟩ 12).withBits ⟨0, 3⟩ 0b0011

/-- Twelve bits of which six are known.  Two of these are known differently in `lowFour`. -/
def middleSix : PartialValue :=
  (unknown ⟨0⟩ 12).withBits ⟨2, 7⟩ 0b110011

theorem combine_laws_overlapping :
    lowFour.combine middleSix ≠ middleSix.combine lowFour ∧
      (∃ x, lowFour.combine middleSix = .ok x ∧ x.bit 2 = some false ∧ x.bit 7 = some true ∧
        x.bit 8 = none) ∧
      (∃ y, (lowFour.combine middleSix).bind (·.combine (known ⟨0⟩ 12 0xfff)) = .ok y ∧
        (middleSix.combine (known ⟨0⟩ 12 0xfff)).bind lowFour.combine = .ok y) := by
  obtain ⟨⟨x, hx, -, hbit, -⟩, hassoc, hcomm⟩ := (combine_laws lowFour middleSix).2.2.1 ⟨rfl, rfl⟩
  refine ⟨fun h => ?_, ⟨x, hx, ?_, ?_, ?_⟩, hassoc _ ⟨rfl, rfl⟩⟩
  · have htwo := hcomm.1 h 2 (by decide) (by decide)
    revert htwo
    decide
  all_goals
    rw [hbit]
    decide

end RegisterMigration.PartialValue
