import RegisterMigration.PartialValue

/-!
# Wired values

Placing a value, taking a part of it out, putting it on another register: each of these lays out a
new value in which every bit is one bit of the old value or is unknown.  Which one it is depends on
the position alone, and never on what the old value knows.  `wired` is the general form, with the
sources of the bits as its argument, so that what holds of every choice of sources is proved once.

Merging goes bit by bit too, and lets the first value win at a bit that both of them know.  Under a
wiring the two values send the same two bits to a position, and in the same order.  So it does not
matter whether values are merged before or after they are wired, even where one bit is the source
of several.

## Main results

* `wired_wired` — wiring twice is wiring once.
* `combine_wired` — values can be merged before or after they are wired.
* `wired_unknown` — a wiring makes nothing known.
* `reanchor_eq_wired`, `resized_eq_wired`, `raised_eq_wired` — moving bits is wiring.
-/

namespace RegisterMigration.PartialValue

variable {v w x : PartialValue} {register : RegisterId} {width : UInt32}
  {source : Nat → Option Nat}

/-! ## Merged values -/

/-- Values of one register and width can be merged. -/
theorem exists_combine (hregister : v.register = w.register) (hwidth : v.width = w.width) :
    ∃ x, v.combine w = .ok x ∧ x.register = v.register ∧ x.width = v.width :=
  ⟨_, combine_eq_ok_iff.2 ⟨hregister, hwidth, rfl⟩, rfl, rfl⟩

theorem bit_of_combine (h : v.combine w = .ok x) (i : Nat) :
    x.bit i = (v.bit i).or (w.bit i) := by
  obtain ⟨_, hwidth, rfl⟩ := combine_eq_ok_iff.1 h
  rw [bit_ofBits]
  by_cases hi : i < v.width.toNat
  · rw [if_pos hi]
  · have hv : v.bit i = none := bit_eq_none_of_le (Nat.le_of_not_lt hi)
    have hw : w.bit i = none := bit_eq_none_of_le (hwidth ▸ Nat.le_of_not_lt hi)
    rw [if_neg hi, hv, hw]
    rfl

/-! ## Wirings -/

/-- The value whose bit `j` is bit `source j` of `v`, and is unknown where there is no source. -/
def wired (v : PartialValue) (register : RegisterId) (width : UInt32)
    (source : Nat → Option Nat) : PartialValue :=
  ofBits register width fun j => (source j).bind v.bit

theorem bit_wired (v : PartialValue) (j : Nat) :
    (v.wired register width source).bit j =
      if j < width.toNat then (source j).bind v.bit else none :=
  bit_ofBits register width _ j

/-- The sources of bits that are wired by way of a value of the given width. -/
def sourceThrough (width : UInt32) (source source' : Nat → Option Nat) (j : Nat) : Option Nat :=
  (source' j).bind fun k => if k < width.toNat then source k else none

/-- The source of a bit that is wired twice is the source of its source. -/
theorem wired_wired (v : PartialValue) {register' : RegisterId} {width' : UInt32}
    {source' : Nat → Option Nat} :
    (v.wired register width source).wired register' width' source' =
      v.wired register' width' (sourceThrough width source source') := by
  refine ext_bit rfl rfl fun j => ?_
  rw [bit_wired, bit_wired, sourceThrough]
  cases source' j with
  | none => rfl
  | some k =>
      simp only [Option.bind_some]
      rw [bit_wired]
      by_cases hk : k < width.toNat
      · rw [if_pos hk, if_pos hk]
      · rw [if_neg hk, if_neg hk]
        rfl

theorem wired_unknown {register' : RegisterId} {width' : UInt32} :
    (unknown register' width').wired register width source = unknown register width := by
  refine ext_bit rfl rfl fun j => ?_
  rw [bit_wired, bit_unknown]
  cases source j with
  | none => exact ite_self none
  | some k =>
      rw [Option.bind_some, bit_unknown]
      exact ite_self none

/-- Merging before a wiring and merging after it give the same value. -/
theorem combine_wired (h : v.combine w = .ok x) :
    (v.wired register width source).combine (w.wired register width source) =
      .ok (x.wired register width source) := by
  refine combine_eq_ok_iff.2 ⟨rfl, rfl, ext_bit rfl rfl fun j => ?_⟩
  rw [bit_wired, bit_ofBits]
  show (if j < width.toNat then (source j).bind x.bit else none) =
    if j < width.toNat then
      ((v.wired register width source).bit j).or ((w.wired register width source).bit j)
    else none
  by_cases hj : j < width.toNat
  · rw [if_pos hj, if_pos hj, bit_wired, bit_wired, if_pos hj, if_pos hj]
    cases source j with
    | none => rfl
    | some k => exact bit_of_combine h k
  · rw [if_neg hj, if_neg hj]

/-! ## Moving bits -/

theorem reanchor_eq_wired (v : PartialValue) (register : RegisterId) :
    v.reanchor register = v.wired register v.width some := by
  refine ext_bit rfl rfl fun j => ?_
  rw [bit_reanchor, bit_wired, Option.bind_some]
  by_cases hj : j < v.width.toNat
  · rw [if_pos hj]
  · rw [if_neg hj]
    exact bit_eq_none_of_le (Nat.le_of_not_lt hj)

theorem resized_eq_wired (v : PartialValue) (register : RegisterId) (width : UInt32) :
    v.resized register width = v.wired register width some := by
  refine ext_bit rfl rfl fun j => ?_
  rw [bit_resized, bit_wired, Option.bind_some]

theorem raised_eq_wired (v : PartialValue) (register : RegisterId) (width shift : UInt32) :
    v.raised register width shift =
      v.wired register width fun j => if shift.toNat ≤ j then some (j - shift.toNat) else none := by
  refine ext_bit rfl rfl fun j => ?_
  rw [raised, wired, bit_ofBits, bit_ofBits]
  by_cases hj : shift.toNat ≤ j
  · rw [if_pos hj, if_pos hj]
    rfl
  · rw [if_neg hj, if_neg hj]
    rfl

end RegisterMigration.PartialValue
