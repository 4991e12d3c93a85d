import Mathlib.Data.List.Induction
import Mathlib.Tactic.Ring
import RegisterMigration.Binary

/-!
# Strings of bits and of bytes as numbers

A string of bits denotes a number below `2 ^ length`, a string of bytes one below `256 ^ length`, and of
the strings of bytes of one length each denotes its own.  So such a string is known from its length and its
number.  Zeros in front change the length and not the number, which is why a number can be laid out in any length
that is long enough for it.

## Main results

* `ofBits_lt`, `ofBigEndian_lt` — the bounds for bits and for bytes.
* `toBigEndian_ofBigEndian` — a string is the layout of its number.
* `ofBigEndian_replicate_append`, `ofBigEndian_eq_zero_iff` — zeros in front, and nothing but zeros.
-/

namespace RegisterMigration.Binary

/-! ## Bits -/

theorem ofBits_lt (bs : List Bool) : ofBits bs < 2 ^ bs.length := by
  induction bs with
  | nil => exact Nat.one_pos
  | cons b bs ih =>
      have hbit := b.toNat_le
      rw [ofBits, List.length_cons, Nat.pow_succ]
      omega

/-! ## Bytes -/

/-- Bytes read onto a number move it up. -/
theorem foldl_bytes (n : Nat) (bytes : List UInt8) :
    bytes.foldl (fun n b => 256 * n + b.toNat) n = n * 256 ^ bytes.length + ofBigEndian bytes := by
  induction bytes generalizing n with
  | nil => simp [ofBigEndian]
  | cons b bytes ih =>
      have hrest : ofBigEndian (b :: bytes) = b.toNat * 256 ^ bytes.length + ofBigEndian bytes := by
        show bytes.foldl (fun n b => 256 * n + b.toNat) (256 * 0 + b.toNat) = _
        rw [ih, Nat.mul_zero, Nat.zero_add]
      rw [List.foldl_cons, ih, hrest, List.length_cons]
      ring

theorem ofBigEndian_append (a b : List UInt8) :
    ofBigEndian (a ++ b) = ofBigEndian a * 256 ^ b.length + ofBigEndian b := by
  rw [ofBigEndian, List.foldl_append, foldl_bytes]
  rfl

theorem ofBigEndian_cons (b : UInt8) (bytes : List UInt8) :
    ofBigEndian (b :: bytes) = b.toNat * 256 ^ bytes.length + ofBigEndian bytes := by
  have happend := ofBigEndian_append [b] bytes
  simpa [ofBigEndian] using happend

theorem ofBigEndian_concat (bytes : List UInt8) (b : UInt8) :
    ofBigEndian (bytes ++ [b]) = 256 * ofBigEndian bytes + b.toNat := by
  rw [ofBigEndian, List.foldl_append]
  rfl

/-- The number of a string is bounded by its length. -/
theorem ofBigEndian_lt (bytes : List UInt8) : ofBigEndian bytes < 256 ^ bytes.length := by
  induction bytes with
  | nil => simp [ofBigEndian]
  | cons b bytes ih =>
      have hb : b.toNat + 1 ≤ 256 := b.toNat_lt
      have hscaled := Nat.mul_le_mul_right (256 ^ bytes.length) hb
      rw [ofBigEndian_cons, List.length_cons, Nat.pow_succ]
      rw [Nat.add_mul] at hscaled
      omega

/-- A string is the layout of its number. -/
theorem toBigEndian_ofBigEndian (bytes : List UInt8) :
    toBigEndian bytes.length (ofBigEndian bytes) = bytes := by
  induction bytes using List.reverseRecOn with
  | nil => rfl
  | append_singleton bytes b ih =>
      have hb := b.toNat_lt
      have hquotient : ofBigEndian (bytes ++ [b]) / 256 = ofBigEndian bytes := by
        rw [ofBigEndian_concat]
        omega
      have hlast : UInt8.ofNat (ofBigEndian (bytes ++ [b])) = b := by
        rw [← UInt8.toNat_inj, UInt8.toNat_ofNat', ofBigEndian_concat]
        omega
      rw [List.length_append, List.length_singleton, toBigEndian, hquotient, ih, hlast]

theorem ofBigEndian_replicate_zero (count : Nat) : ofBigEndian (List.replicate count 0) = 0 := by
  induction count with
  | zero => rfl
  | succ count ih => rw [List.replicate_succ, ofBigEndian_cons, ih, UInt8.toNat_zero, Nat.zero_mul]

/-- Zeros in front do not change the number. -/
theorem ofBigEndian_replicate_append (count : Nat) (bytes : List UInt8) :
    ofBigEndian (List.replicate count 0 ++ bytes) = ofBigEndian bytes := by
  rw [ofBigEndian_append, ofBigEndian_replicate_zero, Nat.zero_mul, Nat.zero_add]

/-- A string denotes zero exactly if it is all zeros. -/
theorem ofBigEndian_eq_zero_iff {bytes : List UInt8} : ofBigEndian bytes = 0 ↔ ∀ b ∈ bytes, b = 0 := by
  constructor
  · intro hzero
    have hlayout := toBigEndian_ofBigEndian bytes
    have hzeros := toBigEndian_ofBigEndian (List.replicate bytes.length 0)
    rw [ofBigEndian_replicate_zero, List.length_replicate, ← hzero, hlayout] at hzeros
    exact (List.eq_replicate_iff.1 hzeros).2
  · intro hall
    rw [List.eq_replicate_iff.2 ⟨rfl, hall⟩]
    exact ofBigEndian_replicate_zero _

end RegisterMigration.Binary
