/-!
# Numbers as bits and bytes

Register contents are spelled in three ways: bit by bit from the least significant one,
as bytes from the most significant one, and as the number that both denote. The number is
the meeting point: each of the other two is defined by what it denotes.

## Main results

* `testBit_ofBits` — bit `i` of the number that bits spell is the `i`-th of them.
* `ofBigEndian_toBigEndian` — a number below `256 ^ length` reads back from its bytes.
-/

namespace RegisterMigration.Binary

/-! ## Bits -/

/-- The number that bits spell, the least significant one first. -/
def ofBits : List Bool → Nat
  | [] => 0
  | b :: bs => b.toNat + 2 * ofBits bs

/-- Bit `i` of the number that bits spell is the `i`-th of them. -/
theorem testBit_ofBits (bs : List Bool) (i : Nat) :
    (ofBits bs).testBit i = bs[i]?.getD false := by
  induction bs generalizing i with
  | nil => simp [ofBits]
  | cons b bs ih =>
    cases i with
    | zero => cases b <;> simp [ofBits, Nat.testBit_zero]
    | succ i =>
      have h : (b.toNat + 2 * ofBits bs) / 2 = ofBits bs := by
        have := b.toNat_le
        omega
      simp [ofBits, Nat.testBit_succ, h, ih]

/-! ## Bytes -/

/-- The number that bytes spell, the most significant one first. -/
def ofBigEndian (bytes : List UInt8) : Nat :=
  bytes.foldl (fun n b => 256 * n + b.toNat) 0

/-- The low `length` bytes of a number, the most significant one first. -/
def toBigEndian : Nat → Nat → List UInt8
  | 0, _ => []
  | length + 1, n => toBigEndian length (n / 256) ++ [UInt8.ofNat n]

/-- A number is laid out in as many bytes as asked for. -/
@[simp] theorem length_toBigEndian (length n : Nat) : (toBigEndian length n).length = length := by
  induction length generalizing n with
  | zero => rfl
  | succ length ih => simp [toBigEndian, ih]

/-- The bytes of a number denote it as far as they go. -/
theorem ofBigEndian_toBigEndian (length n : Nat) :
    ofBigEndian (toBigEndian length n) = n % Nat.pow 256 length := by
  induction length generalizing n with
  | zero => simp [toBigEndian, ofBigEndian, Nat.mod_one]
  | succ length ih =>
    have h := ih (n / 256)
    simp only [ofBigEndian] at h
    simp only [toBigEndian, ofBigEndian, List.foldl_append, List.foldl_cons, List.foldl_nil, h,
      UInt8.toNat_ofNat']
    have hpow : Nat.pow 256 (length + 1) = 256 * Nat.pow 256 length := Nat.mul_comm _ _
    rw [hpow, Nat.mod_mul, Nat.add_comm]

end RegisterMigration.Binary
