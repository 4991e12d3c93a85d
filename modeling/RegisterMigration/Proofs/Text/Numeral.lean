import RegisterMigration.Proofs.Text.Trimming
import RegisterMigration.Text.HexBytes

/-!
# Digits read and written

Digits are read one at a time.  In every base up to sixteen, the digits that a number is written with
denote it; and bytes, which are written with two digits each, can be told by their texts.

A reader gives up at the first digit that brings the number to the bound.  As the number read so
far never goes down, that is the same as looking at the whole number at the end.

## Main results

* `forall_digit` — what holds of all digits, checked digit by digit.
* `hexDigitValue?_hexDigit` — each of the sixteen digits has its own value.
* `toHex_injective` — different bytes have different texts.
* `numberOf_toDigits` — digits denote the number that they were written for.
* `readDigits_eq_ok_iff` — the digits that a reader with a bound accepts.
-/

namespace RegisterMigration.Text

/-! ## Values of digits -/

/-- The value of a digit. -/
def digitOf (c : Char) : Nat :=
  (hexDigitValue? c).getD 0

theorem toNat_lt_of_digit {c : Char} (hc : (hexDigitValue? c).isSome) : c.toNat < 128 := by
  have hle : ∀ d : Char, d.toNat < 128 → c ≤ d → c.toNat < 128 := fun d hd hcd =>
    Nat.lt_of_le_of_lt (UInt32.le_iff_toNat_le.1 hcd) hd
  rw [hexDigitValue?] at hc
  split at hc
  · rename_i h
    exact hle '9' (by decide) h.2
  · split at hc
    · rename_i h
      exact hle 'f' (by decide) h.2
    · split at hc
      · rename_i h
        exact hle 'F' (by decide) h.2
      · cases hc

/-- What holds of the digits among the first 128 characters holds of every digit. -/
theorem forall_digit {p : Char → Prop}
    (h : ∀ n < 128, (hexDigitValue? (Char.ofNat n)).isSome → p (Char.ofNat n)) {c : Char}
    (hc : (hexDigitValue? c).isSome) : p c := by
  have hchar := h c.toNat (toNat_lt_of_digit hc)
  rw [Char.ofNat_toNat] at hchar
  exact hchar hc

theorem digitOf_lt {c : Char} (hc : (hexDigitValue? c).isSome) : digitOf c < 16 :=
  forall_digit (p := fun c => digitOf c < 16) (by decide) hc

theorem not_isBlank_of_digit {c : Char} (hc : (hexDigitValue? c).isSome) : isBlank c = false :=
  forall_digit (p := fun c => isBlank c = false) (by decide) hc

theorem utf8Size_of_digit {c : Char} (hc : (hexDigitValue? c).isSome) : c.utf8Size = 1 :=
  forall_digit (p := fun c => c.utf8Size = 1) (by decide) hc

/-! ## Hexadecimal digits -/

theorem hexDigitValue?_hexDigit {d : Nat} (h : d < 16) : hexDigitValue? (hexDigit d) = some d := by
  have hall : ∀ d < 16, hexDigitValue? (hexDigit d) = some d := by decide
  exact hall d h

theorem hexDigitValue?_toUpper_hexDigit {d : Nat} (h : d < 16) :
    hexDigitValue? (hexDigit d).toUpper = some d := by
  have hall : ∀ d < 16, hexDigitValue? (hexDigit d).toUpper = some d := by decide
  exact hall d h

theorem hexDigit_inj {d e : Nat} (hd : d < 16) (he : e < 16) (h : hexDigit d = hexDigit e) :
    d = e := by
  have hvalue := congrArg hexDigitValue? h
  rw [hexDigitValue?_hexDigit hd, hexDigitValue?_hexDigit he] at hvalue
  exact Option.some.inj hvalue

theorem byteDigits_inj {a b : UInt8} (h : byteDigits a = byteDigits b) : a = b := by
  have ha := a.toNat_lt
  have hb := b.toNat_lt
  simp only [byteDigits, List.cons.injEq, and_true] at h
  have hhigh := hexDigit_inj (by omega) (by omega) h.1
  have hlow := hexDigit_inj (by omega) (by omega) h.2
  rw [← UInt8.toNat_inj]
  omega

/-- Different bytes have different texts. -/
theorem toHex_injective : Function.Injective toHex := by
  intro a b h
  have hdigits : a.flatMap byteDigits = b.flatMap byteDigits := by
    simpa [toHex] using congrArg String.toList h
  clear h
  -- Every byte has two digits, so the texts of the first bytes can be told from the rest.
  induction a generalizing b with
  | nil =>
      cases b with
      | nil => rfl
      | cons y b => simp [byteDigits] at hdigits
  | cons x a ih =>
      cases b with
      | nil => simp [byteDigits] at hdigits
      | cons y b =>
          obtain ⟨hfirst, hrest⟩ := List.append_inj hdigits rfl
          rw [byteDigits_inj hfirst, ih hrest]

/-! ## Numbers in digits -/

theorem digitValue?_digitChar {base d : Nat} (hbase : base ≤ 16) (h : d < base) :
    digitValue? base d.digitChar = some d := by
  have hall : ∀ d < 16, hexDigitValue? d.digitChar = some d := by decide
  rw [digitValue?, hall d (by omega), Option.filter_some, if_pos (decide_eq_true h)]

/-- A property of all digits is a property of all characters of a numeral. -/
theorem forall_mem_toDigits {base : Nat} {p : Char → Prop} (hone : 1 < base)
    (h : ∀ d < base, p d.digitChar) (n : Nat) : ∀ c ∈ Nat.toDigits base n, p c := by
  induction n using Nat.strongRecOn with
  | ind n ih =>
      by_cases hn : n < base
      · rw [Nat.toDigits_of_lt_base hn]
        simpa using h n hn
      · have hdiv : n / base < n := Nat.div_lt_self (by omega) hone
        rw [Nat.toDigits_of_base_le hone (by omega)]
        intro c hc
        rcases List.mem_append.1 hc with hc | hc
        · exact ih (n / base) hdiv c hc
        · rw [List.mem_singleton.1 hc]
          exact h (n % base) (Nat.mod_lt n (by omega))

/-- A positive number is written without leading zeros. -/
theorem toDigits_eq_cons {n : Nat} (h : 0 < n) :
    ∃ c cs, Nat.toDigits 10 n = c :: cs ∧ c ≠ '0' := by
  induction n using Nat.strongRecOn with
  | ind n ih =>
      by_cases hn : n < 10
      · have hall : ∀ d < 10, 0 < d → d.digitChar ≠ '0' := by decide
        rw [Nat.toDigits_of_lt_base hn]
        exact ⟨n.digitChar, [], rfl, hall n hn h⟩
      · obtain ⟨c, cs, hcons, hc⟩ := ih (n / 10) (by omega) (by omega)
        rw [Nat.toDigits_of_base_le (by decide) (by omega), hcons]
        exact ⟨c, _, rfl, hc⟩

theorem digitValue?_isSome_of_mem_toDigits {base n : Nat} {c : Char} (hone : 1 < base)
    (hbase : base ≤ 16) (h : c ∈ Nat.toDigits base n) : (digitValue? base c).isSome :=
  forall_mem_toDigits (p := fun c => (digitValue? base c).isSome) hone
    (fun d hd => by rw [digitValue?_digitChar hbase hd]; rfl) n c h

theorem numberOf_concat (base : Nat) (ds : List Char) (c : Char) :
    numberOf base (ds ++ [c]) = numberOf base ds * base + (hexDigitValue? c).getD 0 := by
  simp [numberOf]

/-- Digits denote the number that they were written for. -/
theorem numberOf_toDigits {base : Nat} (hone : 1 < base) (hbase : base ≤ 16) (n : Nat) :
    numberOf base (Nat.toDigits base n) = n := by
  have hdigit : ∀ d < 16, (hexDigitValue? d.digitChar).getD 0 = d := by decide
  induction n using Nat.strongRecOn with
  | ind n ih =>
      by_cases hn : n < base
      · rw [Nat.toDigits_of_lt_base hn]
        simpa [numberOf] using hdigit n (by omega)
      · have hdiv : n / base < n := Nat.div_lt_self (by omega) hone
        have hlast : n % base < base := Nat.mod_lt n (by omega)
        rw [Nat.toDigits_of_base_le hone (by omega), numberOf_concat, ih (n / base) hdiv,
          hdigit (n % base) (by omega), Nat.mul_comm, Nat.div_add_mod]

/-! ## Reading below a bound -/

/-- The number that digits denote when they are read onto `n`. -/
def numberOnto (base n : Nat) (ds : List Char) : Nat :=
  ds.foldl (fun n c => n * base + (hexDigitValue? c).getD 0) n

theorem le_numberOnto {base : Nat} (hbase : 0 < base) (n : Nat) (ds : List Char) :
    n ≤ numberOnto base n ds := by
  induction ds generalizing n with
  | nil => exact Nat.le_refl n
  | cons c ds ih =>
      have hstep : n ≤ n * base + (hexDigitValue? c).getD 0 :=
        Nat.le_trans (Nat.le_mul_of_pos_right n hbase) (Nat.le_add_right _ _)
      exact Nat.le_trans hstep (ih _)

theorem digitValue?_eq_some {base d : Nat} {c : Char} (h : digitValue? base c = some d) :
    hexDigitValue? c = some d := by
  rw [digitValue?, Option.filter_eq_some_iff] at h
  exact h.1

/-- A reader with a bound accepts digits of the base that denote a number below the bound. -/
theorem readDigits_eq_ok_iff {base bound n m : Nat} (hbase : 0 < base) (hn : n < bound)
    {ds : List Char} :
    readDigits base bound n ds = .ok m ↔
      (∀ c ∈ ds, (digitValue? base c).isSome) ∧ numberOnto base n ds = m ∧ m < bound := by
  induction ds generalizing n with
  | nil =>
      simp only [readDigits, numberOnto, List.foldl_nil, List.not_mem_nil, Except.ok.injEq]
      constructor
      · rintro rfl
        exact ⟨nofun, rfl, hn⟩
      · exact fun h => h.2.1
  | cons c ds ih =>
      rw [readDigits, List.forall_mem_cons]
      cases hvalue : digitValue? base c with
      | none => simp
      | some d =>
          have hdigit := digitValue?_eq_some hvalue
          have honto : numberOnto base n (c :: ds) = numberOnto base (n * base + d) ds := by
            simp [numberOnto, hdigit]
          rw [honto]
          by_cases hlt : n * base + d < bound
          · simp only [hlt, if_true, ih hlt, Option.isSome_some, true_and]
          · simp only [hlt, if_false]
            have hle := le_numberOnto hbase (n * base + d) ds
            constructor
            · nofun
            · rintro ⟨_, rfl, hbound⟩
              omega

/-- A numeral without a sign is its digits. -/
theorem readNumeral_of_unsigned {base bound : Nat} {ds : List Char} (hne : ds ≠ [])
    (hplus : ds.head? ≠ some '+') : readNumeral base bound ds = readDigits base bound 0 ds := by
  unfold readNumeral
  split
  · exact absurd rfl hne
  · exact absurd rfl hplus
  · exact absurd rfl hplus
  · rfl

/-- A decimal numeral has no blanks around it. -/
theorem trim_toDigits (n : Nat) : trim (Nat.toDigits 10 n) = Nat.toDigits 10 n :=
  trim_of_not_blank (forall_mem_toDigits (by decide) (by decide) n)

end RegisterMigration.Text
