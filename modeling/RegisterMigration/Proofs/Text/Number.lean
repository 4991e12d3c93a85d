import Mathlib.Data.List.Forall2
import Mathlib.Data.Nat.Digits.Defs
import RegisterMigration.Proofs.Text.Numeral

/-!
# Numerals and the numbers they denote

A reader of numerals goes from digit to digit, gives up at the first fault, and never lets the number
grow beyond a bound.  What it accepts can be said without any of this.  A digit of a base is a character
that is written for a number below the base, small or as a capital letter.  Digits denote a number by
place value, and a numeral is one or more of them after at most one plus sign.  A text is read exactly
if it is a numeral for a number below the bound, and it does not matter how many zeros come first.

A number on the command line announces its base and may have blanks around it.  After `0x` or `0X` it
is read as hexadecimal.  A sign comes after the announcement, not before it: `0x+1f` is a number and
`+0x1f` is none.

## Main results

* `numberOf_eq_ofDigits` — reading digit by digit gives each digit its place value.
* `readNumeral_eq_ok_iff` — which texts are read as numerals below a bound.
* `digitsOf_toDigits`, `DigitsOf.zeros_append`, `DigitsOf.map_toUpper` — digits of a number.
* `numberText_iff` — the base that a text announces.
* `readNumber_exact` — which texts are read as numbers of 64 bits, and as which.
-/

namespace RegisterMigration.Text

variable {base bound n : Nat} {cs t before after : List Char}

/-! ## Digits and numerals -/

/-- A character is the digit for `d` in a base, as a small or as a capital letter. -/
def IsDigit (base : Nat) (c : Char) (d : Nat) : Prop :=
  d < base ∧ (c = d.digitChar ∨ c = d.digitChar.toUpper)

/-- One or more digits, the most significant one first, denote a number by place value. -/
def DigitsOf (base : Nat) (cs : List Char) (n : Nat) : Prop :=
  cs ≠ [] ∧ ∃ ds, List.Forall₂ (IsDigit base) cs ds ∧ Nat.ofDigits base ds.reverse = n

/-- Digits that denote a number, after at most one plus sign. -/
inductive Numeral (base : Nat) : List Char → Nat → Prop where
  | unsigned {cs : List Char} {n : Nat} (h : DigitsOf base cs n) : Numeral base cs n
  | signed {cs : List Char} {n : Nat} (h : DigitsOf base cs n) : Numeral base ('+' :: cs) n

theorem digitValue?_eq_some_iff (hbase : base ≤ 16) {c : Char} {d : Nat} :
    digitValue? base c = some d ↔ IsDigit base c d := by
  rw [digitValue?, Option.filter_eq_some_iff, decide_eq_true_eq, and_comm]
  refine and_congr_right fun hd => ?_
  constructor
  · intro hvalue
    -- Sixteen digits and their capitals are few enough to be compared one by one.
    have hsome : (hexDigitValue? c).isSome := by
      rw [hvalue]
      rfl
    have hchar := forall_digit
      (p := fun c => c = (digitOf c).digitChar ∨ c = (digitOf c).digitChar.toUpper) (by decide) hsome
    rwa [digitOf, hvalue, Option.getD_some] at hchar
  · have hall : ∀ d < 16, hexDigitValue? d.digitChar = some d ∧
        hexDigitValue? d.digitChar.toUpper = some d := by decide
    obtain ⟨hsmall, hcapital⟩ := hall d (by omega)
    rintro (rfl | rfl)
    · exact hsmall
    · exact hcapital

theorem forall₂_isDigit_iff (hbase : base ≤ 16) {ds : List Nat} :
    List.Forall₂ (IsDigit base) cs ds ↔
      (∀ c ∈ cs, (digitValue? base c).isSome) ∧ cs.map digitOf = ds := by
  induction cs generalizing ds with
  | nil => cases ds <;> simp
  | cons c cs ih =>
      rw [List.forall₂_cons_left_iff, List.forall_mem_cons, List.map_cons]
      constructor
      · rintro ⟨d, ds, hd, hds, rfl⟩
        obtain ⟨hdigits, rfl⟩ := ih.1 hds
        have hvalue := (digitValue?_eq_some_iff hbase).2 hd
        rw [hvalue, digitOf, digitValue?_eq_some hvalue]
        exact ⟨⟨rfl, hdigits⟩, rfl⟩
      · rintro ⟨⟨hc, hdigits⟩, rfl⟩
        obtain ⟨d, hd⟩ := Option.isSome_iff_exists.1 hc
        refine ⟨digitOf c, cs.map digitOf, ?_, ih.2 ⟨hdigits, rfl⟩, rfl⟩
        rw [digitOf, digitValue?_eq_some hd]
        exact (digitValue?_eq_some_iff hbase).1 hd

/-- Reading digit by digit gives each digit its place value. -/
theorem numberOf_eq_ofDigits (base : Nat) (cs : List Char) :
    numberOf base cs = Nat.ofDigits base (cs.map digitOf).reverse := by
  rw [Nat.ofDigits_eq_foldr, List.foldr_reverse, List.foldl_map, numberOf]
  congr 1
  funext n c
  rw [Nat.mul_comm, Nat.add_comm]
  rfl

theorem digitsOf_iff (hbase : base ≤ 16) :
    DigitsOf base cs n ↔
      cs ≠ [] ∧ (∀ c ∈ cs, (digitValue? base c).isSome) ∧ numberOf base cs = n := by
  rw [DigitsOf, numberOf_eq_ofDigits]
  simp only [forall₂_isDigit_iff hbase, and_assoc, exists_and_left, exists_eq_left']

theorem readDigits_eq_ok_iff_digitsOf (hpos : 0 < base) (hbase : base ≤ 16) (hbound : 0 < bound)
    (hne : cs ≠ []) : readDigits base bound 0 cs = .ok n ↔ DigitsOf base cs n ∧ n < bound := by
  rw [readDigits_eq_ok_iff hpos hbound, digitsOf_iff hbase, and_iff_right hne, and_assoc]
  rfl

/-- A sign is no digit. -/
theorem not_digitsOf_plus (hbase : base ≤ 16) : ¬ DigitsOf base ('+' :: cs) n := by
  intro h
  have hplus := ((digitsOf_iff hbase).1 h).2.1 '+' List.mem_cons_self
  rw [digitValue?] at hplus
  cases hplus

/-- A numeral is read as its number, if that is below the bound. -/
theorem readNumeral_eq_ok_iff (hpos : 0 < base) (hbase : base ≤ 16) (hbound : 0 < bound) :
    readNumeral base bound cs = .ok n ↔ Numeral base cs n ∧ n < bound := by
  have hnil : ¬ DigitsOf base [] n := fun h => h.1 rfl
  unfold readNumeral
  split
  · refine iff_of_false nofun ?_
    rintro ⟨hnumeral, -⟩
    cases hnumeral with
    | unsigned h => exact hnil h
  · refine iff_of_false nofun ?_
    rintro ⟨hnumeral, -⟩
    cases hnumeral with
    | unsigned h => exact not_digitsOf_plus hbase h
    | signed h => exact hnil h
  · rename_i c cs
    rw [readDigits_eq_ok_iff_digitsOf hpos hbase hbound (List.cons_ne_nil c cs)]
    refine and_congr_left fun _ => ⟨.signed, fun hnumeral => ?_⟩
    cases hnumeral with
    | unsigned h => exact absurd h (not_digitsOf_plus hbase)
    | signed h => exact h
  -- No sign in front, so a signed numeral could only be a sign without digits.
  · rename_i c cs hlone hplus
    rw [readDigits_eq_ok_iff_digitsOf hpos hbase hbound (List.cons_ne_nil c cs)]
    refine and_congr_left fun _ => ⟨.unsigned, fun hnumeral => ?_⟩
    cases hnumeral with
    | unsigned h => exact h
    | signed h =>
        cases cs with
        | nil => exact absurd h hnil
        | cons d ds => exact (hplus d ds rfl rfl).elim

/-- A numeral denotes one number. -/
theorem Numeral.unique {m : Nat} (hpos : 0 < base) (hbase : base ≤ 16) (hm : Numeral base cs m)
    (hn : Numeral base cs n) : m = n := by
  -- Read below a bound that neither number reaches, both are the one result.
  have hbound : 0 < m + n + 1 := Nat.succ_pos _
  have hreadm := (readNumeral_eq_ok_iff hpos hbase hbound).2 ⟨hm, by omega⟩
  have hreadn := (readNumeral_eq_ok_iff hpos hbase hbound).2 ⟨hn, by omega⟩
  exact Except.ok.inj (hreadm.symm.trans hreadn)

/-! ## Numbers that were written -/

/-- A number is written with digits that denote it. -/
theorem digitsOf_toDigits (hone : 1 < base) (hbase : base ≤ 16) (n : Nat) :
    DigitsOf base (Nat.toDigits base n) n :=
  (digitsOf_iff hbase).2 ⟨Nat.toDigits_ne_nil,
    fun _ => digitValue?_isSome_of_mem_toDigits hone hbase, numberOf_toDigits hone hbase n⟩

/-- A number that was written in decimal is read back below every bound that it stays below. -/
theorem readNumeral_toDigits (h : n < bound) :
    readNumeral 10 bound (Nat.toDigits 10 n) = .ok n := by
  have hdigits : DigitsOf 10 (Nat.toDigits 10 n) n := digitsOf_toDigits (by decide) (by decide) n
  exact (readNumeral_eq_ok_iff (by decide) (by decide) (by omega)).2 ⟨.unsigned hdigits, h⟩

/-- Zeros in front of digits count for nothing. -/
theorem DigitsOf.zeros_append (hpos : 0 < base) (h : DigitsOf base cs n) (zeros : Nat) :
    DigitsOf base (List.replicate zeros '0' ++ cs) n := by
  obtain ⟨hne, ds, hds, rfl⟩ := h
  have hzeros : List.Forall₂ (IsDigit base) (List.replicate zeros '0') (List.replicate zeros 0) := by
    induction zeros with
    | zero => exact .nil
    | succ zeros ih => exact .cons ⟨hpos, Or.inl rfl⟩ ih
  refine ⟨List.append_ne_nil_of_right_ne_nil _ hne, List.replicate zeros 0 ++ ds,
    List.rel_append hzeros hds, ?_⟩
  rw [List.reverse_append, List.reverse_replicate, Nat.ofDigits_append_replicate_zero]

/-- Digits denote the same number in capital letters. -/
theorem DigitsOf.map_toUpper (hbase : base ≤ 16) (h : DigitsOf base cs n) :
    DigitsOf base (cs.map Char.toUpper) n := by
  have hagain : ∀ d < 16, d.digitChar.toUpper.toUpper = d.digitChar.toUpper := by decide
  obtain ⟨hne, ds, hds, rfl⟩ := h
  refine ⟨List.map_eq_nil_iff.not.2 hne, ds, List.forall₂_map_left_iff.2 (hds.imp ?_), rfl⟩
  rintro c d ⟨hd, rfl | rfl⟩
  · exact ⟨hd, Or.inr rfl⟩
  · exact ⟨hd, Or.inr (hagain d (by omega))⟩

/-! ## Announced bases -/

/-- The letter after a zero that announces hexadecimal digits. -/
def IsHexMark (c : Char) : Prop :=
  c = 'x' ∨ c = 'X'

/-- A numeral for a number: hexadecimal after `0x` or `0X`, and decimal in a text that starts with
neither. -/
inductive NumberText : List Char → Nat → Prop where
  | hexadecimal {mark : Char} {cs : List Char} {n : Nat} (hmark : IsHexMark mark)
      (h : Numeral 16 cs n) : NumberText ('0' :: mark :: cs) n
  | decimal {cs : List Char} {n : Nat} (hmark : ∀ mark, IsHexMark mark → ¬ ['0', mark] <+: cs)
      (h : Numeral 10 cs n) : NumberText cs n

/-- Every text is read in the base that it announces. -/
theorem numberText_iff :
    NumberText t n ↔ Numeral (announcedBase t).1 (announcedBase t).2 n := by
  unfold announcedBase
  split
  · rename_i cs
    constructor
    · intro h
      cases h with
      | hexadecimal _ h => exact h
      | decimal hmark _ => exact absurd ⟨cs, rfl⟩ (hmark 'x' (Or.inl rfl))
    · exact .hexadecimal (Or.inl rfl)
  · rename_i cs
    constructor
    · intro h
      cases h with
      | hexadecimal _ h => exact h
      | decimal hmark _ => exact absurd ⟨cs, rfl⟩ (hmark 'X' (Or.inr rfl))
    · exact .hexadecimal (Or.inr rfl)
  · rename_i hsmall hcapital
    constructor
    · intro h
      cases h with
      | @hexadecimal mark cs n hmark h =>
          rcases hmark with rfl | rfl
          · exact absurd rfl (hsmall cs)
          · exact absurd rfl (hcapital cs)
      | decimal _ h => exact h
    · refine .decimal ?_
      rintro mark (rfl | rfl) ⟨cs, hcs⟩
      · exact hsmall cs hcs.symm
      · exact hcapital cs hcs.symm

theorem announcedBase_bounds (t : List Char) :
    0 < (announcedBase t).1 ∧ (announcedBase t).1 ≤ 16 := by
  unfold announcedBase
  split <;> simp

theorem NumberText.unique {m : Nat} (hm : NumberText t m) (hn : NumberText t n) : m = n := by
  obtain ⟨hpos, hbase⟩ := announcedBase_bounds t
  exact Numeral.unique hpos hbase (numberText_iff.1 hm) (numberText_iff.1 hn)

/-! ## Blanks -/

theorem DigitsOf.not_blank (hbase : base ≤ 16) (h : DigitsOf base cs n) :
    ∀ c ∈ cs, isBlank c = false := by
  intro c hc
  obtain ⟨d, hd⟩ := Option.isSome_iff_exists.1 (((digitsOf_iff hbase).1 h).2.1 c hc)
  apply not_isBlank_of_digit
  rw [digitValue?_eq_some hd]
  rfl

theorem Numeral.not_blank (hbase : base ≤ 16) (h : Numeral base cs n) :
    ∀ c ∈ cs, isBlank c = false := by
  cases h with
  | unsigned h => exact h.not_blank hbase
  | signed h => exact List.forall_mem_cons.2 ⟨rfl, h.not_blank hbase⟩

theorem NumberText.not_blank (h : NumberText t n) : ∀ c ∈ t, isBlank c = false := by
  cases h with
  | @hexadecimal mark cs _ hmark h =>
      have hletter : isBlank mark = false := by rcases hmark with rfl | rfl <;> rfl
      exact List.forall_mem_cons.2 ⟨rfl, List.forall_mem_cons.2 ⟨hletter, h.not_blank (by decide)⟩⟩
  | decimal _ h => exact h.not_blank (by decide)

/-! ## Numbers of 64 bits -/

/-- The numeral after the announcement of its base is read as its number, if that is below the
bound. -/
theorem readNumeral_announcedBase (hbound : 0 < bound) :
    readNumeral (announcedBase t).1 bound (announcedBase t).2 = .ok n ↔
      NumberText t n ∧ n < bound := by
  obtain ⟨hpos, hbase⟩ := announcedBase_bounds t
  rw [numberText_iff, readNumeral_eq_ok_iff hpos hbase hbound]

theorem readNumber_of_numberText {s : String} (h : NumberText (trim s.toList) n)
    (hn : n < 2 ^ 64) : readNumber s = .ok (UInt64.ofNat n) := by
  have hbound : 0 < UInt64.size := by decide
  have hread := (readNumeral_announcedBase hbound).2 ⟨h, hn⟩
  simp only [readNumber, hread]

/-- A text that is read spells the number that is read. -/
theorem numberText_of_readNumber {s : String} {m : UInt64} (h : readNumber s = .ok m) :
    NumberText (trim s.toList) m.toNat := by
  simp only [readNumber] at h
  split at h
  · rename_i n hread
    obtain ⟨hspells, hn⟩ := (readNumeral_announcedBase (by decide)).1 hread
    rw [← Except.ok.inj h, UInt64.toNat_ofNat', Nat.mod_eq_of_lt hn]
    exact hspells
  · cases h

/-- Any other text is quoted without the blanks around it. -/
theorem exists_cause_of_readNumber {s : String} (h : ∀ m, readNumber s ≠ .ok m) :
    ∃ cause, readNumber s = .error ⟨String.ofList (trim s.toList), cause⟩ := by
  simp only [readNumber] at h ⊢
  split
  · rename_i n hread
    simp only [hread] at h
    exact absurd rfl (h _)
  · rename_i cause _
    exact ⟨cause, rfl⟩

/-- The decimal and the hexadecimal spellings of a number, with zeros in front of the digits. -/
inductive SpellsNumber (n : Nat) : List Char → Prop where
  | decimal (zeros : Nat) : SpellsNumber n (List.replicate zeros '0' ++ Nat.toDigits 10 n)
  | hexadecimal {mark : Char} (hmark : IsHexMark mark) (zeros : Nat) :
      SpellsNumber n ('0' :: mark :: (List.replicate zeros '0' ++ Nat.toDigits 16 n))
  | capitals {mark : Char} (hmark : IsHexMark mark) (zeros : Nat) :
      SpellsNumber n ('0' :: mark :: (List.replicate zeros '0' ++ (upperHex n).toList))

/-- Decimal digits announce no other base. -/
theorem DigitsOf.not_mark (h : DigitsOf 10 cs n) {mark : Char} (hmark : IsHexMark mark) :
    ¬ ['0', mark] <+: cs := by
  rintro ⟨rest, rfl⟩
  have hdigit := ((digitsOf_iff (by decide)).1 h).2.1 mark (by simp)
  rcases hmark with rfl | rfl
  · exact absurd hdigit (by decide)
  · exact absurd hdigit (by decide)

theorem SpellsNumber.numberText (h : SpellsNumber n t) : NumberText t n := by
  cases h with
  | decimal zeros =>
      have hdigits : DigitsOf 10 (Nat.toDigits 10 n) n :=
        digitsOf_toDigits (by decide) (by decide) n
      have hpadded := hdigits.zeros_append (by decide) zeros
      exact .decimal (fun mark => hpadded.not_mark) (.unsigned hpadded)
  | hexadecimal hmark zeros =>
      have hdigits : DigitsOf 16 (Nat.toDigits 16 n) n :=
        digitsOf_toDigits (by decide) (by decide) n
      exact .hexadecimal hmark (.unsigned (hdigits.zeros_append (by decide) zeros))
  | capitals hmark zeros =>
      have hdigits : DigitsOf 16 (Nat.toDigits 16 n) n :=
        digitsOf_toDigits (by decide) (by decide) n
      have hcapitals := hdigits.map_toUpper (by decide)
      rw [upperHex, String.toList_ofList]
      exact .hexadecimal hmark (.unsigned (hcapitals.zeros_append (by decide) zeros))

/-- Reading a number of 64 bits.  Blanks around a text are dropped.  What is left is read exactly if it
is a numeral in the base that it announces, for a number below `2 ^ 64`, and it is read as that number;
any other text is refused with a message that quotes what is left.  So a number is read back from its
decimal and its hexadecimal spellings, with zeros in front of the digits and blanks around. -/
theorem readNumber_exact :
    (∀ s : String, ∃ t, (∀ cs, TrimsTo s.toList cs ↔ cs = t) ∧
      (∀ n, (∃ m, readNumber s = .ok m ∧ m.toNat = n) ↔ NumberText t n ∧ n < 2 ^ 64) ∧
      ((∀ n, NumberText t n → 2 ^ 64 ≤ n) →
        ∃ e, readNumber s = .error e ∧
          e.message = "invalid number '" ++ String.ofList t ++ "': " ++ e.cause.message)) ∧
    ∀ (m : UInt64) (spelling before after : List Char), SpellsNumber m.toNat spelling →
      (∀ c ∈ before, isBlank c) → (∀ c ∈ after, isBlank c) →
        readNumber (String.ofList (before ++ spelling ++ after)) = .ok m := by
  refine ⟨fun s => ⟨trim s.toList, fun cs => trimsTo_iff, fun n => ?_, fun hnone => ?_⟩, ?_⟩
  · constructor
    · rintro ⟨m, hread, rfl⟩
      exact ⟨numberText_of_readNumber hread, m.toNat_lt⟩
    · rintro ⟨hspells, hn⟩
      refine ⟨_, readNumber_of_numberText hspells hn, ?_⟩
      rw [UInt64.toNat_ofNat', Nat.mod_eq_of_lt hn]
  · have hrefused : ∀ m, readNumber s ≠ .ok m := by
      intro m hread
      have hlarge := hnone m.toNat (numberText_of_readNumber hread)
      have hword := m.toNat_lt
      omega
    obtain ⟨cause, hread⟩ := exists_cause_of_readNumber hrefused
    exact ⟨_, hread, rfl⟩
  · intro m spelling before after hspelling hbefore hafter
    have hspells := hspelling.numberText
    have htrim : trim (String.ofList (before ++ spelling ++ after)).toList = spelling := by
      rw [String.toList_ofList]
      exact trim_append hbefore hafter (bare_of_not_blank hspells.not_blank)
    rw [← htrim] at hspells
    rw [readNumber_of_numberText hspells m.toNat_lt, UInt64.ofNat_toNat]

/-- Blanks, a sign and zeros around hexadecimal digits of both cases; a number that is too large by
one; and the largest number that is not, written in capitals. -/
theorem readNumber_exact_largest :
    (∃ m, readNumber "\u2003 0X+00fFfF\n" = .ok m ∧ m.toNat = 0xffff) ∧
      (∃ e, readNumber " 18446744073709551616" = .error e ∧
        e.message = "invalid number '18446744073709551616': " ++ e.cause.message) ∧
      readNumber " 0x0FFFFFFFFFFFFFFFF" = .ok 0xffffffffffffffff := by
  obtain ⟨hreads, hwrites⟩ := readNumber_exact
  refine ⟨?_, ?_, ?_⟩
  · obtain ⟨t, htrims, hread, -⟩ := hreads "\u2003 0X+00fFfF\n"
    obtain rfl := (htrims "0X+00fFfF".toList).1 (trimsTo_iff.2 rfl)
    have hall : ∀ c ∈ "00fFfF".toList, (digitValue? 16 c).isSome := List.all_eq_true.1 (by decide)
    have hdigits : DigitsOf 16 "00fFfF".toList 0xffff :=
      (digitsOf_iff (by decide)).2 ⟨by decide, hall, by decide⟩
    exact (hread _).2 ⟨.hexadecimal (Or.inr rfl) (.signed hdigits), by decide⟩
  · obtain ⟨t, htrims, -, hrefused⟩ := hreads " 18446744073709551616"
    obtain rfl := (htrims "18446744073709551616".toList).1 (trimsTo_iff.2 rfl)
    have hspells : NumberText "18446744073709551616".toList (2 ^ 64) :=
      SpellsNumber.numberText (.decimal 0)
    exact hrefused fun n hn => Nat.le_of_eq (hspells.unique hn)
  · have hcapitals : (upperHex 0xffffffffffffffff).toList = "FFFFFFFFFFFFFFFF".toList := by
      rw [upperHex, String.toList_ofList]
      decide
    have hspells := SpellsNumber.capitals (n := 0xffffffffffffffff) (Or.inl rfl : IsHexMark 'x') 1
    rw [hcapitals] at hspells
    exact hwrites 0xffffffffffffffff _ [' '] [] hspells (List.forall_mem_singleton.2 rfl) nofun

end RegisterMigration.Text
