import RegisterMigration.Proofs.PartialValue.Serialized
import RegisterMigration.Proofs.Text.HexBytes

/-!
# Patterns of values

A value is shown nibble by nibble.  What a nibble is shown as tells three cases apart: nothing of it is
known, all of it is, or some is and some is not.  In the first two cases the character gives the nibble
back, so values of one register and width are told apart by their patterns, as long as no `?` is in
them.

A pattern of digits alone is the value written as a number, with one digit for each nibble.  The number
of nibbles need not be even, and the digits may have room for more bits than there are, but neither
matters when a number is read.

A packed value cuts its nibbles at positions of 32 bits.  Where a nibble ends must be such a position too,
and the last nibbles of the three greatest widths end at none.  Values of these widths have no pattern.

## Main results

* `nibbleChar_cases` — what a nibble is shown as.
* `readNibble?_nibbleChar` — a nibble given back.
* `shown_of_isFullyKnown` — how a value is shown that is known.
* `pattern_pack`, `exists_pattern_iff` — the pattern of a packed value, and when there is one.
* `shownBy_shown`, `pattern_exact_iff` — all that is expected of a pattern, and when it holds.
-/

namespace RegisterMigration

namespace PartialValue

open Text

variable {v w : PartialValue} {bits : List (Option Bool)} {n : Nat}

/-! ## What a nibble is shown as -/

/-- Nothing of a nibble is known, all of it is, or some is and some is not. -/
theorem nibbleChar_cases (bits : List (Option Bool)) :
    (bits = List.replicate bits.length none ∧ nibbleChar bits = 'x') ∨
      (∃ known : List Bool, bits = known.map some ∧
        nibbleChar bits = hexDigit (Binary.ofBits known)) ∨
      ((∃ b ∈ bits, b.isSome) ∧ none ∈ bits ∧ nibbleChar bits = '?') := by
  rw [nibbleChar]
  by_cases hnone : bits.all Option.isNone = true
  · rw [if_pos hnone]
    left
    rw [List.all_eq_true] at hnone
    exact ⟨List.eq_replicate_of_mem fun b hb => Option.isNone_iff_eq_none.1 (hnone b hb), rfl⟩
  · rw [if_neg hnone]
    right
    by_cases hsome : bits.all Option.isSome = true
    · rw [if_pos hsome]
      left
      rw [List.all_eq_true] at hsome
      have hbits : bits = (bits.map (· == some true)).map some := by
        have hsame : ∀ b ∈ bits, some (b == some true) = id b := by
          intro b hb
          obtain ⟨known, rfl⟩ := Option.isSome_iff_exists.1 (hsome b hb)
          cases known <;> rfl
        rw [List.map_map]
        exact ((List.map_congr_left hsame).trans (List.map_id bits)).symm
      exact ⟨_, hbits, rfl⟩
    · rw [if_neg hsome]
      right
      simp only [List.all_eq_true, not_forall, Option.not_isSome_iff_eq_none] at hnone hsome
      obtain ⟨b, hb, hknown⟩ := hnone
      obtain ⟨missing, hmissing, rfl⟩ := hsome
      rw [Option.isNone_iff_eq_none, ← ne_eq, Option.ne_none_iff_isSome] at hknown
      exact ⟨⟨b, hb, hknown⟩, hmissing, rfl⟩

theorem hexDigit_ne_marks {d : Nat} (hd : d < 16) : hexDigit d ≠ 'x' ∧ hexDigit d ≠ '?' := by
  have hall : ∀ d < 16, hexDigit d ≠ 'x' ∧ hexDigit d ≠ '?' := by decide
  exact hall d hd

theorem ofBits_lt_sixteen {known : List Bool} (h : known.length ≤ 4) : Binary.ofBits known < 16 :=
  Nat.lt_of_lt_of_le (Binary.ofBits_lt known) (Nat.pow_le_pow_right (by decide) h)

/-- A nibble is shown as `?` if some of it is known and some is not. -/
theorem nibbleChar_eq_mark_iff (h : bits.length ≤ 4) :
    nibbleChar bits = '?' ↔ (∃ b ∈ bits, b.isSome) ∧ none ∈ bits := by
  obtain ⟨hbits, hchar⟩ | ⟨known, rfl, hchar⟩ | ⟨hknown, hmissing, hchar⟩ := nibbleChar_cases bits
  · rw [hbits] at hchar ⊢
    simp [hchar]
  · rw [List.length_map] at h
    simp [hchar, (hexDigit_ne_marks (ofBits_lt_sixteen h)).2]
  · exact iff_of_true hchar ⟨hknown, hmissing⟩

/-- The bits of a nibble that is shown as `c`, unless this leaves them open. -/
def readNibble? (length : Nat) (c : Char) : Option (List (Option Bool)) :=
  if c = 'x' then some (.replicate length none)
  else (hexDigitValue? c).map fun d => (List.range length).map fun i => some (d.testBit i)

/-- A nibble is given back by what it is shown as, unless this is `?`. -/
theorem readNibble?_nibbleChar (h : bits.length ≤ 4) (hmark : nibbleChar bits ≠ '?') :
    readNibble? bits.length (nibbleChar bits) = some bits := by
  obtain ⟨hbits, hchar⟩ | ⟨known, rfl, hchar⟩ | ⟨-, -, hchar⟩ := nibbleChar_cases bits
  · rw [hchar, readNibble?, if_pos rfl, ← hbits]
  · rw [List.length_map] at h
    have hnumber := ofBits_lt_sixteen h
    have hknown : (List.range known.length).map (fun i => some ((Binary.ofBits known).testBit i)) =
        known.map some := by
      apply List.ext_getElem?
      intro i
      by_cases hi : i < known.length
      · simp [hi, Binary.testBit_ofBits]
      · simp [hi]
    rw [hchar, readNibble?, if_neg (hexDigit_ne_marks hnumber).1, hexDigitValue?_hexDigit hnumber,
      Option.map_some, List.length_map, hknown]
  · exact absurd hchar hmark

/-! ## Nibbles of values -/

theorem length_nibble (v : PartialValue) (n : Nat) :
    (v.nibble n).length = min 4 (v.width.toNat - 4 * n) := by
  rw [nibble, List.length_map, List.length_range]

theorem length_nibble_le (v : PartialValue) (n : Nat) : (v.nibble n).length ≤ 4 := by
  rw [length_nibble]
  omega

theorem mem_nibble_iff {b : Option Bool} :
    b ∈ v.nibble n ↔ ∃ i, i / 4 = n ∧ i < v.width.toNat ∧ v.bit i = b := by
  rw [nibble, List.mem_map]
  constructor
  · rintro ⟨i, hi, hbit⟩
    rw [List.mem_range] at hi
    exact ⟨4 * n + i, by omega, by omega, hbit⟩
  · rintro ⟨i, hn, hi, hbit⟩
    refine ⟨i % 4, List.mem_range.2 (by omega), ?_⟩
    rwa [show 4 * n + i % 4 = i by omega]

theorem getElem?_nibble (v : PartialValue) (n i : Nat) :
    (v.nibble n)[i]? =
      if i < 4 ∧ 4 * n + i < v.width.toNat then some (v.bit (4 * n + i)) else none := by
  by_cases hi : i < 4 ∧ 4 * n + i < v.width.toNat
  · rw [if_pos hi, nibble, List.getElem?_map, List.getElem?_range (by omega), Option.map_some]
  · rw [if_neg hi, List.getElem?_eq_none]
    rw [length_nibble]
    omega

/-- Values of one width with the same nibbles have the same bits. -/
theorem bit_eq_of_nibble_eq (hwidth : v.width = w.width)
    (h : ∀ n < (v.width.toNat + 3) / 4, v.nibble n = w.nibble n) (i : Nat) : v.bit i = w.bit i := by
  by_cases hi : i < v.width.toNat
  · have hbits := congrArg (·[i % 4]?) (h (i / 4) (by omega))
    have hplace : i % 4 < 4 ∧ i < v.width.toNat := ⟨by omega, hi⟩
    simp only [getElem?_nibble, ← hwidth, Nat.div_add_mod, if_pos hplace] at hbits
    exact Option.some.inj hbits
  · rw [bit_eq_none_of_le (Nat.le_of_not_lt hi), bit_eq_none_of_le (hwidth ▸ Nat.le_of_not_lt hi)]

/-- The bits of a nibble that are known to be 1, as a number. -/
theorem ofBits_nibble (v : PartialValue) (n : Nat) :
    Binary.ofBits ((v.nibble n).map (· == some true)) = v.value / 16 ^ n % 16 := by
  have hpow : (16 : Nat) ^ n = 2 ^ (4 * n) := by rw [Nat.pow_mul]
  apply Nat.eq_of_testBit_eq
  intro i
  have hplace : (v.value / 2 ^ (4 * n) % 16).testBit i =
      (decide (i < 4) && (v.bit (4 * n + i) == some true)) := by
    rw [show 16 = 2 ^ 4 from rfl, Nat.testBit_mod_two_pow, Nat.testBit_div_two_pow, testBit_value,
      Nat.add_comm]
  rw [Binary.testBit_ofBits, hpow, hplace, List.getElem?_map, getElem?_nibble]
  by_cases hi : i < 4
  · by_cases hinside : 4 * n + i < v.width.toNat
    · simp [hi, hinside]
    · simp [hi, hinside, bit_eq_none_of_le (Nat.le_of_not_lt hinside)]
  · simp [hi]

/-! ## Nibbles that are shown -/

theorem toList_shown (v : PartialValue) :
    v.shown.toList =
      (List.range ((v.width.toNat + 3) / 4)).reverse.map fun n => nibbleChar (v.nibble n) :=
  String.toList_ofList

theorem length_shown (v : PartialValue) : v.shown.length = (v.width.toNat + 3) / 4 := by
  rw [← String.length_toList, toList_shown, List.length_map, List.length_reverse,
    List.length_range]

theorem mem_shown_iff {c : Char} :
    c ∈ v.shown.toList ↔ ∃ n < (v.width.toNat + 3) / 4, nibbleChar (v.nibble n) = c := by
  simp [toList_shown]

/-- There is a `?` for each nibble of which some bits are known and others are not. -/
theorem mark_mem_shown_iff :
    '?' ∈ v.shown.toList ↔
      ∃ n, (∃ i, i / 4 = n ∧ i < v.width.toNat ∧ (v.bit i).isSome) ∧
        ∃ i, i / 4 = n ∧ i < v.width.toNat ∧ v.bit i = none := by
  rw [mem_shown_iff]
  constructor
  · rintro ⟨n, -, hchar⟩
    obtain ⟨⟨b, hb, hknown⟩, hmissing⟩ := (nibbleChar_eq_mark_iff (length_nibble_le v n)).1 hchar
    obtain ⟨i, hn, hi, rfl⟩ := mem_nibble_iff.1 hb
    exact ⟨n, ⟨i, hn, hi, hknown⟩, mem_nibble_iff.1 hmissing⟩
  · rintro ⟨n, ⟨i, hn, hi, hknown⟩, hmissing⟩
    refine ⟨n, by omega, (nibbleChar_eq_mark_iff (length_nibble_le v n)).2 ⟨?_, ?_⟩⟩
    · exact ⟨v.bit i, mem_nibble_iff.2 ⟨i, hn, hi, rfl⟩, hknown⟩
    · exact mem_nibble_iff.2 hmissing

/-- Nibbles that are shown without `?` tell values of one register and width apart. -/
theorem eq_of_shown_eq (hregister : v.register = w.register) (hwidth : v.width = w.width)
    (hmark : '?' ∉ v.shown.toList) (h : v.shown = w.shown) : v = w := by
  have hchars : ∀ n < (v.width.toNat + 3) / 4, nibbleChar (v.nibble n) = nibbleChar (w.nibble n) := by
    have hlists := congrArg String.toList h
    rw [toList_shown, toList_shown, hwidth, List.map_inj_left] at hlists
    intro n hn
    apply hlists n
    rwa [List.mem_reverse, List.mem_range, ← hwidth]
  apply ext_bit hregister hwidth
  apply bit_eq_of_nibble_eq hwidth
  intro n hn
  have hshown : nibbleChar (v.nibble n) ≠ '?' := fun heq => hmark (mem_shown_iff.2 ⟨n, hn, heq⟩)
  have hv := readNibble?_nibbleChar (length_nibble_le v n) hshown
  rw [hchars n hn] at hshown hv
  have hw := readNibble?_nibbleChar (length_nibble_le w n) hshown
  rw [length_nibble, hwidth, ← length_nibble] at hv
  exact Option.some.inj (hv.symm.trans hw)

/-! ## Values that are known -/

theorem nibbleChar_of_known (hne : bits ≠ []) (h : ∀ b ∈ bits, b.isSome) :
    nibbleChar bits = hexDigit (Binary.ofBits (bits.map (· == some true))) := by
  have hnone : ¬ bits.all Option.isNone = true := by
    intro hall
    obtain ⟨b, hb⟩ := List.exists_mem_of_ne_nil bits hne
    have hboth := h b hb
    rw [Option.isNone_iff_eq_none.1 (List.all_eq_true.1 hall b hb)] at hboth
    cases hboth
  rw [nibbleChar, if_neg hnone, if_pos (List.all_eq_true.2 h)]

/-- The digits of a number, one by one. -/
theorem hexDigits_eq_map (count n : Nat) :
    hexDigits count n = (List.range count).reverse.map fun i => hexDigit (n / 16 ^ i % 16) := by
  induction count generalizing n with
  | zero => rfl
  | succ count ih =>
      rw [hexDigits, ih, List.range_succ_eq_map, List.reverse_cons, List.map_append,
        ← List.map_reverse, List.map_map]
      simp only [Nat.div_div_eq_div_mul, ← Nat.pow_succ', List.map_singleton, Nat.pow_zero,
        Nat.div_one]
      rfl

/-- A known value is shown as the digits of its number. -/
theorem shown_of_isFullyKnown (h : v.isFullyKnown) :
    v.shown = String.ofList (hexDigits ((v.width.toNat + 3) / 4) v.value) := by
  rw [shown, hexDigits_eq_map]
  congr 1
  apply List.map_congr_left
  intro n hn
  rw [List.mem_reverse, List.mem_range] at hn
  have hne : v.nibble n ≠ [] := by
    rw [← List.length_pos_iff, length_nibble]
    omega
  have hknown : ∀ b ∈ v.nibble n, b.isSome := by
    intro b hb
    obtain ⟨i, -, hi, rfl⟩ := mem_nibble_iff.1 hb
    exact isFullyKnown_iff.1 h i hi
  rw [nibbleChar_of_known hne hknown, ofBits_nibble]

/-- Read as a number, what a known value is shown as gives the bytes of the value. -/
theorem readHexBytes_shown (hwidth : 1 ≤ v.width) (h : v.isFullyKnown) :
    readHexBytes v.shown (byteLength v.width) = .ok v.valueBytes := by
  have hpos : 1 ≤ v.width.toNat := UInt32.le_iff_toNat_le.1 hwidth
  have hdigits : v.value % 16 ^ ((v.width.toNat + 3) / 4) = v.value := by
    apply Nat.mod_eq_of_lt
    calc v.value < 2 ^ v.width.toNat := value_lt v
      _ ≤ 2 ^ (4 * ((v.width.toNat + 3) / 4)) := Nat.pow_le_pow_right (by decide) (by omega)
      _ = 16 ^ ((v.width.toNat + 3) / 4) := Nat.pow_mul 2 4 _
  have hfits : v.value < 256 ^ byteLength v.width :=
    Nat.lt_of_lt_of_le (value_lt v) (two_pow_le_bytes v.width)
  rw [shown_of_isFullyKnown h, readHexBytes_hexDigits (by omega) (by rwa [hdigits]), hdigits,
    valueBytes]

/-! ## Packed values -/

theorem filter_add_lt_range (count start stop : Nat) :
    (List.range count).filter (fun i => start + i < stop) = List.range (min count (stop - start)) := by
  induction count with
  | zero => rw [Nat.zero_min]; rfl
  | succ count ih =>
      rw [List.range_succ, List.filter_append, ih]
      by_cases h : start + count < stop
      · rw [Nat.min_eq_left (show count ≤ stop - start by omega),
          Nat.min_eq_left (show count + 1 ≤ stop - start by omega), List.range_succ]
        simp [h]
      · rw [Nat.min_eq_right (show stop - start ≤ count by omega),
          Nat.min_eq_right (show stop - start ≤ count + 1 by omega)]
        simp [h]

/-- A packed value has the same nibbles, up to the last one that ends at a position of 32 bits. -/
theorem nibble_pack (v : PartialValue) (n : Nat) :
    v.pack.nibble n = ifFits (4 * n + 4 < UInt32.size) (v.nibble n) := by
  rw [PackedValue.nibble, position, map_ifFits]
  refine ifFits_congr Iff.rfl fun hfits => ?_
  rw [UInt32.size] at hfits
  have hposition : ∀ i ≤ 4, (UInt32.ofNat (4 * n + i)).toNat = 4 * n + i := by
    intro i hi
    rw [UInt32.toNat_ofNat', Nat.mod_eq_of_lt (by omega)]
  have hstart : 4 * UInt32.ofNat n = .ofNat (4 * n + 0) := (UInt32.ofNat_mul 4 n).symm
  have hinside : ∀ i ∈ List.range 4,
      ((decide <| · < v.width) ∘ UInt32.ofNat ∘ (4 * n + ·)) i = decide (4 * n + i < v.width.toNat) := by
    intro i hi
    apply decide_eq_decide.2
    rw [← hposition i (Nat.le_of_lt (List.mem_range.1 hi))]
    exact UInt32.lt_iff_toNat_lt
  rw [PackedValue.positions, hstart, hposition 4 (by omega), hposition 0 (by omega), Nat.add_zero,
    Nat.add_sub_cancel_left, List.range'_eq_map_range, List.map_map, List.filter_map, width_pack,
    List.filter_congr hinside, filter_add_lt_range, List.map_map, nibble]
  apply List.map_congr_left
  intro i hi
  rw [List.mem_range] at hi
  show v.pack.bit (.ofNat (4 * n + i)) = _
  rw [PackedValue.bit_pack, hposition i (by omega)]

/-- All nibbles end at positions of 32 bits exactly if the one of the highest bits does. -/
theorem forall_nibble_iff (width : Nat) :
    (∀ n ∈ (List.range ((width + 3) / 4)).reverse, 4 * n + 4 < UInt32.size) ↔
      width + 3 < UInt32.size := by
  rw [UInt32.size]
  constructor
  · intro hall
    rcases Nat.eq_zero_or_pos width with hzero | hpos
    · rw [hzero]
      decide
    · have hlast : (width + 3) / 4 - 1 < (width + 3) / 4 := by omega
      have hfits := hall _ (List.mem_reverse.2 (List.mem_range.2 hlast))
      omega
  · intro hfits n hn
    rw [List.mem_reverse, List.mem_range] at hn
    omega

/-- A packed value is shown as the value, and the program stops at both of them or at none. -/
theorem pattern_pack (v : PartialValue) : v.pack.pattern = v.pattern := by
  have hnibbles : ((List.range ((v.width.toNat + 3) / 4)).reverse.mapM fun n =>
      ifFits (4 * n + 4 < UInt32.size) (nibbleChar (v.nibble n))) = _ :=
    mapM_ifFits _ _
  rw [PackedValue.pattern, width_pack]
  simp only [nibble_pack, map_ifFits]
  rw [hnibbles, map_ifFits, pattern]
  exact ifFits_congr (forall_nibble_iff v.width.toNat) fun _ => rfl

/-! ## Everything about patterns -/

theorem exists_pattern_iff : (∃ s, v.pattern = .ok s) ↔ v.width.toNat + 3 < 2 ^ 32 := by
  constructor
  · rintro ⟨s, hs⟩
    exact (ifFits_eq_ok_iff.1 hs).1
  · intro hfits
    exact ⟨_, ifFits_of hfits _⟩

/-- What there is of a pattern is what shows the nibbles. -/
theorem eq_shown_of_pattern {s : String} (h : v.pattern = .ok s) : s = v.shown :=
  (ifFits_eq_ok_iff.1 h).2.symm

/-- What is expected of the pattern of a value. -/
structure ShownBy (v : PartialValue) (s : String) : Prop where
  /-- There is a character for each four bits, or what is left of them. -/
  length : s.length = (v.width.toNat + 3) / 4
  /-- A value that is known and not empty can be read back, and the bytes that are read are its own. -/
  read : 1 ≤ v.width → v.isFullyKnown → readHexBytes s (byteLength v.width) = .ok v.valueBytes
  /-- There is a `?` if some nibble has known bits and bits that are not. -/
  mark : '?' ∈ s.toList ↔
    ∃ n, (∃ i, i / 4 = n ∧ i < v.width.toNat ∧ (v.bit i).isSome) ∧
      ∃ i, i / 4 = n ∧ i < v.width.toNat ∧ v.bit i = none
  /-- Without `?`, the values of the register and width are told apart. -/
  apart : ∀ (w : PartialValue) (t : String), v.register = w.register → v.width = w.width →
    w.pattern = .ok t → '?' ∉ s.toList → '?' ∉ t.toList → (v = w ↔ s = t)

theorem shownBy_shown (v : PartialValue) : v.ShownBy v.shown where
  length := length_shown v
  read := readHexBytes_shown
  mark := mark_mem_shown_iff
  apart w t hregister hwidth ht hmark _ := by
    rw [eq_shown_of_pattern ht]
    exact ⟨congrArg shown, eq_of_shown_eq hregister hwidth hmark⟩

/-- Patterns, of values and of packed values.  A value has one, with all that is expected of it, exactly if
its width is not one of the three greatest; for these the program stops. -/
theorem pattern_exact_iff (v : PartialValue) :
    v.pack.pattern = v.pattern ∧
      ((∃ s, v.pattern = .ok s ∧ v.ShownBy s) ↔ v.width.toNat + 3 < 2 ^ 32) ∧
      (v.pattern = .error .overflow ↔ 2 ^ 32 ≤ v.width.toNat + 3) := by
  refine ⟨pattern_pack v, ⟨?_, fun hfits => ?_⟩, ?_⟩
  · rintro ⟨s, hs, -⟩
    exact exists_pattern_iff.1 ⟨s, hs⟩
  · exact ⟨v.shown, ifFits_of hfits _, shownBy_shown v⟩
  · rw [pattern, ifFits_eq_error_iff, Nat.not_lt]
    rfl

/-- Ten bits: a known value, which is read back, and two that are known in part. -/
theorem pattern_exact_iff_tenBits :
    (∃ s, (known ⟨0⟩ 10 0x2a5).pack.pattern = .ok s ∧ readHexBytes s 2 = .ok [0x02, 0xa5]) ∧
      (∃ s, (ofMask ⟨0⟩ 10 0x31f 0x205).pattern = .ok s ∧ '?' ∈ s.toList) ∧
      ofMask ⟨0⟩ 10 0x30f 0x205 ≠ ofMask ⟨0⟩ 10 0x30f 0x105 := by
  obtain ⟨hpack, hknown, -⟩ := pattern_exact_iff (known ⟨0⟩ 10 0x2a5)
  obtain ⟨-, hpart, -⟩ := pattern_exact_iff (ofMask ⟨0⟩ 10 0x31f 0x205)
  obtain ⟨-, hnibbles, -⟩ := pattern_exact_iff (ofMask ⟨0⟩ 10 0x30f 0x205)
  refine ⟨?_, ?_, ?_⟩
  · obtain ⟨s, hs, hshown⟩ := hknown.2 (by decide)
    exact ⟨s, hpack.trans hs, hshown.read (by decide) (by decide)⟩
  · obtain ⟨s, hs, hshown⟩ := hpart.2 (by decide)
    refine ⟨s, hs, hshown.mark.2 ⟨1, ⟨4, ?_⟩, ⟨5, ?_⟩⟩⟩
    · decide
    · decide
  · obtain ⟨s, hs, hshown⟩ := hnibbles.2 (by decide)
    have hpattern : (ofMask ⟨0⟩ 10 0x30f 0x205).pattern = .ok "2x5" := by decide
    obtain rfl : "2x5" = s := Except.ok.inj (hpattern.symm.trans hs)
    have hsame := hshown.apart (ofMask ⟨0⟩ 10 0x30f 0x105) "1x5" rfl rfl (by decide) (by decide)
      (by decide)
    exact mt hsame.1 (by decide)

/-- A value of the greatest width should be shown with `2 ^ 30` characters, but its last nibble ends at no
position of 32 bits, and there is no pattern. -/
theorem not_forall_shownBy : ¬ ∀ v : PartialValue, ∃ s, v.pattern = .ok s ∧ v.ShownBy s := by
  intro hall
  obtain ⟨s, hs, -⟩ := hall (unknown ⟨0⟩ 4294967295)
  have hfits := exists_pattern_iff.1 ⟨s, hs⟩
  revert hfits
  decide

end PartialValue

end RegisterMigration
