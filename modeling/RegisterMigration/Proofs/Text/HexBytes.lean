import RegisterMigration.Proofs.Binary
import RegisterMigration.Proofs.Text.Numeral

/-!
# Hexadecimal text read back

A text is read as hexadecimal in three steps: what frames the digits is taken away, the digits are
paired to bytes, and the bytes are laid out in the length that is wanted.  None of the steps changes
the number.  The digits denote it one by one, the bytes denote it two digits at a time, and zeros in
front are added or dropped without regard to it.  So the outcome is a matter of this number alone: it
is the layout of the number, if the number stays below `256 ^ length`.

The length of the text plays no role.  It may have more digits than there is room for, as long as they
are zeros.

## Main results

* `leavesPayload_iff` — the characters that are read as digits.
* `readHexBytes_eq` — the outcome, from the number that the digits denote.
* `readHexBytes_hexDigits` — a number that was written with a given number of digits reads back.
* `readHexSlices?_eq` — every slice of two digits exists and is a number.
* `readHexBytes_exact` — all of it.
-/

namespace RegisterMigration.Text

open Binary

/-! ## Digits -/

/-- One or more hexadecimal digits, of either case. -/
def HexNumeral (cs : List Char) : Prop :=
  cs ≠ [] ∧ ∀ c ∈ cs, (hexDigitValue? c).isSome

instance (cs : List Char) : Decidable (HexNumeral cs) :=
  decidable_of_iff (cs ≠ [] ∧ cs.all (fun c => (hexDigitValue? c).isSome) = true)
    (and_congr_right' List.all_eq_true)

/-! ## What frames the digits -/

/-- `0x`, written a number of times. -/
def hexMarks : Nat → List Char
  | 0 => []
  | count + 1 => '0' :: 'x' :: hexMarks count

theorem dropHexMarks_hexMarks (count : Nat) (rest : List Char) :
    dropHexMarks (hexMarks count ++ rest) = dropHexMarks rest := by
  induction count with
  | zero => rfl
  | succ count ih => exact ih

/-- Nothing is dropped from a text that does not start with `0x`. -/
theorem dropHexMarks_of_not_prefix {rest : List Char} (h : ¬ ['0', 'x'] <+: rest) :
    dropHexMarks rest = rest := by
  unfold dropHexMarks
  split
  · exact absurd ⟨_, rfl⟩ h
  · rfl

theorem exists_hexMarks_append (cs : List Char) :
    ∃ count, cs = hexMarks count ++ dropHexMarks cs ∧ ¬ ['0', 'x'] <+: dropHexMarks cs := by
  fun_induction dropHexMarks cs with
  | case1 cs ih =>
      obtain ⟨count, hcs, hrest⟩ := ih
      exact ⟨count + 1, congrArg ('0' :: 'x' :: ·) hcs, hrest⟩
  | case2 cs h =>
      refine ⟨0, rfl, ?_⟩
      rintro ⟨rest, rfl⟩
      exact h rest rfl

/-- A text consists of blanks, of `0x` any number of times, of the payload with underscores anywhere
in it, and of blanks again.  What is between the blanks is bare, and all of the `0x` are counted. -/
def LeavesPayload (s payload : List Char) : Prop :=
  ∃ before count rest after, s = before ++ (hexMarks count ++ rest) ++ after ∧
    (∀ c ∈ before, isBlank c) ∧ (∀ c ∈ after, isBlank c) ∧ Bare (hexMarks count ++ rest) ∧
      ¬ ['0', 'x'] <+: rest ∧ rest.filter (· != '_') = payload

/-- Every text leaves one payload, the characters that are read as digits. -/
theorem leavesPayload_iff {s : String} {payload : List Char} :
    LeavesPayload s.toList payload ↔ payload = hexPayload s := by
  constructor
  · rintro ⟨before, count, rest, after, hs, hbefore, hafter, hbare, hrest, rfl⟩
    rw [hexPayload, hs, trim_append hbefore hafter hbare, dropHexMarks_hexMarks,
      dropHexMarks_of_not_prefix hrest]
  · rintro rfl
    obtain ⟨hbare, before, after, hs, hbefore, hafter⟩ := trim_eq_iff.1 (Eq.refl (trim s.toList))
    obtain ⟨count, hmarks, hrest⟩ := exists_hexMarks_append (trim s.toList)
    rw [hmarks] at hbare hs
    exact ⟨before, count, _, after, hs, hbefore, hafter, hbare, hrest, rfl⟩

/-- Digits by themselves are not framed. -/
theorem hexPayload_ofList {cs : List Char} (h : ∀ c ∈ cs, (hexDigitValue? c).isSome) :
    hexPayload (String.ofList cs) = cs := by
  symm
  apply leavesPayload_iff.1
  refine ⟨[], 0, cs, [], ?_, nofun, nofun, ?_, ?_, ?_⟩
  · rw [String.toList_ofList]
    exact (List.append_nil cs).symm
  · exact ⟨fun c hc => not_isBlank_of_digit (h c (List.mem_of_mem_head? hc)),
      fun c hc => not_isBlank_of_digit (h c (List.mem_of_mem_getLast? hc))⟩
  · rintro ⟨rest, rfl⟩
    have hx := h 'x' (List.mem_cons_of_mem _ List.mem_cons_self)
    cases hx
  · apply List.filter_eq_self.2
    intro c hc
    have hdigit := h c hc
    rw [bne_iff_ne]
    rintro rfl
    cases hdigit

/-! ## The number that digits denote -/

theorem mapM_hexDigitValue? {cs : List Char} (h : ∀ c ∈ cs, (hexDigitValue? c).isSome) :
    cs.mapM hexDigitValue? = some (cs.map digitOf) := by
  induction cs with
  | nil => rfl
  | cons c cs ih =>
      obtain ⟨d, hd⟩ := Option.isSome_iff_exists.1 (h c List.mem_cons_self)
      have hvalue : digitOf c = d := by rw [digitOf, hd, Option.getD_some]
      rw [List.mapM_cons, hd, ih fun c hc => h c (List.mem_cons_of_mem _ hc), List.map_cons, hvalue]
      rfl

theorem mapM_hexDigitValue?_eq_none {cs : List Char}
    (h : ¬ ∀ c ∈ cs, (hexDigitValue? c).isSome) : cs.mapM hexDigitValue? = none := by
  induction cs with
  | nil => exact absurd nofun h
  | cons c cs ih =>
      rw [List.forall_mem_cons, not_and_or, Option.not_isSome_iff_eq_none] at h
      rw [List.mapM_cons]
      cases h with
      | inl hc => rw [hc]; rfl
      | inr hcs =>
          rw [ih hcs]
          cases hexDigitValue? c <;> rfl

/-- The number that digit values denote when they are read onto `n`. -/
def digitsOnto (n : Nat) (ds : List Nat) : Nat :=
  ds.foldl (fun n d => n * 16 + d) n

theorem numberOf_eq (cs : List Char) : numberOf 16 cs = digitsOnto 0 (cs.map digitOf) := by
  rw [digitsOnto, List.foldl_map]
  rfl

/-- Pairs of digits denote what the digits do. -/
theorem foldl_pairDigits {ds : List Nat} (hlt : ∀ d ∈ ds, d < 16) (heven : ds.length % 2 = 0)
    (n : Nat) : (pairDigits ds).foldl (fun n b => 256 * n + b.toNat) n = digitsOnto n ds := by
  induction ds using pairDigits.induct generalizing n with
  | case1 hi lo ds ih =>
      have hbyte : (UInt8.ofNat (16 * hi + lo)).toNat = 16 * hi + lo := by
        have hhi := hlt hi (by simp)
        have hlo := hlt lo (by simp)
        rw [UInt8.toNat_ofNat']
        omega
      have hstep : digitsOnto n (hi :: lo :: ds) = digitsOnto (256 * n + (16 * hi + lo)) ds := by
        show digitsOnto ((n * 16 + hi) * 16 + lo) ds = _
        congr 1
        omega
      rw [pairDigits, List.foldl_cons, hbyte, hstep]
      apply ih
      · exact fun d hd => hlt d (List.mem_cons_of_mem _ (List.mem_cons_of_mem _ hd))
      · rw [List.length_cons, List.length_cons] at heven
        omega
  | case2 ds h =>
      match ds, h with
      | [], _ => rfl
      | [d], _ => cases heven
      | hi :: lo :: ds, h => exact absurd rfl (h hi lo ds)

/-- The bytes of digits denote what the digits do; an odd digit stands alone in front. -/
theorem ofBigEndian_bytesOfDigits {ds : List Nat} (hlt : ∀ d ∈ ds, d < 16) :
    ofBigEndian (bytesOfDigits ds) = digitsOnto 0 ds := by
  rw [bytesOfDigits]
  split
  · rename_i hodd
    have hzero : digitsOnto 0 ds = digitsOnto 0 (0 :: ds) := rfl
    rw [hzero, ofBigEndian]
    apply foldl_pairDigits
    · exact List.forall_mem_cons.2 ⟨by decide, hlt⟩
    · rw [List.length_cons]
      omega
  · exact foldl_pairDigits hlt (by omega) 0

/-! ## The outcome -/

/-- Bytes fit exactly if their number does, and what they are laid out as depends on it alone. -/
theorem fitBytes_eq (length : Nat) (bytes : List UInt8) :
    fitBytes length bytes =
      if ofBigEndian bytes < 256 ^ length then some (toBigEndian length (ofBigEndian bytes))
      else none := by
  rw [fitBytes]
  by_cases hle : bytes.length ≤ length
  · have hfits : ofBigEndian bytes < 256 ^ length :=
      Nat.lt_of_lt_of_le (ofBigEndian_lt bytes) (Nat.pow_le_pow_right (by decide) hle)
    have hlayout := toBigEndian_ofBigEndian (List.replicate (length - bytes.length) 0 ++ bytes)
    rw [ofBigEndian_replicate_append, List.length_append, List.length_replicate,
      Nat.sub_add_cancel hle] at hlayout
    rw [if_pos hle, if_pos hfits, hlayout]
  · -- Bytes that are dropped in front count for nothing exactly if they are zeros.
    let extra := bytes.length - length
    have hdropped : (bytes.drop extra).length = length := by
      rw [List.length_drop]
      omega
    have hnumber : ofBigEndian bytes =
        ofBigEndian (bytes.take extra) * 256 ^ length + ofBigEndian (bytes.drop extra) := by
      rw [← hdropped, ← ofBigEndian_append, List.take_append_drop]
    have hrest : ofBigEndian (bytes.drop extra) < 256 ^ length := by
      have hlt := ofBigEndian_lt (bytes.drop extra)
      rwa [hdropped] at hlt
    rw [if_neg hle]
    by_cases hzero : ofBigEndian (bytes.take extra) = 0
    · have hall : (bytes.take extra).all (· == 0) = true := by
        simpa using ofBigEndian_eq_zero_iff.1 hzero
      have hlayout := toBigEndian_ofBigEndian (bytes.drop extra)
      rw [hzero, Nat.zero_mul, Nat.zero_add] at hnumber
      rw [hdropped] at hlayout
      rw [if_pos hall, hnumber, if_pos hrest, hlayout]
    · have hnone : ¬ (bytes.take extra).all (· == 0) = true := by
        intro hall
        exact hzero (ofBigEndian_eq_zero_iff.2 (by simpa using hall))
      have hlarge : ¬ ofBigEndian bytes < 256 ^ length := by
        have hscaled := Nat.mul_le_mul_right (256 ^ length) (Nat.pos_of_ne_zero hzero)
        omega
      rw [if_neg hnone, if_neg hlarge]

/-- A text with a payload of digits is read as the layout of its number, if this fits. -/
theorem readHexBytes_eq (s : String) (length : Nat) :
    readHexBytes s length =
      if HexNumeral (hexPayload s) then
        if numberOf 16 (hexPayload s) < 256 ^ length then
          .ok (toBigEndian length (numberOf 16 (hexPayload s)))
        else .error (.tooLong s length)
      else .error (.invalid s) := by
  rw [readHexBytes]
  cases hpayload : hexPayload s with
  | nil => rfl
  | cons c cs =>
      by_cases hdigits : ∀ d ∈ c :: cs, (hexDigitValue? d).isSome
      · have hvalues : ∀ d ∈ (c :: cs).map digitOf, d < 16 := by
          intro d hd
          obtain ⟨x, hx, rfl⟩ := List.mem_map.1 hd
          exact digitOf_lt (hdigits x hx)
        have hnumeral : HexNumeral (c :: cs) := ⟨List.cons_ne_nil c cs, hdigits⟩
        simp only [mapM_hexDigitValue? hdigits, fitBytes_eq, ofBigEndian_bytesOfDigits hvalues,
          ← numberOf_eq, if_pos hnumeral]
        split
        · rename_i bytes hbytes
          split at hbytes
          · rename_i hfits
            rw [if_pos hfits, Option.some.inj hbytes]
          · cases hbytes
        · rename_i hnone
          split at hnone
          · cases hnone
          · rename_i hlarge
            rw [if_neg hlarge]
      · have hnumeral : ¬ HexNumeral (c :: cs) := fun h => hdigits h.2
        simp only [mapM_hexDigitValue?_eq_none hdigits, if_neg hnumeral]

/-- What is read is the string of the wanted length that denotes the number. -/
theorem readHexBytes_eq_ok_iff {s : String} {length : Nat} {bytes : List UInt8} :
    readHexBytes s length = .ok bytes ↔
      HexNumeral (hexPayload s) ∧ bytes.length = length ∧
        ofBigEndian bytes = numberOf 16 (hexPayload s) := by
  rw [readHexBytes_eq]
  constructor
  · intro h
    split at h
    · rename_i hnumeral
      split at h
      · rename_i hfits
        rw [← Except.ok.inj h, length_toBigEndian, ofBigEndian_toBigEndian]
        exact ⟨hnumeral, rfl, Nat.mod_eq_of_lt hfits⟩
      · cases h
    · cases h
  · rintro ⟨hnumeral, rfl, hnumber⟩
    rw [← hnumber, if_pos hnumeral, if_pos (ofBigEndian_lt bytes), toBigEndian_ofBigEndian]

/-- The last `count` digits of a number, in lowercase. -/
def hexDigits : Nat → Nat → List Char
  | 0, _ => []
  | count + 1, n => hexDigits count (n / 16) ++ [hexDigit (n % 16)]

@[simp] theorem length_hexDigits (count n : Nat) : (hexDigits count n).length = count := by
  induction count generalizing n with
  | zero => rfl
  | succ count ih => rw [hexDigits, List.length_append, ih, List.length_singleton]

theorem isSome_of_mem_hexDigits {count n : Nat} {c : Char} (hc : c ∈ hexDigits count n) :
    (hexDigitValue? c).isSome := by
  induction count generalizing n with
  | zero => cases hc
  | succ count ih =>
      rw [hexDigits, List.mem_append, List.mem_singleton] at hc
      cases hc with
      | inl hc => exact ih hc
      | inr hc =>
          rw [hc, hexDigitValue?_hexDigit (Nat.mod_lt n (by decide))]
          rfl

/-- The last digits of a number denote it as far as they go. -/
theorem numberOf_hexDigits (count n : Nat) : numberOf 16 (hexDigits count n) = n % 16 ^ count := by
  induction count generalizing n with
  | zero => simp [hexDigits, numberOf, Nat.mod_one]
  | succ count ih =>
      rw [hexDigits, numberOf_concat, ih, hexDigitValue?_hexDigit (Nat.mod_lt n (by decide)),
        Option.getD_some, Nat.pow_succ', Nat.mod_mul]
      omega

/-- A number that was written with one or more digits reads back where it fits. -/
theorem readHexBytes_hexDigits {count n length : Nat} (hcount : count ≠ 0)
    (hfits : n % 16 ^ count < 256 ^ length) :
    readHexBytes (String.ofList (hexDigits count n)) length =
      .ok (toBigEndian length (n % 16 ^ count)) := by
  have hpayload : hexPayload (String.ofList (hexDigits count n)) = hexDigits count n :=
    hexPayload_ofList fun c => isSome_of_mem_hexDigits
  have hne : hexDigits count n ≠ [] := by
    intro hnil
    have hlength := length_hexDigits count n
    rw [hnil] at hlength
    exact hcount hlength.symm
  have hnumeral : HexNumeral (hexDigits count n) := ⟨hne, fun c => isSome_of_mem_hexDigits⟩
  rw [readHexBytes_eq, hpayload, numberOf_hexDigits, if_pos hnumeral, if_pos hfits]

/-- A text spells a number with `count` digits, in lowercase. -/
structure Spells (s : String) (count n : Nat) : Prop where
  length : s.length = count
  lowercase : ∀ c ∈ s.toList, ∃ d < 16, c = hexDigit d
  number : numberOf 16 s.toList = n

/-- Bytes are written with two digits each, which are those of their number. -/
theorem toHex_toBigEndian (length n : Nat) :
    toHex (toBigEndian length n) = String.ofList (hexDigits (2 * length) n) := by
  have hdigits : (toBigEndian length n).flatMap byteDigits = hexDigits (2 * length) n := by
    induction length generalizing n with
    | zero => rfl
    | succ length ih =>
        have hhigh : (UInt8.ofNat n).toNat / 16 = n / 16 % 16 := by
          rw [UInt8.toNat_ofNat']
          omega
        have hlow : (UInt8.ofNat n).toNat % 16 = n % 16 := by
          rw [UInt8.toNat_ofNat']
          omega
        show _ = hexDigits (2 * length + 1 + 1) n
        rw [toBigEndian, List.flatMap_append, ih, hexDigits, hexDigits, Nat.div_div_eq_div_mul,
          List.append_assoc]
        simp only [List.flatMap_singleton, byteDigits, hhigh, hlow]
        rfl
  rw [toHex, hdigits]

/-- Bytes that were written read back in their own length. -/
theorem readHexBytes_toHex {bytes : List UInt8} (hne : bytes ≠ []) :
    readHexBytes (toHex bytes) bytes.length = .ok bytes := by
  have hlt := ofBigEndian_lt bytes
  have hpow : (16 : Nat) ^ (2 * bytes.length) = 256 ^ bytes.length := by
    rw [Nat.pow_mul]
  have hmod : ofBigEndian bytes % 16 ^ (2 * bytes.length) = ofBigEndian bytes := by
    rw [hpow]
    exact Nat.mod_eq_of_lt hlt
  have hpos := List.length_pos_iff.2 hne
  rw [← toBigEndian_ofBigEndian bytes, toHex_toBigEndian, length_toBigEndian]
  rw [readHexBytes_hexDigits (by omega) (by rw [hmod]; exact hlt), hmod]

/-! ## Slices -/

theorem byteCount_eq_length {cs : List Char} (h : ∀ c ∈ cs, (hexDigitValue? c).isSome) :
    byteCount cs = cs.length := by
  induction cs with
  | nil => rfl
  | cons c cs ih =>
      rw [byteCount, ih fun d hd => h d (List.mem_cons_of_mem _ hd),
        utf8Size_of_digit (h c List.mem_cons_self), List.length_cons, Nat.add_comm]

/-- The slice of two characters of one byte each at the start of a text. -/
theorem slice?_zero_two {c d : Char} (hc : c.utf8Size = 1) (hd : d.utf8Size = 1) (cs : List Char) :
    slice? 0 2 (c :: d :: cs) = some [c, d] := by
  simp [slice?, dropBytes?, takeBytes?, hc, hd]

/-- Slices after them are slices of the rest. -/
theorem slice?_add_two {c d : Char} (hc : c.utf8Size = 1) (hd : d.utf8Size = 1) (start stop : Nat)
    (cs : List Char) : slice? (start + 2) (stop + 2) (c :: d :: cs) = slice? start stop cs := by
  have hdrop : dropBytes? (start + 2) (c :: d :: cs) = dropBytes? start cs := by
    simp [dropBytes?, hc, hd]
  rw [slice?, slice?, hdrop, Nat.add_sub_add_right]
  simp only [Nat.add_lt_add_iff_right]

/-- Two digits are a number below 256. -/
theorem byteOfText?_pair {c d : Char} (hc : (hexDigitValue? c).isSome)
    (hd : (hexDigitValue? d).isSome) :
    byteOfText? [c, d] = some (UInt8.ofNat (16 * digitOf c + digitOf d)) := by
  have hvalue : ∀ {x : Char}, (hexDigitValue? x).isSome → (digitValue? 16 x).isSome := fun hx =>
    forall_digit (p := fun x => (digitValue? 16 x).isSome = true) (by decide) hx
  have hplus : [c, d].head? ≠ some '+' := by
    intro hhead
    rw [Option.some.inj hhead] at hc
    cases hc
  have hnumber : numberOnto 16 0 [c, d] = 16 * digitOf c + digitOf d := by
    show (0 * 16 + digitOf c) * 16 + digitOf d = _
    omega
  have hbound : 16 * digitOf c + digitOf d < UInt8.size := by
    have hclt := digitOf_lt hc
    have hdlt := digitOf_lt hd
    have hsize : UInt8.size = 256 := rfl
    omega
  have hread : readNumeral 16 UInt8.size [c, d] = .ok (16 * digitOf c + digitOf d) := by
    rw [readNumeral_of_unsigned (List.cons_ne_nil c [d]) hplus,
      readDigits_eq_ok_iff (by decide) (by decide)]
    exact ⟨by simp [hvalue hc, hvalue hd], hnumber, hbound⟩
  rw [byteOfText?, hread]

/-- Cutting digits two at a time always succeeds, and gives their pairs. -/
theorem mapM_slices {cs : List Char} (h : ∀ c ∈ cs, (hexDigitValue? c).isSome) {count : Nat}
    (hlength : cs.length = 2 * count) :
    ((List.range count).mapM fun k => (slice? (2 * k) (2 * k + 2) cs).bind byteOfText?) =
      some (pairDigits (cs.map digitOf)) := by
  induction count generalizing cs with
  | zero =>
      rw [List.length_eq_zero_iff.1 hlength]
      rfl
  | succ count ih =>
      match cs, hlength with
      | c :: d :: cs, hlength =>
          have hc := h c (by simp)
          have hd := h d (by simp)
          have hshorter : cs.length = 2 * count := by
            rw [List.length_cons, List.length_cons] at hlength
            omega
          have hrest := ih (fun x hx => h x (by simp [hx])) hshorter
          have hlater : (fun k => (slice? (2 * k) (2 * k + 2) (c :: d :: cs)).bind byteOfText?) ∘
              Nat.succ = fun k => (slice? (2 * k) (2 * k + 2) cs).bind byteOfText? := by
            funext k
            show (slice? (2 * k + 2) (2 * k + 2 + 2) (c :: d :: cs)).bind byteOfText? = _
            rw [slice?_add_two (utf8Size_of_digit hc) (utf8Size_of_digit hd)]
          rw [List.range_succ_eq_map, List.mapM_cons, List.mapM_map, hlater, hrest, Nat.mul_zero,
            Nat.zero_add, slice?_zero_two (utf8Size_of_digit hc) (utf8Size_of_digit hd),
            Option.bind_some, byteOfText?_pair hc hd]
          rfl

theorem bytesOfSlices?_eq {cs : List Char} (h : ∀ c ∈ cs, (hexDigitValue? c).isSome)
    (heven : cs.length % 2 = 0) : bytesOfSlices? cs = some (pairDigits (cs.map digitOf)) := by
  rw [bytesOfSlices?, byteCount_eq_length h]
  exact mapM_slices h (by omega)

/-- Every slice exists and is a number, whatever the text and the length: reading slice by slice
always has an answer, and it is the same. -/
theorem readHexSlices?_eq (s : String) (length : Nat) :
    readHexSlices? s length = some (readHexBytes s length) := by
  rw [readHexSlices?, readHexBytes]
  cases hpayload : hexPayload s with
  | nil => rfl
  | cons c cs =>
      by_cases hdigits : ∀ d ∈ c :: cs, (hexDigitValue? d).isSome
      · have hall : (c :: cs).all (fun d => (hexDigitValue? d).isSome) = true :=
          List.all_eq_true.2 hdigits
        have hbytes : bytesOfSlices?
            (if byteCount (c :: cs) % 2 = 1 then '0' :: c :: cs else c :: cs) =
              some (bytesOfDigits ((c :: cs).map digitOf)) := by
          rw [byteCount_eq_length hdigits, bytesOfDigits, List.length_map]
          split
          · rename_i hodd
            have hpadded : ∀ d ∈ '0' :: c :: cs, (hexDigitValue? d).isSome :=
              List.forall_mem_cons.2 ⟨rfl, hdigits⟩
            apply bytesOfSlices?_eq hpadded
            rw [List.length_cons]
            omega
          · exact bytesOfSlices?_eq hdigits (by omega)
        simp only [hall, hbytes, mapM_hexDigitValue? hdigits, List.isEmpty_cons, Bool.not_true,
          Bool.or_self, Bool.false_eq_true, if_false, Option.map_some]
      · have hall : (c :: cs).all (fun d => (hexDigitValue? d).isSome) = false := by
          rw [Bool.eq_false_iff, Ne, List.all_eq_true]
          exact hdigits
        simp only [hall, mapM_hexDigitValue?_eq_none hdigits, List.isEmpty_cons, Bool.not_false,
          Bool.or_true, if_true]

/-! ## Everything about reading -/

/-- Reading hexadecimal text into a given number of bytes.  Every text leaves one payload.  The text
is accepted exactly if the payload consists of digits, one or more, that denote a number below
`256 ^ length`; it is refused as too long exactly if the number is larger, and otherwise as invalid,
with the text as it was given.  What is read has exactly the wanted length and denotes the number.
Cutting the digits into slices never fails and gives the same.  So bytes that were written read back,
if there are any. -/
theorem readHexBytes_exact :
    (∀ (s : String) (length : Nat), ∃ payload,
      (∀ cs, LeavesPayload s.toList cs ↔ cs = payload) ∧
      ((∃ bytes, readHexBytes s length = .ok bytes) ↔
        HexNumeral payload ∧ numberOf 16 payload < 256 ^ length) ∧
      (∀ bytes, readHexBytes s length = .ok bytes →
        bytes.length = length ∧ ofBigEndian bytes = numberOf 16 payload) ∧
      (∀ e, readHexBytes s length = .error e ↔
        (HexNumeral payload ∧ 256 ^ length ≤ numberOf 16 payload ∧ e = .tooLong s length) ∨
          (¬ HexNumeral payload ∧ e = .invalid s)) ∧
      readHexSlices? s length = some (readHexBytes s length)) ∧
    ∀ bytes : List UInt8, bytes ≠ [] → readHexBytes (toHex bytes) bytes.length = .ok bytes := by
  refine ⟨fun s length => ⟨hexPayload s, fun cs => leavesPayload_iff, ?_, ?_, ?_,
    readHexSlices?_eq s length⟩, fun bytes => readHexBytes_toHex⟩
  · rw [readHexBytes_eq]
    by_cases hnumeral : HexNumeral (hexPayload s)
    · by_cases hfits : numberOf 16 (hexPayload s) < 256 ^ length <;> simp [hnumeral, hfits]
    · simp [hnumeral]
  · intro bytes hread
    exact (readHexBytes_eq_ok_iff.1 hread).2
  · intro e
    rw [readHexBytes_eq]
    by_cases hnumeral : HexNumeral (hexPayload s)
    · by_cases hfits : numberOf 16 (hexPayload s) < 256 ^ length
      · simp [hnumeral, hfits]
      · simp [hnumeral, hfits, Nat.le_of_not_lt hfits, eq_comm]
    · simp [hnumeral, eq_comm]

/-- Blanks, two `0x`, underscores and zeros around an odd number of digits. -/
theorem readHexBytes_exact_framed :
    (∃ bytes, readHexBytes " 0x0x00_001_aF\n" 2 = .ok bytes ∧ ofBigEndian bytes = 0x1af) ∧
      readHexBytes " 0x0x00_001_aF\n" 1 = .error (.tooLong " 0x0x00_001_aF\n" 1) ∧
      readHexBytes (toHex [0x00, 0xab]) 2 = .ok [0x00, 0xab] := by
  have hbare : Bare (hexMarks 2 ++ "00_001_aF".toList) :=
    ⟨fun _ hc => Option.some.inj hc ▸ rfl, fun _ hc => Option.some.inj hc ▸ rfl⟩
  have hpayload : LeavesPayload " 0x0x00_001_aF\n".toList "00001aF".toList :=
    ⟨[' '], 2, "00_001_aF".toList, ['\n'], rfl, List.forall_mem_singleton.2 rfl,
      List.forall_mem_singleton.2 rfl, hbare, by decide, rfl⟩
  obtain ⟨hreads, hwrites⟩ := readHexBytes_exact
  obtain ⟨payload, hleaves, haccepts, hnumber, -, -⟩ := hreads " 0x0x00_001_aF\n" 2
  obtain ⟨payload', hleaves', -, -, hrefuses, -⟩ := hreads " 0x0x00_001_aF\n" 1
  obtain rfl := (hleaves _).1 hpayload
  obtain rfl := (hleaves' _).1 hpayload
  refine ⟨?_, (hrefuses _).2 (Or.inl (by decide)), hwrites [0x00, 0xab] (by decide)⟩
  obtain ⟨bytes, hbytes⟩ := haccepts.2 (by decide)
  exact ⟨bytes, hbytes, (hnumber bytes hbytes).2⟩

end RegisterMigration.Text
