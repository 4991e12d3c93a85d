import RegisterMigration.Proofs.Toml.Quoted
import RegisterMigration.Toml.Document

/-!
# Written values read back

Each kind of value that is written has a first character of its own, by which the reader knows what
to expect.  A number is the one that takes some care: it could be the beginning of a date or of a
time, it could announce a base, and it could go on with a fraction or an exponent.  What follows a
value that was written is the end of a line or a comma, and neither is any of these.

## Main results

* `value?_writeString`, `value?_writeNat`, `value?_writeBool`, `value?_emptyArray`,
  `value?_writePair` — what each kind of value reads back as.
* `spells_string`, `spells_integer`, `spells_boolean`, `spells_emptyArray`, `spells_pair` — the
  same at the end of a line.
-/

namespace RegisterMigration.Toml

/-- What follows a value: the end of the line or a comma. -/
def ClosesValue (t : List Char) : Prop :=
  ∃ u, t = '\n' :: u ∨ t = ',' :: u

theorem closesValue_line (u : List Char) : ClosesValue ('\n' :: u) :=
  ⟨u, Or.inl rfl⟩

theorem closesValue_comma (u : List Char) : ClosesValue (',' :: u) :=
  ⟨u, Or.inr rfl⟩

theorem ClosesValue.startsNot {t : List Char} (h : ClosesValue t) {q : Char} (hline : q ≠ '\n')
    (hcomma : q ≠ ',') : StartsNot q t := by
  rcases h with ⟨u, rfl | rfl⟩
  · exact fun h => hline (Option.some.inj h).symm
  · exact fun h => hcomma (Option.some.inj h).symm

theorem startsNot_append {q : Char} {s t : List Char} (hs : q ∉ s) (ht : StartsNot q t) :
    StartsNot q (s ++ t) := by
  cases s with
  | nil => exact ht
  | cons c s =>
      intro h
      exact hs (by rw [Option.some.inj h]; exact List.mem_cons_self)

/-- A text that starts with neither bracket is a scalar, at any depth. -/
theorem value?_eq_scalar? {s : List Char} (hbracket : StartsNot '[' s)
    (hbrace : StartsNot '\x7b' s) (depth : Nat) : value? depth s = scalar? s := by
  unfold value?
  split
  · exact absurd rfl (hbracket.ne_cons _)
  · exact absurd rfl (hbrace.ne_cons _)
  · exact absurd rfl (hbracket.ne_cons _)
  · exact absurd rfl (hbrace.ne_cons _)
  · rfl

/-! ## Strings and booleans -/

/-- Each way of quoting starts with a quote. -/
theorem write_eq_cons (quoting : Quoting) (s : List Char) :
    ∃ q u, quoting.write s = q :: u ∧ (q = '"' ∨ q = '\'') := by
  cases quoting with
  | basic => exact ⟨_, _, rfl, Or.inl rfl⟩
  | literal => exact ⟨_, _, rfl, Or.inr rfl⟩
  | multilineBasic => exact ⟨_, _, rfl, Or.inl rfl⟩
  | multilineLiteral => exact ⟨_, _, rfl, Or.inr rfl⟩

theorem writeString_startsNot {q : Char} (hdouble : q ≠ '"') (hsingle : q ≠ '\'') (s : String)
    (t : List Char) : StartsNot q (writeString s ++ t) := by
  obtain ⟨d, u, hwrite, hquote⟩ := write_eq_cons (Quoting.choose s.toList) s.toList
  rw [writeString, hwrite]
  intro h
  rw [Option.some.inj h] at hquote
  exact hquote.elim hdouble hsingle

theorem scalar?_of_string? {q : Char} (hquote : q = '"' ∨ q = '\'') {s t cs : List Char}
    (h : string? (q :: s) = some (cs, t)) :
    scalar? (q :: s) = some (.string (String.ofList cs), t) := by
  rcases hquote with rfl | rfl
  · rw [scalar?, h]
    rfl
  · rw [scalar?, h]
    rfl

theorem value?_writeString (depth : Nat) (s : String) {t : List Char} (ht : ClosesValue t) :
    value? depth (writeString s ++ t) = some (.string s, t) := by
  have hread := string?_write_choose (ht.startsNot (by decide) (by decide))
    (ht.startsNot (by decide) (by decide)) s.toList
  rw [value?_eq_scalar? (writeString_startsNot (by decide) (by decide) s t)
    (writeString_startsNot (by decide) (by decide) s t)]
  obtain ⟨q, u, hwrite, hquote⟩ := write_eq_cons (Quoting.choose s.toList) s.toList
  rw [hwrite, List.cons_append] at hread
  rw [writeString, hwrite, List.cons_append, scalar?_of_string? hquote hread, String.ofList_toList]

theorem value?_writeBool (depth : Nat) (b : Bool) (t : List Char) :
    value? depth (writeBool b ++ t) = some (.boolean b, t) := by
  rw [value?_eq_scalar?]
  · cases b <;> rfl
  · cases b <;> simp [writeBool, StartsNot]
  · cases b <;> simp [writeBool, StartsNot]

/-! ## Numbers -/

theorem isDecimal_of_mem {n : Nat} {c : Char} (h : c ∈ Nat.toDigits 10 n) : isDecimal c :=
  Text.digitValue?_isSome_of_mem_toDigits (by decide) (by decide) h

theorem ne_of_isDecimal {c q : Char} (hc : isDecimal c) (hq : isDecimal q = false) : c ≠ q := by
  intro h
  rw [h, hq] at hc
  cases hc

theorem not_mem_toDigits {c : Char} (h : isDecimal c = false) (n : Nat) :
    c ∉ Nat.toDigits 10 n :=
  fun hmem => ne_of_isDecimal (isDecimal_of_mem hmem) h rfl

/-- Digits are followed by something that is not one of them, here by the end of the value. -/
theorem digitsTail_append {ds t : List Char} (hds : ∀ c ∈ ds, isDecimal c) (ht : ClosesValue t) :
    digitsTail isDecimal (ds ++ t) = (ds, t) := by
  induction ds with
  | nil => rcases ht with ⟨u, rfl | rfl⟩ <;> rfl
  | cons c ds ih =>
      rw [List.forall_mem_cons] at hds
      have hunderscore : c ≠ '_' := ne_of_isDecimal hds.1 rfl
      rw [List.cons_append, digitsTail, if_pos hds.1, ih hds.2]
      intro d u h
      exact absurd h hunderscore

theorem expect?_eq_none {q : Char} {s : List Char} (h : StartsNot q s) : expect? q s = none := by
  cases s with
  | nil => rfl
  | cons c s =>
      rw [expect?, if_neg]
      intro hc
      exact h (by rw [hc]; rfl)

/-- Digits of a fixed number are followed by more digits or by the end of the value. -/
theorem expect?_of_fixedDigits? {ds t s : List Char} (hds : ∀ c ∈ ds, isDecimal c)
    (ht : ClosesValue t) {k n : Nat} (h : fixedDigits? k (ds ++ t) = some (n, s)) {q : Char}
    (hq : isDecimal q = false ∧ q ≠ '\n' ∧ q ≠ ',') : expect? q s = none := by
  simp only [fixedDigits?] at h
  split at h
  · rename_i htake
    obtain ⟨hlength, hall⟩ := htake
    have hs : s = (ds ++ t).drop k := (congrArg Prod.snd (Option.some.inj h)).symm
    by_cases hk : k ≤ ds.length
    · have hnot : q ∉ ds.drop k := fun hmem =>
        ne_of_isDecimal (hds q (List.mem_of_mem_drop hmem)) hq.1 rfl
      rw [hs, List.drop_append_of_le_length hk]
      exact expect?_eq_none (startsNot_append hnot (ht.startsNot hq.2.1 hq.2.2))
    · -- More digits than there are: the character after the last one would have to be one.
      have hclose : ∃ c u, t = c :: u ∧ isDecimal c = false := by
        rcases ht with ⟨u, rfl | rfl⟩
        · exact ⟨_, _, rfl, rfl⟩
        · exact ⟨_, _, rfl, rfl⟩
      obtain ⟨c, u, rfl, hc⟩ := hclose
      have hmem : c ∈ (ds ++ c :: u).take k := by
        rw [List.take_append, List.take_cons (by omega)]
        simp
      rw [List.all_eq_true.1 hall c hmem] at hc
      cases hc
  · cases h

/-- A number is not taken for a date or a time. -/
theorem dateTime?_append {ds t : List Char} (hds : ∀ c ∈ ds, isDecimal c) (ht : ClosesValue t) :
    dateTime? (ds ++ t) = none := by
  have hdate : date? (ds ++ t) = none := by
    rw [date?]
    cases hfixed : fixedDigits? 4 (ds ++ t) with
    | none => rfl
    | some r =>
        have hexpect : expect? '-' r.2 = none :=
          expect?_of_fixedDigits? hds ht (n := r.1) hfixed (by decide)
        simp [hexpect]
  have htime : time? (ds ++ t) = none := by
    rw [time?, hourMinute?]
    cases hfixed : fixedDigits? 2 (ds ++ t) with
    | none => rfl
    | some r =>
        have hexpect : expect? ':' r.2 = none :=
          expect?_of_fixedDigits? hds ht (n := r.1) hfixed (by decide)
        simp [hexpect]
  rw [dateTime?, hdate, htime]

/-- Digits without a leading zero, up to the end of the value, are an integer. -/
theorem number?_append {c : Char} {cs t : List Char} (hcs : ∀ d ∈ c :: cs, isDecimal d)
    (hzero : c ≠ '0') (ht : ClosesValue t)
    (hbound : Text.numberOf 10 (c :: cs) < UInt64.size / 2) :
    number? (c :: cs ++ t) = some (.integer (Text.numberOf 10 (c :: cs)), t) := by
  have hdecimal := hcs c List.mem_cons_self
  have hne : ∀ q, isDecimal q = false → c ≠ q := fun q => ne_of_isDecimal hdecimal
  have hwhole : wholeDigits? (c :: cs ++ t) = some (c :: cs, t) := by
    rw [List.cons_append, wholeDigits?, digits?, if_pos hdecimal,
      digitsTail_append (fun d hd => hcs d (List.mem_cons_of_mem c hd)) ht]
    intro u h
    exact hzero (List.head_eq_of_cons_eq h)
  have hsign : sign (c :: (cs ++ t)) = (false, c :: (cs ++ t)) := by
    unfold sign
    split
    · rename_i h
      exact absurd (List.head_eq_of_cons_eq h) (hne '+' rfl)
    · rename_i h
      exact absurd (List.head_eq_of_cons_eq h) (hne '-' rfl)
    · rfl
  have hread : decimal? false (c :: cs ++ t) =
      some (.integer (Text.numberOf 10 (c :: cs)), t) := by
    rw [decimal?, hwhole]
    rcases ht with ⟨u, rfl | rfl⟩ <;>
      simp [fraction?, exponent?, integer?, hbound]
  unfold number?
  split
  · rename_i h
    exact absurd (List.head_eq_of_cons_eq h) hzero
  · rename_i h
    exact absurd (List.head_eq_of_cons_eq h) hzero
  · rename_i h
    exact absurd (List.head_eq_of_cons_eq h) hzero
  · rw [List.cons_append, hsign]
    split
    · rename_i h
      exact absurd (List.head_eq_of_cons_eq (congrArg Prod.snd h)) (hne 'i' rfl)
    · rename_i h
      exact absurd (List.head_eq_of_cons_eq (congrArg Prod.snd h)) (hne 'n' rfl)
    · rename_i h
      cases h
      exact hread

theorem number?_writeNat {n : Nat} (hn : n < UInt64.size / 2) {t : List Char}
    (ht : ClosesValue t) : number? (writeNat n ++ t) = some (.integer n, t) := by
  have hnumber : Text.numberOf 10 (Nat.toDigits 10 n) = n :=
    Text.numberOf_toDigits (by decide) (by decide) n
  rw [writeNat]
  by_cases hzero : n = 0
  · rw [hzero]
    rcases ht with ⟨u, rfl | rfl⟩ <;> rfl
  · obtain ⟨c, cs, hcons, hc⟩ := Text.toDigits_eq_cons (Nat.pos_of_ne_zero hzero)
    have hdigits : ∀ d ∈ c :: cs, isDecimal d := by
      rw [← hcons]
      exact fun d => isDecimal_of_mem
    rw [hcons] at hnumber ⊢
    rw [number?_append hdigits hc ht (by omega), hnumber]

/-- The first character of a number. -/
theorem writeNat_eq_cons (n : Nat) : ∃ c cs, writeNat n = c :: cs ∧ isDecimal c := by
  rw [writeNat]
  cases hdigits : Nat.toDigits 10 n with
  | nil => exact absurd hdigits Nat.toDigits_ne_nil
  | cons c cs => exact ⟨c, cs, rfl, isDecimal_of_mem (by rw [hdigits]; exact List.mem_cons_self)⟩

theorem value?_writeNat (depth : Nat) {n : Nat} (hn : n < UInt64.size / 2) {t : List Char}
    (ht : ClosesValue t) : value? depth (writeNat n ++ t) = some (.integer n, t) := by
  have hnumber := number?_writeNat hn ht
  have hdate : dateTime? (writeNat n ++ t) = none :=
    dateTime?_append (fun c => isDecimal_of_mem) ht
  obtain ⟨c, cs, hcons, hc⟩ := writeNat_eq_cons n
  rw [hcons, List.cons_append] at hnumber hdate ⊢
  have hne : ∀ q, isDecimal q = false → c ≠ q := fun q => ne_of_isDecimal hc
  have hnot : ∀ q, isDecimal q = false → StartsNot q (c :: (cs ++ t)) := by
    intro q hq h
    exact hne q hq (Option.some.inj h)
  rw [value?_eq_scalar? (hnot '[' rfl) (hnot '\x7b' rfl)]
  unfold scalar?
  split
  · rename_i h
    exact absurd (List.head_eq_of_cons_eq h) (hne '"' rfl)
  · rename_i h
    exact absurd (List.head_eq_of_cons_eq h) (hne '\'' rfl)
  · rename_i h
    exact absurd (List.head_eq_of_cons_eq h) (hne 't' rfl)
  · rename_i h
    exact absurd (List.head_eq_of_cons_eq h) (hne 'f' rfl)
  · rw [hdate]
    exact hnumber

/-! ## Arrays -/

theorem value?_emptyArray (depth : Nat) (t : List Char) :
    value? (depth + 1) ('[' :: ']' :: t) = some (.array [], t) := by
  rw [value?, items?]
  rfl

/-- Nothing is dropped in front of a number. -/
theorem skipFiller_writeNat (n : Nat) (t : List Char) :
    skipFiller (writeNat n ++ t) = writeNat n ++ t := by
  obtain ⟨c, cs, hcons, hc⟩ := writeNat_eq_cons n
  have hne : ∀ q, isDecimal q = false → ∀ u, c :: (cs ++ t) ≠ q :: u := by
    intro q hq u h
    exact ne_of_isDecimal hc hq (List.head_eq_of_cons_eq h)
  rw [hcons, List.cons_append, skipFiller]
  · exact fun u => hne ' ' rfl u
  · exact fun u => hne '\t' rfl u
  · exact fun u => hne '\n' rfl u
  · exact fun u => hne '\r' rfl _
  · exact fun u => hne '#' rfl u

/-- An item of an array that another one, or the end of the array, follows after a comma. -/
theorem items?_cons {value : Reader Node} {s start rest more : List Char} {v : Node}
    (hstart : skipFiller s = start) (hbracket : StartsNot ']' start)
    (hvalue : value start = some (v, rest)) (hrest : skipFiller rest = ',' :: more)
    (hlength : more.length < s.length) :
    items? value s = (items? value more).map fun (vs, rest) => (v :: vs, rest) := by
  rw [items?, hstart]
  split
  · exact absurd rfl (hbracket.ne_cons _)
  · rw [hvalue]
    simp only [hrest]
    rw [if_pos hlength]

/-- A number on a line of its own, with a comma behind it. -/
theorem items?_writeNat (depth : Nat) {n : Nat} (hn : n < UInt64.size / 2) (more : List Char) :
    items? (value? depth) ("\n    ".toList ++ (writeNat n ++ ',' :: more)) =
      (items? (value? depth) more).map fun (vs, rest) => (.integer n :: vs, rest) := by
  have hstart : skipFiller ("\n    ".toList ++ (writeNat n ++ ',' :: more)) =
      writeNat n ++ ',' :: more := skipFiller_writeNat n (',' :: more)
  have hbracket : StartsNot ']' (writeNat n ++ ',' :: more) :=
    startsNot_append (not_mem_toDigits rfl n) (by simp [StartsNot])
  have hvalue := value?_writeNat depth hn (closesValue_comma more)
  have hrest : skipFiller (',' :: more) = ',' :: more := by
    rw [skipFiller] <;> simp
  have hlength : more.length <
      ("\n    ".toList ++ (writeNat n ++ ',' :: more)).length := by
    simp only [List.length_append, List.length_cons]
    omega
  exact items?_cons hstart hbracket hvalue hrest hlength

/-- A pair of numbers is read as an array of two integers. -/
theorem value?_writePair (depth : Nat) {a b : Nat} (ha : a < UInt64.size / 2)
    (hb : b < UInt64.size / 2) (t : List Char) :
    value? (depth + 1) (writePair a b ++ t) = some (.array [.integer a, .integer b], t) := by
  have hwrite : writePair a b ++ t = '[' :: ("\n    ".toList ++ (writeNat a ++ ',' ::
      ("\n    ".toList ++ (writeNat b ++ ',' :: '\n' :: ']' :: t)))) := by
    have hopen : "[\n    ".toList = '[' :: "\n    ".toList := by decide
    have hcomma : ",\n    ".toList = ',' :: "\n    ".toList := by decide
    have hclose : ",\n]".toList = [',', '\n', ']'] := by decide
    unfold writePair
    simp only [hopen, hcomma, hclose, List.append_assoc, List.cons_append, List.nil_append]
  have hend : items? (value? depth) ('\n' :: ']' :: t) = some ([], t) := by
    rw [items?]
    rfl
  rw [hwrite, value?, items?_writeNat depth ha, items?_writeNat depth hb, hend]
  rfl

/-! ## Values on a line -/

theorem skipBlanks_of_startsNot {s : List Char} (hspace : StartsNot ' ' s)
    (htab : StartsNot '\t' s) : skipBlanks s = s := by
  unfold skipBlanks
  split
  · exact absurd rfl (hspace.ne_cons _)
  · exact absurd rfl (htab.ne_cons _)
  · rfl

/-- How a value is written on the rest of a line. -/
def Spells (v : List Char) (node : Node) : Prop :=
  ∀ t, value? (depthLimit - 1) (v ++ '\n' :: t) = some (node, '\n' :: t) ∧
    skipBlanks (v ++ '\n' :: t) = v ++ '\n' :: t

theorem spells_string (s : String) : Spells (writeString s) (.string s) := by
  intro t
  exact ⟨value?_writeString _ s (closesValue_line t),
    skipBlanks_of_startsNot (writeString_startsNot (by decide) (by decide) s _)
      (writeString_startsNot (by decide) (by decide) s _)⟩

theorem spells_integer {n : Nat} (hn : n < UInt64.size / 2) : Spells (writeNat n) (.integer n) := by
  intro t
  have hnot : ∀ q, isDecimal q = false → q ≠ '\n' → StartsNot q (writeNat n ++ '\n' :: t) := by
    intro q hq hline
    exact startsNot_append (not_mem_toDigits hq n) (by simp [StartsNot, hline.symm])
  exact ⟨value?_writeNat _ hn (closesValue_line t),
    skipBlanks_of_startsNot (hnot ' ' rfl (by decide)) (hnot '\t' rfl (by decide))⟩

theorem spells_boolean (b : Bool) : Spells (writeBool b) (.boolean b) := by
  intro t
  refine ⟨value?_writeBool _ b _, ?_⟩
  cases b <;> rfl

theorem spells_emptyArray : Spells ['[', ']'] (.array []) := by
  intro t
  exact ⟨value?_emptyArray 78 _, rfl⟩

theorem spells_pair {a b : Nat} (ha : a < UInt64.size / 2) (hb : b < UInt64.size / 2) :
    Spells (writePair a b) (.array [.integer a, .integer b]) := by
  intro t
  exact ⟨value?_writePair 78 ha hb _, rfl⟩

theorem toNat_lt_integers (n : UInt32) : n.toNat < UInt64.size / 2 := by
  have hlt := n.toNat_lt
  have hle : 2 ^ 32 ≤ UInt64.size / 2 := by decide
  omega

end RegisterMigration.Toml
