import RegisterMigration.Json.Compact
import RegisterMigration.Proofs.Text.Numeral

/-!
# Equal compact texts, equal values

The compact text of a value has no blanks to tell its parts from each other by, but it does not
need them.  The first character of a text tells what kind of value it is.  A string goes on to the
first quote that is not escaped, an array and an object go on to the bracket after their last
item, and a number goes on as long as there are digits; what follows a value is never a digit.

So a value can be told from whatever follows it, and this is what the induction over values needs:
it is stated for a text with something after it.

## Main results

* `readChar?_escapeChar` — an escaped character is read back, and tells where it ends.
* `quote_append_inj` — a quoted string can be told from what follows it.
* `compact_injective` — equal compact texts are texts of equal values.
-/

namespace RegisterMigration.Json

/-! ## Strings -/

/-- Reads the first character of what stands inside quotes. -/
def readChar? : List Char → Option (Char × List Char)
  | '\\' :: 'b' :: cs => some ('\x08', cs)
  | '\\' :: 't' :: cs => some ('\x09', cs)
  | '\\' :: 'n' :: cs => some ('\x0a', cs)
  | '\\' :: 'f' :: cs => some ('\x0c', cs)
  | '\\' :: 'r' :: cs => some ('\x0d', cs)
  | '\\' :: 'u' :: _ :: _ :: high :: low :: cs =>
    match Text.hexDigitValue? high, Text.hexDigitValue? low with
    | some h, some l => some (Char.ofNat (16 * h + l), cs)
    | _, _ => none
  | '\\' :: c :: cs => some (c, cs)
  | c :: cs => some (c, cs)
  | [] => none

/-- An escaped character is read back, and what follows it is left. -/
theorem readChar?_escapeChar (c : Char) (cs : List Char) :
    readChar? (escapeChar c ++ cs) = some (c, cs) := by
  have hcode : ∀ n, c.toNat = n → c = Char.ofNat n := by
    intro n hn
    rw [← hn, Char.ofNat_toNat]
  unfold escapeChar
  split
  · rename_i hquote
    rw [hquote]
    rfl
  split
  · rename_i hbackslash
    rw [hbackslash]
    rfl
  rename_i hplain
  split
  · rw [hcode _ ‹_›]
    rfl
  split
  · rw [hcode _ ‹_›]
    rfl
  split
  · rw [hcode _ ‹_›]
    rfl
  split
  · rw [hcode _ ‹_›]
    rfl
  split
  · rw [hcode _ ‹_›]
    rfl
  split
  · rename_i hcontrol
    have hdigits : 16 * (c.toNat / 16) + c.toNat % 16 = c.toNat := by omega
    have hhigh := Text.hexDigitValue?_hexDigit (show c.toNat / 16 < 16 by omega)
    have hlow := Text.hexDigitValue?_hexDigit (show c.toNat % 16 < 16 by omega)
    simp only [twoDigits, List.cons_append, List.nil_append, readChar?, hhigh, hlow, hdigits,
      Char.ofNat_toNat]
  · simp [readChar?, hplain]

/-- An escaped character does not start with a quote. -/
theorem escapeChar_append_ne (c : Char) (x y : List Char) : escapeChar c ++ x ≠ '"' :: y := by
  intro h
  have hread := readChar?_escapeChar c x
  rw [h] at hread
  have hquote : '"' = c := congrArg Prod.fst (Option.some.inj hread)
  rw [← hquote] at h
  cases h

/-- What stands inside quotes ends at the first quote that is not escaped. -/
theorem flatMap_escapeChar_append_inj {cs ds x y : List Char}
    (h : cs.flatMap escapeChar ++ '"' :: x = ds.flatMap escapeChar ++ '"' :: y) :
    cs = ds ∧ x = y := by
  induction cs generalizing ds with
  | nil =>
      cases ds with
      | nil => exact ⟨rfl, List.tail_eq_of_cons_eq h⟩
      | cons d ds =>
          rw [List.flatMap_cons, List.append_assoc] at h
          exact absurd h.symm (escapeChar_append_ne _ _ _)
  | cons c cs ih =>
      rw [List.flatMap_cons, List.append_assoc] at h
      cases ds with
      | nil => exact absurd h (escapeChar_append_ne _ _ _)
      | cons d ds =>
          have hread := readChar?_escapeChar c (cs.flatMap escapeChar ++ '"' :: x)
          rw [h, List.flatMap_cons, List.append_assoc, readChar?_escapeChar] at hread
          have hpair := Prod.mk.inj (Option.some.inj hread)
          have hrest := ih hpair.2.symm
          exact ⟨by rw [hpair.1, hrest.1], hrest.2⟩

/-- A quoted string ends at its last quote, so it can be told from what follows it. -/
theorem quote_append_inj {s t : String} {x y : List Char} (h : quote s ++ x = quote t ++ y) :
    s = t ∧ x = y := by
  have hbody : s.toList.flatMap escapeChar ++ '"' :: x =
      t.toList.flatMap escapeChar ++ '"' :: y := by
    simpa [quote] using h
  have hchars := flatMap_escapeChar_append_inj hbody
  exact ⟨String.toList_inj.1 hchars.1, hchars.2⟩

/-! ## Numbers -/

/-- A text that does not start with a digit, as what follows a value. -/
def StartsNoDigit (x : List Char) : Prop :=
  ∀ c ∈ x.head?, Text.digitValue? 10 c = none

/-- Digits can be told from what follows them. -/
theorem toDigits_append_inj {m n : Nat} {x y : List Char} (hx : StartsNoDigit x)
    (hy : StartsNoDigit y) (h : Nat.toDigits 10 m ++ x = Nat.toDigits 10 n ++ y) :
    m = n ∧ x = y := by
  have htake : ∀ (k : Nat) {z : List Char}, StartsNoDigit z →
      (Nat.toDigits 10 k ++ z).takeWhile (fun c => (Text.digitValue? 10 c).isSome) =
        Nat.toDigits 10 k := by
    intro k z hz
    have hdigit : ∀ c ∈ Nat.toDigits 10 k, (Text.digitValue? 10 c).isSome := fun c =>
      Text.digitValue?_isSome_of_mem_toDigits (by decide) (by decide)
    rw [List.takeWhile_append_of_pos hdigit]
    cases z with
    | nil => simp
    | cons c z => simp [hz c rfl]
  have hdigits : Nat.toDigits 10 m = Nat.toDigits 10 n := by
    rw [← htake m hx, h, htake n hy]
  refine ⟨?_, ?_⟩
  · have hnumber : ∀ k, Text.numberOf 10 (Nat.toDigits 10 k) = k :=
      Text.numberOf_toDigits (by decide) (by decide)
    rw [← hnumber m, hdigits, hnumber n]
  · rw [hdigits] at h
    exact List.append_cancel_left h

/-! ## Values -/

/-- What kind of value a text stands for, told by its first character. -/
def kindAt (c : Char) : Nat :=
  if c = 'n' then Json.null.ctorIdx
  else if c = 't' ∨ c = 'f' then (Json.bool true).ctorIdx
  else if c = '"' then (Json.string "").ctorIdx
  else if c = '[' then (Json.array []).ctorIdx
  else if c = '\x7b' then (Json.object []).ctorIdx
  else (Json.number 0).ctorIdx

theorem compactChars_eq_cons (v : Json) :
    ∃ c cs, compactChars v = c :: cs ∧ kindAt c = v.ctorIdx ∧ c ≠ ']' := by
  cases v with
  | null => exact ⟨_, _, rfl, rfl, by decide⟩
  | bool b => cases b <;> exact ⟨_, _, rfl, rfl, by decide⟩
  | number n =>
      have hdigit : ∀ c ∈ Nat.toDigits 10 n, kindAt c = (Json.number 0).ctorIdx ∧ c ≠ ']' :=
        Text.forall_mem_toDigits (by decide) (by decide) n
      rw [compactChars]
      cases hdigits : Nat.toDigits 10 n with
      | nil => exact absurd hdigits Nat.toDigits_ne_nil
      | cons c cs => exact ⟨c, cs, rfl, hdigit c (by rw [hdigits]; exact List.mem_cons_self)⟩
  | string s => exact ⟨_, _, rfl, rfl, by decide⟩
  | array items => exact ⟨_, _, rfl, rfl, by decide⟩
  | object fields => exact ⟨_, _, rfl, rfl, by decide⟩

/-- Values with one text are of one kind. -/
theorem ctorIdx_eq_of_compactChars {v w : Json} {x y : List Char}
    (h : compactChars v ++ x = compactChars w ++ y) : v.ctorIdx = w.ctorIdx := by
  obtain ⟨c, cs, hv, hc, _⟩ := compactChars_eq_cons v
  obtain ⟨d, ds, hw, hd, _⟩ := compactChars_eq_cons w
  rw [hv, hw, List.cons_append, List.cons_append] at h
  rw [← hc, ← hd, List.head_eq_of_cons_eq h]

theorem compactChars_append_ne (v : Json) (x y : List Char) : compactChars v ++ x ≠ ']' :: y := by
  obtain ⟨c, cs, hv, _, hc⟩ := compactChars_eq_cons v
  rw [hv, List.cons_append]
  intro h
  exact hc (List.head_eq_of_cons_eq h)

/-- The text of a value can be told from what follows it, and is the text of no other value. -/
def SelfDelimiting (v : Json) : Prop :=
  ∀ (w : Json) {x y : List Char}, StartsNoDigit x → StartsNoDigit y →
    compactChars v ++ x = compactChars w ++ y → v = w ∧ x = y

/-- The items after the first one, with a comma before each. -/
def moreItems (vs : List Json) : List Char :=
  vs.flatMap fun v => ',' :: compactChars v

/-- The fields after the first one, with a comma before each. -/
def moreFields (fs : List (String × Json)) : List Char :=
  fs.flatMap fun f => ',' :: (quote f.1 ++ ':' :: compactChars f.2)

theorem compactItems_cons (v : Json) (vs : List Json) :
    compactItems (v :: vs) = compactChars v ++ moreItems vs := by
  induction vs generalizing v with
  | nil => simp [compactItems, moreItems]
  | cons w vs ih =>
      rw [compactItems, ih w]
      · simp [moreItems]
      · simp

theorem compactFields_cons (k : String) (v : Json) (fs : List (String × Json)) :
    compactFields ((k, v) :: fs) = quote k ++ ':' :: (compactChars v ++ moreFields fs) := by
  induction fs generalizing k v with
  | nil => simp [compactFields, moreFields]
  | cons f fs ih =>
      rw [compactFields, ih f.1 f.2]
      · simp [moreFields]
      · simp

theorem startsNoDigit_moreItems (vs : List Json) (x : List Char) :
    StartsNoDigit (moreItems vs ++ ']' :: x) := by
  cases vs <;> simp [StartsNoDigit, moreItems] <;> decide

theorem startsNoDigit_moreFields (fs : List (String × Json)) (x : List Char) :
    StartsNoDigit (moreFields fs ++ '\x7d' :: x) := by
  cases fs <;> simp [StartsNoDigit, moreFields] <;> decide

theorem moreItems_append_inj {vs ws : List Json} {x y : List Char}
    (hvs : ∀ v ∈ vs, SelfDelimiting v)
    (h : moreItems vs ++ ']' :: x = moreItems ws ++ ']' :: y) : vs = ws ∧ x = y := by
  induction vs generalizing ws with
  | nil =>
      cases ws with
      | nil => exact ⟨rfl, List.tail_eq_of_cons_eq h⟩
      | cons w ws => cases List.head_eq_of_cons_eq h
  | cons v vs ih =>
      cases ws with
      | nil => cases List.head_eq_of_cons_eq h
      | cons w ws =>
          rw [List.forall_mem_cons] at hvs
          have hvalues : compactChars v ++ (moreItems vs ++ ']' :: x) =
              compactChars w ++ (moreItems ws ++ ']' :: y) := by
            simpa [moreItems] using h
          have hfirst := hvs.1 w (startsNoDigit_moreItems vs x) (startsNoDigit_moreItems ws y)
            hvalues
          have hmore := ih hvs.2 hfirst.2
          exact ⟨by rw [hfirst.1, hmore.1], hmore.2⟩

theorem compactItems_append_inj {vs ws : List Json} {x y : List Char}
    (hvs : ∀ v ∈ vs, SelfDelimiting v)
    (h : compactItems vs ++ ']' :: x = compactItems ws ++ ']' :: y) : vs = ws ∧ x = y := by
  cases vs with
  | nil =>
      cases ws with
      | nil => exact ⟨rfl, List.tail_eq_of_cons_eq h⟩
      | cons w ws =>
          rw [compactItems_cons, List.append_assoc] at h
          exact absurd h.symm (compactChars_append_ne _ _ _)
  | cons v vs =>
      rw [List.forall_mem_cons] at hvs
      rw [compactItems_cons, List.append_assoc] at h
      cases ws with
      | nil => exact absurd h (compactChars_append_ne _ _ _)
      | cons w ws =>
          rw [compactItems_cons, List.append_assoc] at h
          have hfirst := hvs.1 w (startsNoDigit_moreItems vs x) (startsNoDigit_moreItems ws y) h
          have hmore := moreItems_append_inj hvs.2 hfirst.2
          exact ⟨by rw [hfirst.1, hmore.1], hmore.2⟩

/-- A key and a value can be told from what follows them. -/
theorem field_append_inj {k l : String} {v w : Json} {x y : List Char} (hv : SelfDelimiting v)
    (hx : StartsNoDigit x) (hy : StartsNoDigit y)
    (h : quote k ++ ':' :: (compactChars v ++ x) = quote l ++ ':' :: (compactChars w ++ y)) :
    (k, v) = (l, w) ∧ x = y := by
  have hkeys := quote_append_inj h
  have hvalues := hv w hx hy (List.tail_eq_of_cons_eq hkeys.2)
  exact ⟨by rw [hkeys.1, hvalues.1], hvalues.2⟩

theorem moreFields_append_inj {fs gs : List (String × Json)} {x y : List Char}
    (hfs : ∀ f ∈ fs, SelfDelimiting f.2)
    (h : moreFields fs ++ '\x7d' :: x = moreFields gs ++ '\x7d' :: y) : fs = gs ∧ x = y := by
  induction fs generalizing gs with
  | nil =>
      cases gs with
      | nil => exact ⟨rfl, List.tail_eq_of_cons_eq h⟩
      | cons g gs => cases List.head_eq_of_cons_eq h
  | cons f fs ih =>
      cases gs with
      | nil => cases List.head_eq_of_cons_eq h
      | cons g gs =>
          rw [List.forall_mem_cons] at hfs
          have hfields : quote f.1 ++ ':' :: (compactChars f.2 ++ (moreFields fs ++ '\x7d' :: x)) =
              quote g.1 ++ ':' :: (compactChars g.2 ++ (moreFields gs ++ '\x7d' :: y)) := by
            simpa [moreFields] using h
          have hfirst := field_append_inj hfs.1 (startsNoDigit_moreFields fs x)
            (startsNoDigit_moreFields gs y) hfields
          have hmore := ih hfs.2 hfirst.2
          exact ⟨by rw [show f = g from hfirst.1, hmore.1], hmore.2⟩

theorem compactFields_append_inj {fs gs : List (String × Json)} {x y : List Char}
    (hfs : ∀ f ∈ fs, SelfDelimiting f.2)
    (h : compactFields fs ++ '\x7d' :: x = compactFields gs ++ '\x7d' :: y) :
    fs = gs ∧ x = y := by
  cases fs with
  | nil =>
      cases gs with
      | nil => exact ⟨rfl, List.tail_eq_of_cons_eq h⟩
      | cons g gs =>
          rw [compactFields_cons] at h
          cases List.head_eq_of_cons_eq h
  | cons f fs =>
      rw [List.forall_mem_cons] at hfs
      rw [compactFields_cons] at h
      cases gs with
      | nil => cases List.head_eq_of_cons_eq h
      | cons g gs =>
          rw [compactFields_cons] at h
          simp only [List.append_assoc, List.cons_append] at h
          have hfirst := field_append_inj hfs.1 (startsNoDigit_moreFields fs x)
            (startsNoDigit_moreFields gs y) h
          have hmore := moreFields_append_inj hfs.2 hfirst.2
          exact ⟨by rw [show f = g from hfirst.1, hmore.1], hmore.2⟩

theorem selfDelimiting_null : SelfDelimiting null := by
  intro w x y _ _ h
  have hkind := ctorIdx_eq_of_compactChars h
  cases w with
  | null => exact ⟨rfl, List.append_cancel_left h⟩
  | bool | number | string | array | object => cases hkind

theorem selfDelimiting_bool (b : Bool) : SelfDelimiting (bool b) := by
  intro w x y _ _ h
  have hkind := ctorIdx_eq_of_compactChars h
  cases w with
  | bool c => cases b <;> cases c <;> simp_all [compactChars]
  | null | number | string | array | object => cases hkind

theorem selfDelimiting_number (m : Nat) : SelfDelimiting (number m) := by
  intro w x y hx hy h
  have hkind := ctorIdx_eq_of_compactChars h
  cases w with
  | number n =>
      have hnumbers := toDigits_append_inj hx hy h
      exact ⟨congrArg number hnumbers.1, hnumbers.2⟩
  | null | bool | string | array | object => cases hkind

theorem selfDelimiting_string (s : String) : SelfDelimiting (string s) := by
  intro w x y _ _ h
  have hkind := ctorIdx_eq_of_compactChars h
  cases w with
  | string t =>
      have hstrings := quote_append_inj h
      exact ⟨congrArg string hstrings.1, hstrings.2⟩
  | null | bool | number | array | object => cases hkind

theorem selfDelimiting_array {vs : List Json} (hvs : ∀ v ∈ vs, SelfDelimiting v) :
    SelfDelimiting (array vs) := by
  intro w x y _ _ h
  have hkind := ctorIdx_eq_of_compactChars h
  cases w with
  | array ws =>
      have hbody : compactItems vs ++ ']' :: x = compactItems ws ++ ']' :: y := by
        simpa [compactChars] using h
      have hitems := compactItems_append_inj hvs hbody
      exact ⟨congrArg array hitems.1, hitems.2⟩
  | null | bool | number | string | object => cases hkind

theorem selfDelimiting_object {fs : List (String × Json)}
    (hfs : ∀ f ∈ fs, SelfDelimiting f.2) : SelfDelimiting (object fs) := by
  intro w x y _ _ h
  have hkind := ctorIdx_eq_of_compactChars h
  cases w with
  | object gs =>
      have hbody : compactFields fs ++ '\x7d' :: x = compactFields gs ++ '\x7d' :: y := by
        simpa [compactChars] using h
      have hfields := compactFields_append_inj hfs hbody
      exact ⟨congrArg object hfields.1, hfields.2⟩
  | null | bool | number | string | array => cases hkind

/-- Every value can be told from what follows it. -/
theorem selfDelimiting : ∀ v : Json, SelfDelimiting v
  | null => selfDelimiting_null
  | bool b => selfDelimiting_bool b
  | number n => selfDelimiting_number n
  | string s => selfDelimiting_string s
  | array vs => selfDelimiting_array fun v _ => selfDelimiting v
  | object fs => selfDelimiting_object fun f _ => selfDelimiting f.2
termination_by v => sizeOf v
decreasing_by
  · have hlt := List.sizeOf_lt_of_mem ‹v ∈ vs›
    rw [array.sizeOf_spec]
    omega
  · have hlt := List.sizeOf_lt_of_mem ‹f ∈ fs›
    have hfield : sizeOf f = 1 + sizeOf f.1 + sizeOf f.2 := rfl
    rw [object.sizeOf_spec]
    omega

/-- Equal compact texts are texts of equal values. -/
theorem compact_injective : Function.Injective compact := by
  intro v w h
  have hchars : compactChars v ++ [] = compactChars w ++ [] := by
    rw [List.append_nil, List.append_nil]
    exact String.ofList_injective h
  have hend : StartsNoDigit [] := by simp [StartsNoDigit]
  exact (selfDelimiting v w hend hend hchars).1

end RegisterMigration.Json
