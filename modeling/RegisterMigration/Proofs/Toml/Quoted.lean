import RegisterMigration.Proofs.Text.Numeral
import RegisterMigration.Toml.Quoted
import RegisterMigration.Toml.Spelling

/-!
# Quoted strings read back

A string is written in one of four ways, and each has its own reader.  Between double quotes the
readers undo one escape at a time.  Between single quotes nothing is escaped, so what the text may
not hold decides: no single quote on one line, no three in a row on several.

With three quotes on either side a quote may stand in the text, one or two in a row, also directly
before the end.  The end is then a run of up to five quotes, of which the reader takes the first
three as the end and gives the others back to the text; any other quote that it meets is followed
by something else before two more quotes.

## Main results

* `escapeChar_cases` — an escaped character is a character that the readers take, or an escape that
  stands for it.
* `basic?_basicBody`, `multilineBasic?_basicBody`, `literal?_append`, `multilineLiteral?_append` —
  the four readers.
* `string?_write_choose` — a string reads back, in whichever quotes it was written.
-/

namespace RegisterMigration.Toml

/-! ## Escapes -/

theorem numberOf_hexDigits {n : Nat} (h : n < 256) :
    Text.numberOf 16 ('0' :: '0' :: (Json.twoDigits n).map Char.toUpper) = n := by
  have hhigh := Text.hexDigitValue?_toUpper_hexDigit (show n / 16 < 16 by omega)
  have hlow := Text.hexDigitValue?_toUpper_hexDigit (show n % 16 < 16 by omega)
  have hzero : Text.hexDigitValue? '0' = some 0 := rfl
  simp [Text.numberOf, Json.twoDigits, hhigh, hlow, hzero]
  omega

/-- A code point in four digits is read back. -/
theorem codePoint?_twoDigits {c : Char} (h : c.toNat < 256) (t : List Char) :
    codePoint? 4 ('0' :: '0' :: (Json.twoDigits c.toNat).map Char.toUpper ++ t) =
      some (c, t) := by
  have hhigh := Text.hexDigitValue?_toUpper_hexDigit (show c.toNat / 16 < 16 by omega)
  have hlow := Text.hexDigitValue?_toUpper_hexDigit (show c.toNat % 16 < 16 by omega)
  have hzero : Text.hexDigitValue? '0' = some 0 := rfl
  have hnumber := numberOf_hexDigits h
  have hvalid : c.toNat.isValidChar := c.valid
  simp only [Json.twoDigits, List.map_cons, List.map_nil] at hnumber
  simp [codePoint?, Json.twoDigits, hhigh, hlow, hzero, hnumber, hvalid, Char.ofNat_toNat]

/-- An escaped character is a character that strings may hold, or a backslash and an escape that
stands for it and is not taken for the end of a line. -/
theorem escapeChar_cases (c : Char) :
    (escapeChar c = [c] ∧ c ≠ '\\' ∧ isTextChar c) ∨
      ∃ e, escapeChar c = '\\' :: e ∧
        ∀ t, escape? (e ++ t) = some (c, t) ∧ escapedLineBreak? (e ++ t) = none := by
  have hcode : ∀ n, c.toNat = n → c = Char.ofNat n := by
    intro n hn
    rw [← hn, Char.ofNat_toNat]
  unfold escapeChar
  split
  · rename_i hbackslash
    exact Or.inr ⟨_, rfl, fun t => ⟨by rw [hbackslash]; rfl, rfl⟩⟩
  rename_i hbackslash
  split
  · rename_i htab
    exact Or.inr ⟨_, rfl, fun t => ⟨by rw [htab]; rfl, rfl⟩⟩
  split
  · rename_i hreturn
    exact Or.inr ⟨_, rfl, fun t => ⟨by rw [hreturn]; rfl, rfl⟩⟩
  split
  · rename_i hback
    exact Or.inr ⟨_, rfl, fun t => ⟨by rw [hcode _ hback]; rfl, rfl⟩⟩
  split
  · rename_i hfeed
    exact Or.inr ⟨_, rfl, fun t => ⟨by rw [hcode _ hfeed]; rfl, rfl⟩⟩
  split
  · rename_i hcontrol
    refine Or.inr ⟨_, rfl, fun t => ⟨?_, rfl⟩⟩
    exact codePoint?_twoDigits (by omega) t
  · rename_i hplain
    refine Or.inl ⟨rfl, hbackslash, ?_⟩
    simp only [isTextChar, Bool.or_eq_true, Bool.and_eq_true, decide_eq_true_eq, bne_iff_ne]
    omega

theorem ne_return_of_isTextChar {c : Char} (h : isTextChar c) : c ≠ '\r' := by
  intro hc
  rw [hc] at h
  cases h

/-! ## One double quote -/

theorem basic?_end (t : List Char) : basic? ('"' :: t) = some ([], t) := by
  rw [basic?]

theorem basic?_escape {c : Char} {s t : List Char} (h : escape? s = some (c, t)) :
    basic? ('\\' :: s) = (basic? t).map fun (cs, rest) => (c :: cs, rest) := by
  rw [basic?]
  split
  · rename_i hnone
    rw [h] at hnone
    cases hnone
  · rename_i d u hsome
    rw [h] at hsome
    cases hsome
    rfl

theorem basic?_plain {c : Char} (hquote : c ≠ '"') (hbackslash : c ≠ '\\') (htext : isTextChar c)
    (s : List Char) :
    basic? (c :: s) = (basic? s).map fun (cs, rest) => (c :: cs, rest) := by
  rw [basic?]
  · rw [if_pos htext]
  · exact hquote
  · exact hbackslash

/-- What was written between double quotes is read back. -/
theorem basic?_basicBody (run : Nat) (s t : List Char) :
    basic? (basicBody false 0 run s ++ '"' :: t) = some (s, t) := by
  induction s generalizing run with
  | nil => exact basic?_end t
  | cons c s ih =>
      rw [basicBody]
      by_cases hquote : c = '"'
      · rw [if_pos hquote, if_neg (Nat.not_lt_zero run), List.cons_append, List.cons_append,
          basic?_escape rfl, ih, hquote]
        rfl
      · rw [if_neg hquote]
        by_cases hline : c = '\n'
        · rw [if_pos hline]
          simp only [Bool.false_eq_true, if_false, List.cons_append, List.nil_append]
          rw [basic?_escape rfl, ih, hline]
          rfl
        · rw [if_neg hline, List.append_assoc]
          rcases escapeChar_cases c with ⟨hself, hbackslash, htext⟩ | ⟨e, hescape, hread⟩
          · rw [hself, List.singleton_append, basic?_plain hquote hbackslash htext, ih]
            rfl
          · rw [hescape, List.cons_append, basic?_escape (hread _).1, ih]
            rfl

/-! ## Three double quotes -/

/-- A text that does not start with a certain character. -/
def StartsNot (q : Char) (t : List Char) : Prop :=
  t.head? ≠ some q

theorem StartsNot.ne_cons {q : Char} {t : List Char} (h : StartsNot q t) (u : List Char) :
    t ≠ q :: u := by
  intro ht
  exact h (congrArg List.head? ht)

theorem quotesBeforeEnd_of_startsNot {q : Char} {t : List Char} (ht : StartsNot q t) :
    quotesBeforeEnd q t = ([], t) ∧ quotesBeforeEnd q (q :: t) = ([q], t) ∧
      quotesBeforeEnd q (q :: q :: t) = ([q, q], t) := by
  cases t with
  | nil => simp [quotesBeforeEnd]
  | cons c t =>
      have hc : c ≠ q := fun h => ht (congrArg some h)
      cases t <;> simp [quotesBeforeEnd, hc]

theorem multilineBasic?_end (t : List Char) :
    multilineBasic? ('"' :: '"' :: '"' :: t) = some (quotesBeforeEnd '"' t) := by
  rw [multilineBasic?]

theorem multilineBasic?_escape {c : Char} {s t : List Char} (hline : escapedLineBreak? s = none)
    (h : escape? s = some (c, t)) :
    multilineBasic? ('\\' :: s) =
      (multilineBasic? t).map fun (cs, rest) => (c :: cs, rest) := by
  rw [multilineBasic?]
  split
  · rename_i rest hsome
    rw [hline] at hsome
    cases hsome
  · split
    · rename_i hnone
      rw [h] at hnone
      cases hnone
    · rename_i d u hsome
      rw [h] at hsome
      cases hsome
      rfl

/-- A character stands for itself, a quote too unless two more follow. -/
theorem multilineBasic?_plain {c : Char} {s : List Char}
    (hquotes : ∀ t, c :: s ≠ '"' :: '"' :: '"' :: t) (hbackslash : c ≠ '\\') (hreturn : c ≠ '\r')
    (htext : isTextChar c || c == '\n') :
    multilineBasic? (c :: s) = (multilineBasic? s).map fun (cs, rest) => (c :: cs, rest) := by
  rw [multilineBasic?]
  · rw [if_pos htext]
  · intro t hc hs
    exact hquotes t (by rw [hc, hs])
  · exact hbackslash
  · intro t hc
    exact absurd hc hreturn

/-- The inside of a string starts with the first character of the text, unless that is escaped. -/
theorem basicBody_eq_cons (lines : Bool) (allowed run : Nat) (c : Char) (s : List Char) :
    ∃ d ds, basicBody lines allowed run (c :: s) = d :: ds ∧
      (d = '\\' ∨ (d = c ∧ c ≠ '\r' ∧ (c = '"' → run < allowed))) := by
  rw [basicBody]
  by_cases hquote : c = '"'
  · rw [if_pos hquote]
    by_cases hrun : run < allowed
    · rw [if_pos hrun]
      exact ⟨_, _, rfl, Or.inr ⟨hquote.symm, by rw [hquote]; decide, fun _ => hrun⟩⟩
    · rw [if_neg hrun]
      exact ⟨_, _, rfl, Or.inl rfl⟩
  · rw [if_neg hquote]
    by_cases hline : c = '\n'
    · rw [if_pos hline]
      cases lines with
      | false => exact ⟨_, _, rfl, Or.inl rfl⟩
      | true =>
          exact ⟨_, _, rfl,
            Or.inr ⟨hline.symm, by rw [hline]; decide, fun h => absurd h hquote⟩⟩
    · rw [if_neg hline]
      rcases escapeChar_cases c with ⟨hself, _, htext⟩ | ⟨e, hescape, _⟩
      · rw [hself]
        exact ⟨_, _, rfl, Or.inr ⟨rfl, ne_return_of_isTextChar htext, fun h => absurd h hquote⟩⟩
      · rw [hescape]
        exact ⟨_, _, rfl, Or.inl rfl⟩

/-- The inside of a string starts with a quote only where quotes are allowed. -/
theorem basicBody_startsNot {allowed run : Nat} {c : Char} (hrun : allowed ≤ run ∨ c ≠ '"')
    (lines : Bool) (s t : List Char) :
    StartsNot '"' (basicBody lines allowed run (c :: s) ++ t) := by
  obtain ⟨d, ds, hbody, hfirst⟩ := basicBody_eq_cons lines allowed run c s
  rw [hbody]
  intro h
  have hd : d = '"' := Option.some.inj h
  rw [hd] at hfirst
  rcases hfirst with hescape | ⟨hc, _, hallowed⟩
  · cases hescape
  · have hlt := hallowed hc.symm
    rcases hrun with hrun | hrun
    · omega
    · exact hrun hc.symm

/-- The inside of a string starts with two quotes at most where two are allowed. -/
theorem basicBody_ne_cons_cons {run : Nat} {d : Char} {s : List Char}
    (hlast : ¬ (d = '"' ∧ run = 0 ∧ s = [])) (t u : List Char) :
    basicBody true 2 (run + 1) (d :: s) ++ t ≠ '"' :: '"' :: u := by
  by_cases hd : d = '"' ∧ run = 0
  · rw [hd.1, hd.2, basicBody, if_pos rfl, if_pos (by decide), List.cons_append]
    intro h
    cases s with
    | nil => exact hlast ⟨hd.1, hd.2, rfl⟩
    | cons e s =>
        have hrest := List.tail_eq_of_cons_eq h
        exact (basicBody_startsNot (Or.inl (Nat.le_refl 2)) true s t).ne_cons u hrest
  · have hfirst : 2 ≤ run + 1 ∨ d ≠ '"' := by
      by_cases hquote : d = '"'
      · have hrun : run ≠ 0 := fun h => hd ⟨hquote, h⟩
        exact Or.inl (by omega)
      · exact Or.inr hquote
    exact (basicBody_startsNot hfirst true s t).ne_cons _

/-- A quote that is not escaped belongs to the end of the string if one or two quotes are all that
is left of the text, and stands for itself otherwise. -/
theorem multilineBasic?_quote {t : List Char} (ht : StartsNot '"' t) {run : Nat} {s : List Char}
    (hrest : multilineBasic? (basicBody true 2 (run + 1) s ++ '"' :: '"' :: '"' :: t) =
      some (s, t)) :
    multilineBasic? ('"' :: (basicBody true 2 (run + 1) s ++ '"' :: '"' :: '"' :: t)) =
      some ('"' :: s, t) := by
  have hend := quotesBeforeEnd_of_startsNot ht
  cases s with
  | nil => rw [basicBody, List.nil_append, multilineBasic?_end, hend.2.1]
  | cons d s =>
      by_cases hlast : d = '"' ∧ run = 0 ∧ s = []
      · rw [hlast.1, hlast.2.1, hlast.2.2]
        show multilineBasic? ('"' :: '"' :: '"' :: '"' :: '"' :: t) = some (['"', '"'], t)
        rw [multilineBasic?_end, hend.2.2]
      · have hquotes : ∀ u, '"' :: (basicBody true 2 (run + 1) (d :: s) ++ '"' :: '"' :: '"' :: t) ≠
            '"' :: '"' :: '"' :: u := by
          intro u h
          exact basicBody_ne_cons_cons hlast _ u (List.tail_eq_of_cons_eq h)
        rw [multilineBasic?_plain hquotes (by decide) (by decide) (by decide), hrest]
        rfl

/-- What was written between three double quotes is read back. -/
theorem multilineBasic?_basicBody {t : List Char} (ht : StartsNot '"' t) (run : Nat)
    (s : List Char) :
    multilineBasic? (basicBody true 2 run s ++ '"' :: '"' :: '"' :: t) = some (s, t) := by
  induction s generalizing run with
  | nil => rw [basicBody, List.nil_append, multilineBasic?_end, (quotesBeforeEnd_of_startsNot ht).1]
  | cons c s ih =>
      rw [basicBody]
      by_cases hquote : c = '"'
      · rw [if_pos hquote, hquote]
        by_cases hrun : run < 2
        · rw [if_pos hrun]
          exact multilineBasic?_quote ht (ih (run + 1))
        · rw [if_neg hrun, List.cons_append, List.cons_append, multilineBasic?_escape rfl rfl, ih]
          rfl
      · have hquotes : ∀ u v, c :: u ≠ '"' :: v := by
          intro u v h
          exact hquote (List.head_eq_of_cons_eq h)
        rw [if_neg hquote]
        by_cases hline : c = '\n'
        · rw [if_pos hline]
          simp only [if_true, List.cons_append, List.nil_append]
          rw [← hline, multilineBasic?_plain (fun u => hquotes _ _), ih]
          · rfl
          all_goals rw [hline]; decide
        · rw [if_neg hline, List.append_assoc]
          rcases escapeChar_cases c with ⟨hself, hbackslash, htext⟩ | ⟨e, hescape, hread⟩
          · have hreturn := ne_return_of_isTextChar htext
            rw [hself, List.singleton_append,
              multilineBasic?_plain (fun u => hquotes _ _) hbackslash hreturn (by simp [htext]), ih]
            rfl
          · rw [hescape, List.cons_append, multilineBasic?_escape (hread _).2 (hread _).1, ih]
            rfl

/-! ## Single quotes -/

theorem longest_le_longestRun (q : Char) (run longest : Nat) (s : List Char) :
    longest ≤ longestRun q run longest s := by
  induction s generalizing run longest with
  | nil => exact Nat.le_refl longest
  | cons c s ih =>
      rw [longestRun]
      split
      · have hmore := ih (run + 1) (max longest (run + 1))
        omega
      · exact ih 0 longest

theorem longestRun_mono (q : Char) {run run' longest longest' : Nat} (hrun : run ≤ run')
    (hlongest : longest ≤ longest') (s : List Char) :
    longestRun q run longest s ≤ longestRun q run' longest' s := by
  induction s generalizing run run' longest longest' with
  | nil => exact hlongest
  | cons c s ih =>
      rw [longestRun, longestRun]
      split
      · exact ih (by omega) (by omega)
      · exact ih (Nat.le_refl 0) hlongest

/-- Runs of a text without its first character are runs of the text. -/
theorem longestRun_tail_le (q c : Char) (s : List Char) :
    longestRun q 0 0 s ≤ longestRun q 0 0 (c :: s) := by
  rw [longestRun]
  split
  · exact longestRun_mono q (Nat.zero_le _) (Nat.zero_le _) s
  · exact Nat.le_refl _

theorem literal?_append {s : List Char} (hsingle : longestRun '\'' 0 0 s = 0)
    (htext : ∀ c ∈ s, isTextChar c) (t : List Char) :
    literal? (s ++ '\'' :: t) = some (s, t) := by
  induction s with
  | nil => rfl
  | cons c s ih =>
      rw [List.forall_mem_cons] at htext
      have hquote : c ≠ '\'' := by
        intro hc
        rw [longestRun, if_pos hc] at hsingle
        have hone := longest_le_longestRun '\'' (0 + 1) (max 0 (0 + 1)) s
        omega
      have hrest := longestRun_tail_le '\'' c s
      rw [List.cons_append, literal?, if_pos htext.1, ih (by omega) htext.2]
      · rfl
      · exact hquote

theorem multilineLiteral?_end (t : List Char) :
    multilineLiteral? ('\'' :: '\'' :: '\'' :: t) = some (quotesBeforeEnd '\'' t) := by
  rw [multilineLiteral?]

theorem multilineLiteral?_plain {c : Char} {s : List Char}
    (hquotes : ∀ t, c :: s ≠ '\'' :: '\'' :: '\'' :: t) (hreturn : c ≠ '\r')
    (htext : isTextChar c || c == '\n') :
    multilineLiteral? (c :: s) = (multilineLiteral? s).map fun (cs, rest) => (c :: cs, rest) := by
  rw [multilineLiteral?]
  · rw [if_pos htext]
  · intro t hc hs
    exact hquotes t (by rw [hc, hs])
  · intro t hc
    exact absurd hc hreturn

/-- A text without three single quotes in a row stands between three of them as it is. -/
theorem multilineLiteral?_append {s t : List Char} (ht : StartsNot '\'' t)
    (hsingles : longestRun '\'' 0 0 s ≤ 2)
    (htext : ∀ c ∈ s, c ≠ '\r' ∧ (isTextChar c || c == '\n')) :
    multilineLiteral? (s ++ '\'' :: '\'' :: '\'' :: t) = some (s, t) := by
  have hend := quotesBeforeEnd_of_startsNot ht
  induction s with
  | nil => rw [List.nil_append, multilineLiteral?_end, hend.1]
  | cons c s ih =>
      rw [List.forall_mem_cons] at htext
      have hrest := longestRun_tail_le '\'' c s
      have hread := ih (by omega) htext.2
      by_cases hlast : c = '\'' ∧ (s = [] ∨ s = ['\''])
      · rcases hlast with ⟨rfl, rfl | rfl⟩
        · show multilineLiteral? ('\'' :: '\'' :: '\'' :: '\'' :: t) = some (['\''], t)
          rw [multilineLiteral?_end, hend.2.1]
        · show multilineLiteral? ('\'' :: '\'' :: '\'' :: '\'' :: '\'' :: t) =
            some (['\'', '\''], t)
          rw [multilineLiteral?_end, hend.2.2]
      · have hquotes : ∀ u, c :: (s ++ '\'' :: '\'' :: '\'' :: t) ≠ '\'' :: '\'' :: '\'' :: u := by
          intro u h
          obtain ⟨hc, h⟩ := List.cons.inj h
          cases s with
          | nil => exact hlast ⟨hc, Or.inl rfl⟩
          | cons d s =>
              obtain ⟨hd, h⟩ := List.cons.inj h
              cases s with
              | nil => exact hlast ⟨hc, Or.inr (by rw [hd])⟩
              | cons e s =>
                  obtain ⟨he, _⟩ := List.cons.inj h
                  have hthree : longestRun '\'' 0 0 (c :: d :: e :: s) = longestRun '\'' 3 3 s := by
                    simp [longestRun, hc, hd, he]
                  have hlong := longest_le_longestRun '\'' 3 3 s
                  omega
        rw [List.cons_append, multilineLiteral?_plain hquotes htext.1.1 htext.1.2, hread]
        rfl

/-! ## Any string -/

theorem dropLineBreak_of_startsNot {s : List Char} (hline : StartsNot '\n' s)
    (hreturn : StartsNot '\r' s) : dropLineBreak s = s := by
  unfold dropLineBreak lineBreak?
  split
  · exact absurd rfl (hline.ne_cons _)
  · exact absurd rfl (hreturn.ne_cons _)
  · rfl

theorem string?_eq_lineString? {s : List Char} (hdouble : ∀ u, s ≠ '"' :: '"' :: '"' :: u)
    (hsingle : ∀ u, s ≠ '\'' :: '\'' :: '\'' :: u) : string? s = lineString? s := by
  unfold string?
  split
  · exact absurd rfl (hdouble _)
  · exact absurd rfl (hsingle _)
  · rfl

theorem string?_basic {t : List Char} (ht : StartsNot '"' t) (s : List Char) :
    string? (Quoting.basic.write s ++ t) = some (s, t) := by
  have hwrite : Quoting.basic.write s ++ t = '"' :: (basicBody false 0 0 s ++ '"' :: t) := by
    simp [Quoting.write]
  have hdouble : ∀ u, '"' :: (basicBody false 0 0 s ++ '"' :: t) ≠ '"' :: '"' :: '"' :: u := by
    intro u h
    have hrest := List.tail_eq_of_cons_eq h
    cases s with
    | nil => exact ht.ne_cons u (List.tail_eq_of_cons_eq hrest)
    | cons c s => exact (basicBody_startsNot (Or.inl (Nat.le_refl 0)) false s _).ne_cons _ hrest
  rw [hwrite, string?_eq_lineString? hdouble (by simp), lineString?]
  exact basic?_basicBody 0 s t

theorem string?_literal {s t : List Char} (ht : StartsNot '\'' t)
    (hsingle : longestRun '\'' 0 0 s = 0) (htext : ∀ c ∈ s, isTextChar c) :
    string? (Quoting.literal.write s ++ t) = some (s, t) := by
  have hwrite : Quoting.literal.write s ++ t = '\'' :: (s ++ '\'' :: t) := by
    simp [Quoting.write]
  have hsingles : ∀ u, '\'' :: (s ++ '\'' :: t) ≠ '\'' :: '\'' :: '\'' :: u := by
    intro u h
    have hrest := List.tail_eq_of_cons_eq h
    cases s with
    | nil => exact ht.ne_cons u (List.tail_eq_of_cons_eq hrest)
    | cons c s =>
        have hone := longest_le_longestRun '\'' (0 + 1) (max 0 (0 + 1)) s
        rw [longestRun, if_pos (List.head_eq_of_cons_eq hrest)] at hsingle
        omega
  rw [hwrite, string?_eq_lineString? (by simp) hsingles, lineString?]
  exact literal?_append hsingle htext t

/-- The line break after the opening quotes, and no line break of the text, is dropped. -/
theorem dropLineBreak_append {s body : List Char} (hline : '\n' ∉ s → StartsNot '\n' body)
    (hreturn : StartsNot '\r' body) :
    dropLineBreak ((if s.contains '\n' then ['\n'] else []) ++ body) = body := by
  by_cases hlines : '\n' ∈ s
  · rw [if_pos (List.contains_iff_mem.2 hlines)]
    rfl
  · rw [if_neg (by simpa using hlines)]
    exact dropLineBreak_of_startsNot (hline hlines) hreturn

theorem string?_multilineBasic {t : List Char} (ht : StartsNot '"' t) (s : List Char) :
    string? (Quoting.multilineBasic.write s ++ t) = some (s, t) := by
  have hwrite : Quoting.multilineBasic.write s ++ t = '"' :: '"' :: '"' ::
      ((if s.contains '\n' then ['\n'] else []) ++
        (basicBody true 2 0 s ++ '"' :: '"' :: '"' :: t)) := by
    simp [Quoting.write, openQuotes]
  have hfirst : ∀ q, q ≠ '"' → q ≠ '\\' → (q ∈ s → q = '\r') →
      StartsNot q (basicBody true 2 0 s ++ '"' :: '"' :: '"' :: t) := by
    intro q hquote hbackslash hq h
    cases s with
    | nil => exact hquote (Option.some.inj h).symm
    | cons c s =>
        obtain ⟨d, ds, hbody, hd⟩ := basicBody_eq_cons true 2 0 c s
        rw [hbody] at h
        obtain rfl : d = q := Option.some.inj h
        rcases hd with hd | ⟨rfl, hreturn, _⟩
        · exact hbackslash hd
        · exact hreturn (hq List.mem_cons_self)
  have hdrop := dropLineBreak_append (s := s)
    (fun hline => hfirst '\n' (by decide) (by decide) fun h => absurd h hline)
    (hfirst '\r' (by decide) (by decide) fun _ => rfl)
  rw [hwrite, string?, hdrop]
  exact multilineBasic?_basicBody ht 0 s

theorem string?_multilineLiteral {s t : List Char} (ht : StartsNot '\'' t)
    (hsingles : longestRun '\'' 0 0 s ≤ 2)
    (htext : ∀ c ∈ s, c ≠ '\r' ∧ (isTextChar c || c == '\n')) :
    string? (Quoting.multilineLiteral.write s ++ t) = some (s, t) := by
  have hwrite : Quoting.multilineLiteral.write s ++ t = '\'' :: '\'' :: '\'' ::
      ((if s.contains '\n' then ['\n'] else []) ++ (s ++ '\'' :: '\'' :: '\'' :: t)) := by
    simp [Quoting.write, openQuotes]
  have hfirst : ∀ q, q ≠ '\'' → q ∉ s → StartsNot q (s ++ '\'' :: '\'' :: '\'' :: t) := by
    intro q hquote hq h
    cases s with
    | nil => exact hquote (Option.some.inj h).symm
    | cons c s =>
        obtain rfl : c = q := Option.some.inj h
        exact hq List.mem_cons_self
  have hdrop := dropLineBreak_append (hfirst '\n' (by decide))
    (hfirst '\r' (by decide) fun h => (htext _ h).1 rfl)
  rw [hwrite, string?, hdrop]
  exact multilineLiteral?_append ht hsingles htext

/-- A character that can be shown stands for itself, in lines if it is a line feed. -/
theorem isTextChar_of_not_needsCode {c : Char} (h : needsCode c = false) :
    c ≠ '\r' ∧ (c ≠ '\n' → isTextChar c) := by
  constructor
  · intro hc
    rw [hc] at h
    cases h
  · intro hline
    simp only [needsCode, Bool.or_eq_false_iff, Bool.and_eq_false_iff, decide_eq_false_iff_not,
      bne_eq_false_iff_eq, beq_eq_false_iff_ne] at h
    simp only [isTextChar, Bool.or_eq_true, beq_iff_eq, Bool.and_eq_true, decide_eq_true_eq,
      bne_iff_ne]
    rcases h with ⟨(hlow | htab) | hfeed, hdelete⟩
    · exact Or.inr ⟨by omega, hdelete⟩
    · exact Or.inl htab
    · exact absurd hfeed hline

/-- A string reads back, in whichever quotes it was written. -/
theorem string?_write_choose {t : List Char} (hdouble : StartsNot '"' t)
    (hsingle : StartsNot '\'' t) (s : List Char) :
    string? ((Quoting.choose s).write s ++ t) = some (s, t) := by
  have hshown : s.any needsCode = false → ∀ c ∈ s, c ≠ '\r' ∧ (c ≠ '\n' → isTextChar c) := by
    intro hcoded c hc
    exact isTextChar_of_not_needsCode (by simpa using List.any_eq_false.1 hcoded c hc)
  unfold Quoting.choose
  simp only [Bool.and_eq_true, Bool.not_eq_true', beq_iff_eq, decide_eq_true_eq]
  split
  · exact string?_basic hdouble s
  split
  · rename_i h
    obtain ⟨⟨hcoded, hsingles⟩, hlines⟩ := h
    refine string?_literal hsingle hsingles fun c hc => (hshown hcoded c hc).2 fun hline => ?_
    rw [hline] at hc
    rw [List.contains_iff_mem.2 hc] at hlines
    cases hlines
  split
  · exact string?_multilineBasic hdouble s
  split
  · rename_i h
    refine string?_multilineLiteral hsingle h.2 fun c hc => ?_
    obtain ⟨hreturn, htext⟩ := hshown h.1 c hc
    refine ⟨hreturn, ?_⟩
    by_cases hline : c = '\n'
    · simp [hline]
    · simp [htext hline]
  split
  · exact string?_multilineBasic hdouble s
  · exact string?_basic hdouble s

/-- Two double quotes before the end, and a single quote that keeps single quotes from being used:
the end is a run of five quotes. -/
example : String.ofList ((Quoting.choose "it's \"\"".toList).write "it's \"\"".toList) =
    "\"\"\"it's \"\"\"\"\"" := by decide

end RegisterMigration.Toml
