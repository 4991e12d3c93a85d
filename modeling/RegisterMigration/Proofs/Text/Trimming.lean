import Mathlib.Data.List.TakeWhile
import RegisterMigration.Text.Blank

/-!
# Trimmed texts

Trimming drops characters at one end of a text and then, with the text reversed, at the other.  What
comes out is described without the order in which this happens: it is bare, which means that it
neither starts nor ends with a blank, and the text is made up of it and of blanks around it.  There is
only one such text, so this says what trimming does.

## Main results

* `trim_append` — blanks around a bare text are trimmed away.
* `trim_eq_iff`, `trimsTo_iff` — the text that is left.
-/

namespace RegisterMigration.Text

/-- A text that neither starts nor ends with a blank. -/
def Bare (t : List Char) : Prop :=
  (∀ c ∈ t.head?, isBlank c = false) ∧ ∀ c ∈ t.getLast?, isBlank c = false

theorem dropWhile_isBlank_of_head {t : List Char} (h : ∀ c ∈ t.head?, isBlank c = false) :
    t.dropWhile isBlank = t := by
  cases t with
  | nil => rfl
  | cons c t => rw [List.dropWhile_cons, h c rfl, if_neg Bool.false_ne_true]

theorem head?_dropWhile_isBlank (s : List Char) :
    ∀ c ∈ (s.dropWhile isBlank).head?, isBlank c = false := by
  intro c hc
  have hnot := List.head?_dropWhile_not isBlank s
  rw [Option.mem_def.1 hc] at hnot
  exact hnot

/-- Trimming takes away all blanks around a bare text. -/
theorem trim_append {before t after : List Char} (hbefore : ∀ c ∈ before, isBlank c)
    (hafter : ∀ c ∈ after, isBlank c) (hbare : Bare t) : trim (before ++ t ++ after) = t := by
  cases t with
  | nil =>
      rw [List.append_nil, trim_eq_nil_iff]
      intro c hc
      exact (List.mem_append.1 hc).elim (hbefore c) (hafter c)
  | cons d t =>
      have hfront : (before ++ d :: t ++ after).dropWhile isBlank = d :: t ++ after := by
        rw [List.append_assoc, List.dropWhile_append_of_pos hbefore]
        exact dropWhile_isBlank_of_head hbare.1
      have hback : (d :: t ++ after).reverse.dropWhile isBlank = (d :: t).reverse := by
        rw [List.reverse_append,
          List.dropWhile_append_of_pos fun c hc => hafter c (List.mem_reverse.1 hc)]
        apply dropWhile_isBlank_of_head
        rw [List.head?_reverse]
        exact hbare.2
      rw [trim, trimEnd, hfront, hback, List.reverse_reverse]

/-- What is trimmed away is blank, and what is left is bare. -/
theorem exists_append_trim (s : List Char) :
    ∃ before after, s = before ++ trim s ++ after ∧ (∀ c ∈ before, isBlank c) ∧
      (∀ c ∈ after, isBlank c) ∧ Bare (trim s) := by
  let m := s.dropWhile isBlank
  have hsplit : m = trim s ++ (m.reverse.takeWhile isBlank).reverse := by
    have hreverse : m.reverse = m.reverse.takeWhile isBlank ++ m.reverse.dropWhile isBlank :=
      List.takeWhile_append_dropWhile.symm
    have := congrArg List.reverse hreverse
    rwa [List.reverse_reverse, List.reverse_append] at this
  refine ⟨s.takeWhile isBlank, (m.reverse.takeWhile isBlank).reverse, ?_, ?_, ?_, ?_, ?_⟩
  · rw [List.append_assoc, ← hsplit]
    exact List.takeWhile_append_dropWhile.symm
  · intro c hc
    exact List.mem_takeWhile_imp hc
  · intro c hc
    exact List.mem_takeWhile_imp (List.mem_reverse.1 hc)
  · -- What is left starts like the text without the blanks in front.
    intro c hc
    apply head?_dropWhile_isBlank s c
    show m.head? = some c
    rw [hsplit, List.head?_append, Option.mem_def.1 hc]
    rfl
  · intro c hc
    apply head?_dropWhile_isBlank m.reverse c
    rw [← List.getLast?_reverse]
    exact hc

/-- Trimming gives the bare text that blanks are around. -/
theorem trim_eq_iff {s t : List Char} :
    trim s = t ↔ Bare t ∧ ∃ before after, s = before ++ t ++ after ∧
      (∀ c ∈ before, isBlank c) ∧ ∀ c ∈ after, isBlank c := by
  constructor
  · rintro rfl
    obtain ⟨before, after, hs, hbefore, hafter, hbare⟩ := exists_append_trim s
    exact ⟨hbare, before, after, hs, hbefore, hafter⟩
  · rintro ⟨hbare, before, after, rfl, hbefore, hafter⟩
    exact trim_append hbefore hafter hbare

/-- A bare text is what is left of another one, if the rest of that one is blanks around it. -/
def TrimsTo (s t : List Char) : Prop :=
  Bare t ∧ ∃ before after, s = before ++ t ++ after ∧
    (∀ c ∈ before, isBlank c) ∧ ∀ c ∈ after, isBlank c

/-- Exactly one text is left. -/
theorem trimsTo_iff {s t : List Char} : TrimsTo s t ↔ t = trim s := by
  rw [TrimsTo, ← trim_eq_iff, eq_comm]

theorem bare_of_not_blank {t : List Char} (h : ∀ c ∈ t, isBlank c = false) : Bare t :=
  ⟨fun c hc => h c (List.mem_of_mem_head? hc), fun c hc => h c (List.mem_of_mem_getLast? hc)⟩

/-- Nothing is trimmed away from a text without blanks. -/
theorem trim_of_not_blank {t : List Char} (h : ∀ c ∈ t, isBlank c = false) : trim t = t :=
  trim_eq_iff.2 ⟨bare_of_not_blank h, [], [], (List.append_nil t).symm, nofun, nofun⟩

end RegisterMigration.Text
