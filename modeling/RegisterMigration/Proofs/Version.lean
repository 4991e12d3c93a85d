import RegisterMigration.Proofs.Text.Number
import RegisterMigration.Version

/-!
# Versions read back

A version is written as two decimal numbers with a point between them.  The point is the first
one in the text, as digits are not points, and each number is below the size of a word; so the text
reads back as the version it was written for.

Other texts are read as well.  Each part may have blanks around it, a plus sign and zeros in front of
its digits, and the second part may be absent, which stands for zero.  Only the first point separates
the parts: any other one is in the second part, which is then no number.  The text that is written for
a version is thus one of many, and serves as the normal form of all of them.

## Main results

* `parse_toString` — a version that was written reads back as itself.
* `toString_injective` — so different versions have different texts.
* `splitsInto_iff` — every text is split in one way.
* `parse_eq_ok_iff`, `eq_of_parse_eq_error` — which texts are read, and what becomes of the others.
* `parse_exact` — reading and writing together.
-/

namespace RegisterMigration.Version

/-- The characters of a version. -/
theorem toList_toString (v : Version) : (toString v).toList =
    Nat.toDigits 10 v.major.toNat ++ '.' :: Nat.toDigits 10 v.minor.toNat := by
  have hword : ∀ n : UInt32, (toString n).toList = Nat.toDigits 10 n.toNat := by
    intro n
    show (Nat.repr n.toNat).toList = Nat.toDigits 10 n.toNat
    simp [Nat.repr]
  show (toString v.major ++ "." ++ toString v.minor).toList = _
  simp [hword]

theorem parts_append {major : List Char} (h : '.' ∉ major) (minor : List Char) :
    parts (major ++ '.' :: minor) = (major, minor) := by
  have hdigit : ∀ c ∈ major, (c != '.') = true := by
    intro c hc
    rw [bne_iff_ne]
    exact fun hpoint => h (hpoint ▸ hc)
  simp [parts, List.dropWhile_append_of_pos hdigit, List.takeWhile_append_of_pos hdigit]

theorem readPart?_toDigits (n : UInt32) : readPart? (Nat.toDigits 10 n.toNat) = some n := by
  rw [readPart?, Text.trim_toDigits, Text.readNumeral_toDigits n.toNat_lt]
  simp

/-- A version that was written reads back as itself. -/
theorem parse_toString (v : Version) : parse (toString v) = .ok v := by
  have hpoint : '.' ∉ Nat.toDigits 10 v.major.toNat := fun hmem =>
    absurd (Text.digitValue?_isSome_of_mem_toDigits (by decide) (by decide) hmem) (by decide)
  simp only [parse, toList_toString, parts_append hpoint, readPart?_toDigits]

theorem toString_injective : Function.Injective (toString : Version → String) := by
  intro v w h
  have hread := parse_toString v
  rw [h, parse_toString] at hread
  exact (Except.ok.inj hread).symm

/-! ## Texts of versions -/

/-- A text is split at its first point; where it has none, `0` stands for the part behind. -/
inductive SplitsInto : List Char → List Char → List Char → Prop where
  | whole {s : List Char} (hpoint : '.' ∉ s) : SplitsInto s s ['0']
  | atPoint {major minor : List Char} (hpoint : '.' ∉ major) :
      SplitsInto (major ++ '.' :: minor) major minor

/-- A part of a version is a decimal numeral with blanks around it. -/
def PartOf (part : List Char) (n : Nat) : Prop :=
  ∃ t, Text.TrimsTo part t ∧ Text.Numeral 10 t n

/-- The two parts of a text are numerals for two numbers. -/
def Spells (s : List Char) (m n : Nat) : Prop :=
  ∃ major minor, SplitsInto s major minor ∧ PartOf major m ∧ PartOf minor n

/-- Every text is split in one way. -/
theorem splitsInto_iff {s major minor : List Char} :
    SplitsInto s major minor ↔ parts s = (major, minor) := by
  constructor
  · intro h
    cases h with
    | whole hpoint =>
        have hnone : s.dropWhile (· != '.') = [] := by
          rw [List.dropWhile_eq_nil_iff]
          intro c hc
          rw [bne_iff_ne]
          exact fun hdot => hpoint (hdot ▸ hc)
        rw [parts, hnone]
    | atPoint hpoint => exact parts_append hpoint minor
  · intro h
    have hbefore : '.' ∉ s.takeWhile (· != '.') := fun hmem => by
      simpa using List.mem_takeWhile_imp hmem
    have hsplit : s.takeWhile (· != '.') ++ s.dropWhile (· != '.') = s :=
      List.takeWhile_append_dropWhile
    -- What is left of the text is empty, or starts with the point that stopped the search.
    have hhead := List.head?_dropWhile_not (· != '.') s
    rw [parts] at h
    split at h
    · rename_i hrest
      obtain ⟨rfl, rfl⟩ := Prod.mk.inj h
      rw [hrest, List.append_nil] at hsplit
      rw [hsplit] at hbefore
      exact .whole hbefore
    · rename_i c rest hrest
      obtain ⟨rfl, rfl⟩ := Prod.mk.inj h
      rw [hrest] at hsplit hhead
      obtain rfl : c = '.' := by simpa using hhead
      have hpoint : SplitsInto (s.takeWhile (· != '.') ++ '.' :: rest) _ rest := .atPoint hbefore
      rwa [hsplit] at hpoint

theorem PartOf.unique {part : List Char} {m n : Nat} (hm : PartOf part m) (hn : PartOf part n) :
    m = n := by
  obtain ⟨t, ht, hm⟩ := hm
  obtain ⟨u, hu, hn⟩ := hn
  rw [Text.trimsTo_iff] at ht hu
  subst ht hu
  exact hm.unique (by decide) (by decide) hn

/-- No text spells two pairs of numbers. -/
theorem Spells.unique {s : List Char} {m n k l : Nat} (h : Spells s m n) (h' : Spells s k l) :
    m = k ∧ n = l := by
  obtain ⟨major, minor, hsplit, hm, hn⟩ := h
  obtain ⟨major', minor', hsplit', hk, hl⟩ := h'
  rw [splitsInto_iff] at hsplit hsplit'
  obtain ⟨rfl, rfl⟩ := Prod.mk.inj (hsplit.symm.trans hsplit')
  exact ⟨hm.unique hk, hn.unique hl⟩

/-- A part is read as the number that it spells. -/
theorem readPart?_eq_some_iff {part : List Char} {n : UInt32} :
    readPart? part = some n ↔ PartOf part n.toNat := by
  have hpart : PartOf part n.toNat ↔
      Text.readNumeral 10 UInt32.size (Text.trim part) = .ok n.toNat := by
    rw [Text.readNumeral_eq_ok_iff (by decide) (by decide) (by decide), and_iff_left n.toNat_lt]
    simp only [PartOf, Text.trimsTo_iff, exists_eq_left]
  rw [hpart, readPart?]
  cases hread : Text.readNumeral 10 UInt32.size (Text.trim part) with
  | error cause => simp
  | ok k =>
      have hk := ((Text.readNumeral_eq_ok_iff (by decide) (by decide) (by decide)).1 hread).2
      simp only [Option.some.injEq, Except.ok.injEq]
      rw [← UInt32.toNat_inj, UInt32.toNat_ofNat', Nat.mod_eq_of_lt hk]

/-- A version is read from the texts that spell its numbers. -/
theorem parse_eq_ok_iff {s : String} {v : Version} :
    parse s = .ok v ↔ Spells s.toList v.major.toNat v.minor.toNat := by
  obtain ⟨m, n⟩ := v
  cases hparts : parts s.toList with
  | mk major minor =>
      have hspells : Spells s.toList m.toNat n.toNat ↔
          readPart? major = some m ∧ readPart? minor = some n := by
        simp only [Spells, splitsInto_iff, hparts, Prod.mk.injEq, and_assoc, exists_and_left,
          exists_eq_left', ← readPart?_eq_some_iff]
      rw [hspells]
      simp only [parse, hparts]
      cases readPart? major with
      | none => simp
      | some k => cases readPart? minor <;> simp

/-- What is refused is quoted as it was given. -/
theorem eq_of_parse_eq_error {s : String} {e : VersionError} (h : parse s = .error e) : e = ⟨s⟩ := by
  simp only [parse] at h
  split at h
  · cases h
  · exact (Except.error.inj h).symm

/-- Reading versions and writing them.  A text is read as the two numbers that it spells if both are
below `2 ^ 32`, and otherwise refused and quoted as it was given.  A version is written as two decimal
numbers, and read back from them.  So a text that was read and the text that is written for it are
read alike, and two texts have the same text written for them exactly if they are read alike. -/
theorem parse_exact :
    (∀ s : String,
      (∀ m n, (∃ v, parse s = .ok v ∧ v.major.toNat = m ∧ v.minor.toNat = n) ↔
        Spells s.toList m n ∧ m < 2 ^ 32 ∧ n < 2 ^ 32) ∧
      ((∀ m n, Spells s.toList m n → 2 ^ 32 ≤ m ∨ 2 ^ 32 ≤ n) → parse s = .error ⟨s⟩)) ∧
    (∀ v : Version, parse (toString v) = .ok v ∧ (toString v).toList =
      Nat.toDigits 10 v.major.toNat ++ '.' :: Nat.toDigits 10 v.minor.toNat) ∧
    (∀ s v, parse s = .ok v → parse (toString v) = parse s) ∧
    ∀ s t v w, parse s = .ok v → parse t = .ok w →
      (toString v = toString w ↔ parse s = parse t) := by
  refine ⟨fun s => ⟨fun m n => ?_, fun hlarge => ?_⟩, ?_, ?_, ?_⟩
  · constructor
    · rintro ⟨v, hread, rfl, rfl⟩
      exact ⟨parse_eq_ok_iff.1 hread, v.major.toNat_lt, v.minor.toNat_lt⟩
    · rintro ⟨hspells, hm, hn⟩
      have hmajor : (UInt32.ofNat m).toNat = m := by rw [UInt32.toNat_ofNat', Nat.mod_eq_of_lt hm]
      have hminor : (UInt32.ofNat n).toNat = n := by rw [UInt32.toNat_ofNat', Nat.mod_eq_of_lt hn]
      refine ⟨⟨.ofNat m, .ofNat n⟩, parse_eq_ok_iff.2 ?_, hmajor, hminor⟩
      rwa [hmajor, hminor]
  · cases hread : parse s with
    | ok v =>
        have hwords := hlarge _ _ (parse_eq_ok_iff.1 hread)
        have hmajor := v.major.toNat_lt
        have hminor := v.minor.toNat_lt
        omega
    | error e => rw [eq_of_parse_eq_error hread]
  · exact fun v => ⟨parse_toString v, toList_toString v⟩
  · intro s v hread
    rw [parse_toString, hread]
  · intro s t v w hs ht
    rw [hs, ht, Except.ok.injEq, toString_injective.eq_iff]

/-- Blanks around both parts, a sign and zeros in front; another text for the same version; and a
text without a point, of a number that is too large by one. -/
theorem parse_exact_spaced :
    (∃ v w, parse "\u2003+042 .\t7\n" = .ok v ∧ v.major.toNat = 42 ∧ v.minor.toNat = 7 ∧
      parse (toString v) = parse "\u2003+042 .\t7\n" ∧
      parse "42.+07" = .ok w ∧ toString v = toString w) ∧
    parse "4294967296" = .error ⟨"4294967296"⟩ := by
  obtain ⟨hreads, -, hagain, hsame⟩ := parse_exact
  have hdigits : ∀ n, Text.DigitsOf 10 (Nat.toDigits 10 n) n :=
    Text.digitsOf_toDigits (by decide) (by decide)
  constructor
  · have hpadded : Text.DigitsOf 10 "042".toList 42 := (hdigits 42).zeros_append (by decide) 1
    have hmajor : PartOf "\u2003+042 ".toList 42 :=
      ⟨"+042".toList, Text.trimsTo_iff.2 rfl, .signed hpadded⟩
    have hminor : PartOf "\t7\n".toList 7 :=
      ⟨"7".toList, Text.trimsTo_iff.2 rfl, .unsigned (hdigits 7)⟩
    have hspells : Spells "\u2003+042 .\t7\n".toList 42 7 :=
      ⟨_, _, splitsInto_iff.2 rfl, hmajor, hminor⟩
    obtain ⟨v, hv, hvmajor, hvminor⟩ := ((hreads _).1 42 7).2 ⟨hspells, by decide, by decide⟩
    obtain ⟨w, hw⟩ : ∃ w, parse "42.+07" = .ok w := ⟨⟨42, 7⟩, by decide⟩
    have htexts := (hsame _ _ v w hv hw).2 (by decide)
    exact ⟨v, w, hv, hvmajor, hvminor, hagain _ v hv, hw, htexts⟩
  · have hmajor : PartOf "4294967296".toList 4294967296 :=
      ⟨_, Text.trimsTo_iff.2 rfl, .unsigned (hdigits 4294967296)⟩
    have hminor : PartOf ['0'] 0 :=
      ⟨_, Text.trimsTo_iff.2 rfl, .unsigned (hdigits 0)⟩
    have hspells : Spells "4294967296".toList 4294967296 0 :=
      ⟨_, _, splitsInto_iff.2 rfl, hmajor, hminor⟩
    exact (hreads _).2 fun m n h => Or.inl (Nat.le_of_eq (hspells.unique h).1)

end RegisterMigration.Version
