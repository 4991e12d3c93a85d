import RegisterMigration.Proofs.Definition.Canonical
import RegisterMigration.Proofs.Language.Table
import RegisterMigration.Proofs.Migration.CacheHistory
import RegisterMigration.Proofs.Migration.Values

/-!
# A cache answers as if it were not there

Several languages can have one version, and the decision about them is kept under that version
alone.  What keeps an edited language from being answered with the decision about the earlier one
are the two fingerprints that stand beside a decision, and a fingerprint is a digest: that it stands
for one language only is an assumption about SHA-256, made here for the languages that a history is
about and for no others.

Under that assumption equal fingerprints mean equal languages, since the digested bytes identify a
definition and a language is what loading its definition gives.  A decision that is returned again
was returned for the same two languages earlier in the history, so the induction is on the length of
what came before.

## Main results

* `eq_of_fingerprint_eq` — languages of one version with one fingerprint are one language.
* `outcome_answer` — every answer is the decision made afresh.
-/

namespace RegisterMigration.Cache

/-- A language is one of those that are asked about. -/
def Concerns (history : List Request) (l : Language) : Prop :=
  ∃ old new, .getOrBuild old new ∈ history ∧ (l = old ∨ l = new)

/-- SHA-256 has different digests for the different definitions of one version that a history is
about. -/
def DigestsDiffer (history : List Request) : Prop :=
  ∀ k l : Language, Concerns history k → Concerns history l → k.key = l.key →
    k.definition.canonicalBytes ≠ l.definition.canonicalBytes →
      Hash.Sha256.digest k.definition.canonicalBytes ≠
        Hash.Sha256.digest l.definition.canonicalBytes

variable {history before later : List Request} {k l old new : Language}

theorem concerns_old (h : .getOrBuild old new ∈ history) : Concerns history old :=
  ⟨old, new, h, Or.inl rfl⟩

theorem concerns_new (h : .getOrBuild old new ∈ history) : Concerns history new :=
  ⟨old, new, h, Or.inr rfl⟩

/-- Languages with one definition are one language. -/
theorem eq_of_definition_eq (h : k.definition = l.definition) : k = l := by
  have hload := k.load_definition
  rw [h, l.load_definition] at hload
  exact (Except.ok.inj hload).symm

/-- Languages of one version with one fingerprint are one language. -/
theorem eq_of_fingerprint_eq (hdiffer : DigestsDiffer history) (hk : Concerns history k)
    (hl : Concerns history l) (hkey : k.key = l.key) (h : k.fingerprint = l.fingerprint) :
    k = l := by
  rw [k.fingerprint_eq, l.fingerprint_eq, Definition.fingerprint_eq_iff] at h
  have hbytes : k.definition.canonicalBytes = l.definition.canonicalBytes := by
    by_contra hne
    exact hdiffer k l hk hl hkey hne h
  exact eq_of_definition_eq (Definition.canonicalBytes_injective hbytes)

/-- A decision that is returned again was returned earlier, for the same two languages. -/
theorem answer_cases (hdiffer : DigestsDiffer history)
    (h : history = before ++ .getOrBuild old new :: later) :
    (answer before old new).outcome = Migrator.build old new ∨
      ∃ earlier between, before = earlier ++ .getOrBuild old new :: between ∧
        answer before old new = answer earlier old new := by
  rcases getOrBuild_cases (after before) old new with ⟨e, hentry, hfor, heq⟩ | ⟨_, heq⟩
  · obtain ⟨_, earlier, old', new', ⟨between, hsplit, _⟩, hpair, rfl⟩ :=
      (getElem?_after_iff before _ e).1 hentry
    simp only [CacheEntry.isFor, Bool.and_eq_true, beq_iff_eq] at hfor
    have hnow : .getOrBuild old new ∈ history := by
      rw [h]
      simp
    have hthen : .getOrBuild old' new' ∈ history := by
      rw [h, hsplit]
      simp
    have hkeys := VersionPair.mk.inj hpair
    have hold := eq_of_fingerprint_eq hdiffer (concerns_old hthen) (concerns_old hnow) hkeys.1
      hfor.1
    have hnew := eq_of_fingerprint_eq hdiffer (concerns_new hthen) (concerns_new hnow) hkeys.2
      hfor.2
    subst hold hnew
    right
    refine ⟨earlier, between, hsplit, ?_⟩
    rw [answer, heq]
  · left
    rw [answer, heq, decide]

/-- Every answer is the decision made afresh for the two languages it is asked for, whatever was
asked before, however often a version changed its contents and whatever was forgotten. -/
theorem outcome_answer (hdiffer : DigestsDiffer history)
    (h : history = before ++ .getOrBuild old new :: later) :
    (answer before old new).outcome = Migrator.build old new := by
  induction hlength : before.length using Nat.strongRecOn generalizing before later with
  | ind n ih =>
      rcases answer_cases hdiffer h with hfresh | ⟨earlier, between, hsplit, hkept⟩
      · exact hfresh
      · have hshorter : earlier.length < n := by
          rw [← hlength, hsplit, List.length_append, List.length_cons]
          omega
        have hearlier : history =
            earlier ++ .getOrBuild old new :: (between ++ .getOrBuild old new :: later) := by
          rw [h, hsplit, List.append_assoc, List.cons_append]
        rw [hkept]
        exact ih earlier.length hshorter hearlier rfl

/-! ## An edit without a new version -/

/-- A definition without registers, whose compiler specification has a certain name. -/
def toyDefinition (name : String) : Definition where
  id := "toy"
  processor := "toy"
  endianness := .big
  version := ⟨1, 0⟩
  defaultCompilerSpec := "c"
  compilerSpecs := [⟨"c", name⟩]

/-- The language of this definition: the name is a matter of contents, not of the version. -/
def toy (name : String) (h : (toyDefinition name).errors = []) : Language where
  definition := toyDefinition name
  registers := Register.table []
  defaultCompilerSpec := ⟨"c", name⟩
  fingerprint := (toyDefinition name).fingerprint
  errors_eq_nil := h
  registers_eq := rfl
  find_default := rfl
  fingerprint_eq := rfl

/-- The language before its compiler specification gets another name. -/
def unedited : Language :=
  toy "old" (by decide)

/-- The language afterwards, in the same version. -/
def edited : Language :=
  toy "new" (by decide)

theorem digest_toyDefinition_ne :
    Hash.Sha256.digest (toyDefinition "old").canonicalBytes ≠
      Hash.Sha256.digest (toyDefinition "new").canonicalBytes := by
  rw [Definition.canonicalBytes, Definition.canonicalBytes, toList_eq_toList_data,
    toList_eq_toList_data]
  -- Each of the two messages fills three blocks.
  decide +kernel

/-- The name is edited, and edited back. -/
def editedBothWays : List Request :=
  [.getOrBuild unedited edited, .getOrBuild edited unedited]

/-- All three decisions are about the same versions, and the one that is kept is about the way
back; asked for the first way again, a cache returns a migrator for the first way. -/
theorem outcome_answer_editedBothWays :
    VersionPair.of edited unedited = .of unedited edited ∧
      ∃ m, (answer editedBothWays unedited edited).outcome = .ok m ∧
        m.old = unedited ∧ m.new = edited := by
  have honly : ∀ l, Concerns (editedBothWays ++ [.getOrBuild unedited edited]) l →
      l = unedited ∨ l = edited := by
    intro l hl
    rcases hl with ⟨old, new, hmem, hl⟩
    simp only [editedBothWays, List.cons_append, List.nil_append, List.mem_cons, List.not_mem_nil,
      or_false, Request.getOrBuild.injEq] at hmem
    rcases hmem with ⟨rfl, rfl⟩ | ⟨rfl, rfl⟩ | ⟨rfl, rfl⟩
    · exact hl
    · exact hl.symm
    · exact hl
  have hdiffer : DigestsDiffer (editedBothWays ++ [.getOrBuild unedited edited]) := by
    intro k l hk hl _ hne
    rcases honly k hk with rfl | rfl <;> rcases honly l hl with rfl | rfl
    · exact absurd rfl hne
    · exact digest_toyDefinition_ne
    · exact digest_toyDefinition_ne.symm
    · exact absurd rfl hne
  obtain ⟨m, hm⟩ : ∃ m, Migrator.build unedited edited = .ok m := ⟨_, rfl⟩
  have hanswer := outcome_answer hdiffer rfl
  exact ⟨rfl, m, hanswer.trans hm, Migrator.old_of_build hm, Migrator.new_of_build hm⟩

end RegisterMigration.Cache
