import Mathlib.Data.Finset.Card
import Mathlib.Data.List.Induction
import RegisterMigration.Migration.Cache

/-!
# What a cache remembers of its history

A cache starts empty and is asked for decisions, told to forget some or all of them, and looked
into, in any order.  What it holds can be read off the history of these requests.  A pair of
versions is *live* if it was asked for and not forgotten since, and what a live pair has is the
answer to the last time it was asked for, together with the fingerprints of the languages it was
asked for with.

The proof has two halves.  What one request does to the entry of one pair is one of three things:
asking for the pair leaves the entry of the answer, forgetting the pair leaves none, and every
other request leaves the entry as it is.  The history of a pair changes in the same three ways when
a request is added at its end, so an induction over histories ties the two together.

Objects are told apart by their numbers.  All numbers given out are below the next one, and that
never goes down, not even when everything is forgotten; so an answer made anew is no object that
was ever given out.

## Main results

* `getElem?_step_of_builds`, `getElem?_step_of_forgets`, `getElem?_step_of_other` — one request.
* `getElem?_after_iff` — the entry of a pair, read off the history.
* `serial_answer_lt` — a number is given out once.
* `remembers_after` — everything that can be seen of a cache, read off its history.
-/

namespace RegisterMigration.Cache

/-- What a cache can be asked. -/
inductive Request where
  | getOrBuild (old new : Language)
  | get (pair : VersionPair)
  | invalidate (pair : VersionPair)
  | clear
  | size
  | isEmpty

namespace Request

/-- The decision about a pair of versions is asked for. -/
def Builds (pair : VersionPair) : Request → Prop
  | .getOrBuild old new => VersionPair.of old new = pair
  | _ => False

/-- The decision about a pair of versions is forgotten, by itself or with all others. -/
def Forgets (pair : VersionPair) : Request → Prop
  | .invalidate p => p = pair
  | .clear => True
  | _ => False

theorem builds_iff {pair : VersionPair} {q : Request} :
    q.Builds pair ↔ ∃ old new, q = .getOrBuild old new ∧ VersionPair.of old new = pair := by
  constructor
  · intro h
    cases q with
    | getOrBuild old new => exact ⟨old, new, rfl, h⟩
    | get | invalidate | clear | size | isEmpty => cases h
  · rintro ⟨old, new, rfl, h⟩
    exact h

end Request

/-- The cache after a request. -/
def step (c : Cache) : Request → Cache
  | .getOrBuild old new => (c.getOrBuild old new).2
  | .invalidate pair => (c.invalidate pair).2
  | .clear => c.clear
  | .get _ | .size | .isEmpty => c

/-- The cache that a history of requests leads to. -/
def after (history : List Request) : Cache :=
  history.foldl step empty

/-- The decision that is returned for two languages after a history. -/
def answer (history : List Request) (old new : Language) : Decision :=
  ((after history).getOrBuild old new).1

/-! ## One request -/

variable {c : Cache} {old new : Language} {pair : VersionPair} {q : Request}

/-- The decision about two languages is the one that is kept for their contents, or is made. -/
theorem getOrBuild_cases (c : Cache) (old new : Language) :
    (∃ e, c.entries[VersionPair.of old new]? = some e ∧ e.isFor old new ∧
      c.getOrBuild old new = (e.decision, c)) ∨
    ((∀ e, c.entries[VersionPair.of old new]? = some e → e.isFor old new = false) ∧
      c.getOrBuild old new = c.decide old new) := by
  rw [getOrBuild, current?]
  cases c.entries[VersionPair.of old new]? with
  | none => simp
  | some e => cases hfor : e.isFor old new <;> simp [Option.filter, hfor]

/-- Asking for a pair leaves the answer with the fingerprints of the two languages. -/
theorem getElem?_step_of_builds (c : Cache) (old new : Language) :
    (c.step (.getOrBuild old new)).entries[VersionPair.of old new]? =
      some ⟨old.fingerprint, new.fingerprint, (c.getOrBuild old new).1⟩ := by
  rw [step]
  rcases getOrBuild_cases c old new with ⟨e, hentry, hfor, heq⟩ | ⟨_, heq⟩
  · rw [heq, hentry]
    simp only [CacheEntry.isFor, Bool.and_eq_true, beq_iff_eq] at hfor
    rw [← hfor.1, ← hfor.2]
  · rw [heq, decide]
    simp

theorem getElem?_step_of_forgets (h : q.Forgets pair) : (c.step q).entries[pair]? = none := by
  cases q with
  | invalidate p =>
      rw [Request.Forgets] at h
      simp [step, invalidate, h]
  | clear => simp [step, clear]
  | getOrBuild | get | size | isEmpty => cases h

/-- A request that neither asks for a pair nor forgets it leaves its entry as it is. -/
theorem getElem?_step_of_other (hbuilds : ¬ q.Builds pair) (hforgets : ¬ q.Forgets pair) :
    (c.step q).entries[pair]? = c.entries[pair]? := by
  cases q with
  | getOrBuild old new =>
      rw [Request.Builds] at hbuilds
      rw [step]
      rcases getOrBuild_cases c old new with ⟨_, _, _, heq⟩ | ⟨_, heq⟩
      · rw [heq]
      · rw [heq, decide]
        simp [Std.HashMap.getElem?_insert, hbuilds]
  | invalidate p =>
      rw [Request.Forgets] at hforgets
      simp [step, invalidate, Std.HashMap.getElem?_erase, hforgets]
  | clear => exact absurd trivial hforgets
  | get | size | isEmpty => rfl

/-! ## Histories -/

/-- The last time that the versions of `old` and `new` were asked for was with these two, after
the requests `before`. -/
def LastBuild (history before : List Request) (old new : Language) : Prop :=
  ∃ later, history = before ++ .getOrBuild old new :: later ∧
    ∀ q ∈ later, ¬ q.Builds (.of old new)

/-- A pair of versions was asked for and not forgotten since. -/
def Live (history : List Request) (pair : VersionPair) : Prop :=
  ∃ before old new later, history = before ++ .getOrBuild old new :: later ∧
    VersionPair.of old new = pair ∧ ∀ q ∈ later, ¬ q.Forgets pair

variable {history before : List Request}

theorem after_concat (history : List Request) (q : Request) :
    after (history ++ [q]) = (after history).step q := by
  simp [after]

/-- Where a request stands in a history that has been made longer by one. -/
theorem concat_eq_append_cons_iff {later : List Request} {r : Request} :
    history ++ [q] = before ++ r :: later ↔
      (before = history ∧ r = q ∧ later = []) ∨
        ∃ rest, later = rest ++ [q] ∧ history = before ++ r :: rest := by
  constructor
  · intro h
    rcases List.eq_nil_or_concat later with rfl | ⟨rest, p, rfl⟩
    · obtain ⟨hhistory, hq⟩ := List.append_inj' h rfl
      exact Or.inl ⟨hhistory.symm, (List.singleton_inj.1 hq).symm, rfl⟩
    · rw [List.concat_eq_append, ← List.cons_append, ← List.append_assoc] at h
      obtain ⟨hhistory, hq⟩ := List.append_inj' h rfl
      refine Or.inr ⟨rest, ?_, hhistory⟩
      rw [List.concat_eq_append, List.singleton_inj.1 hq]
  · rintro (⟨rfl, rfl, rfl⟩ | ⟨rest, rfl, rfl⟩)
    · rfl
    · simp

theorem live_concat_iff :
    Live (history ++ [q]) pair ↔ q.Builds pair ∨ (¬ q.Forgets pair ∧ Live history pair) := by
  constructor
  · rintro ⟨before, old, new, later, hsplit, hpair, hlater⟩
    rcases concat_eq_append_cons_iff.1 hsplit with ⟨_, rfl, _⟩ | ⟨rest, rfl, hrest⟩
    · exact Or.inl hpair
    · refine Or.inr ⟨hlater q (by simp), before, old, new, rest, hrest, hpair, fun p hp => ?_⟩
      exact hlater p (List.mem_append_left _ hp)
  · rintro (hbuilds | ⟨hforgets, before, old, new, rest, hrest, hpair, hlater⟩)
    · obtain ⟨old, new, rfl, hpair⟩ := Request.builds_iff.1 hbuilds
      exact ⟨history, old, new, [], rfl, hpair, by simp⟩
    · refine ⟨before, old, new, rest ++ [q], by simp [hrest], hpair, fun p hp => ?_⟩
      rcases List.mem_append.1 hp with hp | hp
      · exact hlater p hp
      · rwa [List.mem_singleton.1 hp]

theorem lastBuild_concat_iff :
    LastBuild (history ++ [q]) before old new ↔
      (before = history ∧ q = .getOrBuild old new) ∨
        (¬ q.Builds (.of old new) ∧ LastBuild history before old new) := by
  constructor
  · rintro ⟨later, hsplit, hlater⟩
    rcases concat_eq_append_cons_iff.1 hsplit with ⟨hbefore, hq, _⟩ | ⟨rest, rfl, hrest⟩
    · exact Or.inl ⟨hbefore, hq.symm⟩
    · refine Or.inr ⟨hlater q (by simp), rest, hrest, fun p hp => ?_⟩
      exact hlater p (List.mem_append_left _ hp)
  · rintro (⟨rfl, rfl⟩ | ⟨hbuilds, rest, hrest, hlater⟩)
    · exact ⟨[], rfl, by simp⟩
    · refine ⟨rest ++ [q], by simp [hrest], fun p hp => ?_⟩
      rcases List.mem_append.1 hp with hp | hp
      · exact hlater p hp
      · rwa [List.mem_singleton.1 hp]

/-! ## Entries, read off the history -/

/-- What the history says is kept for a pair of versions. -/
def Holds (history : List Request) (pair : VersionPair) (e : CacheEntry) : Prop :=
  Live history pair ∧ ∃ before old new, LastBuild history before old new ∧
    VersionPair.of old new = pair ∧
      e = ⟨old.fingerprint, new.fingerprint, answer before old new⟩

theorem holds_concat_getOrBuild_iff {e : CacheEntry} :
    Holds (history ++ [.getOrBuild old new]) (.of old new) e ↔
      e = ⟨old.fingerprint, new.fingerprint, answer history old new⟩ := by
  constructor
  · rintro ⟨_, before, old', new', hlast, hpair, rfl⟩
    rcases lastBuild_concat_iff.1 hlast with ⟨rfl, hsame⟩ | ⟨hnot, _⟩
    · cases hsame
      rfl
    · exact absurd hpair.symm hnot
  · rintro rfl
    exact ⟨live_concat_iff.2 (Or.inl rfl), history, old, new,
      lastBuild_concat_iff.2 (Or.inl ⟨rfl, rfl⟩), rfl, rfl⟩

theorem holds_concat_iff_of_other {e : CacheEntry} (hbuilds : ¬ q.Builds pair)
    (hforgets : ¬ q.Forgets pair) : Holds (history ++ [q]) pair e ↔ Holds history pair e := by
  unfold Holds
  rw [live_concat_iff, or_iff_right hbuilds, and_iff_right hforgets]
  refine and_congr_right fun _ => exists_congr fun before => exists_congr fun old =>
    exists_congr fun new => ?_
  rw [lastBuild_concat_iff]
  constructor
  · rintro ⟨⟨_, rfl⟩ | ⟨_, hlast⟩, rfl, he⟩
    · exact absurd rfl hbuilds
    · exact ⟨hlast, rfl, he⟩
  · rintro ⟨hlast, rfl, he⟩
    exact ⟨Or.inr ⟨hbuilds, hlast⟩, rfl, he⟩

/-- What is kept for a pair of versions is what the history says. -/
theorem getElem?_after_iff (history : List Request) (pair : VersionPair) (e : CacheEntry) :
    (after history).entries[pair]? = some e ↔ Holds history pair e := by
  induction history using List.reverseRecOn generalizing e with
  | nil => simp [after, empty, Holds, Live]
  | append_singleton history q ih =>
      rw [after_concat]
      by_cases hbuilds : q.Builds pair
      · obtain ⟨old, new, rfl, rfl⟩ := Request.builds_iff.1 hbuilds
        rw [getElem?_step_of_builds, holds_concat_getOrBuild_iff, Option.some.injEq, eq_comm,
          answer]
      · by_cases hforgets : q.Forgets pair
        · rw [getElem?_step_of_forgets hforgets]
          refine ⟨nofun, fun ⟨hlive, _⟩ => ?_⟩
          rcases live_concat_iff.1 hlive with h | ⟨h, _⟩
          · exact absurd h hbuilds
          · exact absurd hforgets h
        · rw [getElem?_step_of_other hbuilds hforgets, holds_concat_iff_of_other hbuilds hforgets]
          exact ih e

theorem exists_lastBuild (h : Live history pair) :
    ∃ before old new, LastBuild history before old new ∧ VersionPair.of old new = pair := by
  induction history using List.reverseRecOn with
  | nil =>
      obtain ⟨before, old, new, later, hsplit, _⟩ := h
      simp at hsplit
  | append_singleton history q ih =>
      by_cases hbuilds : q.Builds pair
      · obtain ⟨old, new, rfl, hpair⟩ := Request.builds_iff.1 hbuilds
        exact ⟨history, old, new, lastBuild_concat_iff.2 (Or.inl ⟨rfl, rfl⟩), hpair⟩
      · rcases live_concat_iff.1 h with h | ⟨_, h⟩
        · exact absurd h hbuilds
        · obtain ⟨before, old, new, hlast, hpair⟩ := ih h
          refine ⟨before, old, new, lastBuild_concat_iff.2 (Or.inr ⟨?_, hlast⟩), hpair⟩
          rwa [hpair]

theorem isSome_getElem?_after_iff (history : List Request) (pair : VersionPair) :
    (after history).entries[pair]?.isSome ↔ Live history pair := by
  rw [Option.isSome_iff_exists]
  constructor
  · rintro ⟨e, he⟩
    exact ((getElem?_after_iff history pair e).1 he).1
  · intro hlive
    obtain ⟨before, old, new, hlast, hpair⟩ := exists_lastBuild hlive
    exact ⟨_, (getElem?_after_iff history pair _).2
      ⟨hlive, before, old, new, hlast, hpair, rfl⟩⟩

/-- Whether the entry of a pair has some property can be told from the last time that the pair was
asked for. -/
theorem exists_getElem?_after_iff (history : List Request) (pair : VersionPair)
    (p : CacheEntry → Prop) :
    (∃ e, (after history).entries[pair]? = some e ∧ p e) ↔
      Live history pair ∧ ∃ before old new, LastBuild history before old new ∧
        VersionPair.of old new = pair ∧
          p ⟨old.fingerprint, new.fingerprint, answer before old new⟩ := by
  constructor
  · rintro ⟨e, hentry, he⟩
    obtain ⟨hlive, before, old, new, hlast, hpair, rfl⟩ :=
      (getElem?_after_iff history pair e).1 hentry
    exact ⟨hlive, before, old, new, hlast, hpair, he⟩
  · rintro ⟨hlive, before, old, new, hlast, hpair, he⟩
    exact ⟨_, (getElem?_after_iff history pair _).2
      ⟨hlive, before, old, new, hlast, hpair, rfl⟩, he⟩

/-! ## Numbers -/

/-- All decisions that are kept have been numbered. -/
def Numbered (c : Cache) : Prop :=
  ∀ (pair : VersionPair) (e : CacheEntry),
    c.entries[pair]? = some e → e.decision.serial < c.next

theorem next_le_step (c : Cache) (q : Request) : c.next ≤ (c.step q).next := by
  cases q with
  | getOrBuild old new =>
      rw [step]
      rcases getOrBuild_cases c old new with ⟨_, _, _, heq⟩ | ⟨_, heq⟩
      · rw [heq]
      · rw [heq, decide]
        exact Nat.le_succ _
  | get | invalidate | clear | size | isEmpty => exact Nat.le_refl _

/-- A decision that is returned has been numbered. -/
theorem Numbered.serial_lt (h : c.Numbered) (old new : Language) :
    (c.getOrBuild old new).1.serial < (c.step (.getOrBuild old new)).next := by
  rw [step]
  rcases getOrBuild_cases c old new with ⟨e, hentry, _, heq⟩ | ⟨_, heq⟩
  · rw [heq]
    exact h _ e hentry
  · rw [heq, decide]
    exact Nat.lt_succ_self _

theorem Numbered.step (h : c.Numbered) (q : Request) : (c.step q).Numbered := by
  intro pair e he
  by_cases hbuilds : q.Builds pair
  · obtain ⟨old, new, rfl, rfl⟩ := Request.builds_iff.1 hbuilds
    rw [getElem?_step_of_builds] at he
    rw [← Option.some.inj he]
    exact h.serial_lt old new
  · by_cases hforgets : q.Forgets pair
    · rw [getElem?_step_of_forgets hforgets] at he
      cases he
    · rw [getElem?_step_of_other hbuilds hforgets] at he
      exact Nat.lt_of_lt_of_le (h pair e he) (next_le_step c q)

theorem numbered_after (history : List Request) : (after history).Numbered := by
  induction history using List.reverseRecOn with
  | nil => simp [Numbered, after, empty]
  | append_singleton history q ih =>
      rw [after_concat]
      exact ih.step q

/-- The numbers of all decisions ever returned are below the next one. -/
theorem serial_answer_lt {later : List Request}
    (h : history = before ++ .getOrBuild old new :: later) :
    (answer before old new).serial < (after history).next := by
  induction later using List.reverseRecOn generalizing history with
  | nil =>
      rw [h, after_concat]
      exact (numbered_after before).serial_lt old new
  | append_singleton later q ih =>
      rw [h, ← List.cons_append, ← List.append_assoc, after_concat]
      exact Nat.lt_of_lt_of_le (ih rfl) (next_le_step _ q)

/-! ## Log records -/

/-- A decision warns of nothing but an obstacle. -/
theorem contentsChanged_not_mem_buildLog (old new : Language) :
    contentsChanged old new ∉ Migrator.buildLog old new := by
  intro hmem
  have hfirst : (contentsChanged old new).message.toList.head? = some 'd' := by
    simp only [contentsChanged, String.toList_append, List.append_assoc]
    rfl
  rw [Migrator.buildLog, List.mem_append] at hmem
  rcases hmem with hmem | hmem
  · rw [Migrator.absenceLog, List.mem_map] at hmem
    obtain ⟨_, _, hrecord⟩ := hmem
    cases congrArg LogRecord.level hrecord
  · split at hmem
    · rw [Migrator.contextLog, List.mem_append, List.mem_map, List.mem_singleton] at hmem
      rcases hmem with ⟨_, _, hrecord⟩ | hrecord
      · cases congrArg LogRecord.level hrecord
      · cases congrArg LogRecord.level hrecord
    · rw [List.mem_singleton] at hmem
      rw [hmem] at hfirst
      simp only [String.toList_append, List.append_assoc] at hfirst
      cases hfirst

/-- There is a warning exactly if a decision about other contents is replaced. -/
theorem contentsChanged_mem_log_iff :
    contentsChanged old new ∈ c.getOrBuildLog old new ↔
      ∃ e, c.entries[VersionPair.of old new]? = some e ∧ e.isFor old new = false := by
  unfold getOrBuildLog
  cases hentry : c.entries[VersionPair.of old new]? with
  | none => simp [contentsChanged_not_mem_buildLog]
  | some e => cases hfor : e.isFor old new <;> simp [hfor]

/-! ## What a cache remembers -/

/-- Everything that can be seen of a cache, read off a history of requests. -/
structure Remembers (history : List Request) (c : Cache) : Prop where
  live_iff : ∀ pair, (c.get? pair).isSome ↔ Live history pair
  /-- A live pair has the very object that was returned when it was last asked for. -/
  get?_eq : ∀ before old new, LastBuild history before old new →
    Live history (.of old new) → c.get? (.of old new) = some (answer before old new)
  size_eq : ∃ pairs : Finset VersionPair, (∀ pair, pair ∈ pairs ↔ Live history pair) ∧
    c.size = pairs.card
  isEmpty_iff : c.isEmpty ↔ c.size = 0
  invalidate_iff : ∀ pair, (c.invalidate pair).1 ↔ Live history pair
  /-- The object that is held is returned if the contents are those of the last time. -/
  returned_iff : ∀ old new, c.get? (.of old new) = some (c.getOrBuild old new).1 ↔
    Live history (.of old new) ∧ ∃ before old' new', LastBuild history before old' new' ∧
      VersionPair.of old' new' = .of old new ∧ old'.fingerprint = old.fingerprint ∧
        new'.fingerprint = new.fingerprint
  /-- Otherwise an object is made that was never returned before. -/
  made : ∀ old new, c.get? (.of old new) ≠ some (c.getOrBuild old new).1 →
    (c.getOrBuild old new).1.outcome = Migrator.build old new ∧
      ∀ before old' new' later, history = before ++ .getOrBuild old' new' :: later →
        (c.getOrBuild old new).1.serial ≠ (answer before old' new').serial
  warns_iff : ∀ old new, contentsChanged old new ∈ c.getOrBuildLog old new ↔
    Live history (.of old new) ∧ ∃ before old' new', LastBuild history before old' new' ∧
      VersionPair.of old' new' = .of old new ∧
        (old'.fingerprint ≠ old.fingerprint ∨ new'.fingerprint ≠ new.fingerprint)

theorem get?_after_of_lastBuild (hlast : LastBuild history before old new)
    (hlive : Live history (.of old new)) :
    (after history).get? (.of old new) = some (answer before old new) := by
  have hentry := (getElem?_after_iff history _ _).2 ⟨hlive, before, old, new, hlast, rfl, rfl⟩
  rw [get?, hentry]
  rfl

/-- The live pairs are the keys of the table, each of which stands there once. -/
theorem exists_finset_live (history : List Request) :
    ∃ pairs : Finset VersionPair, (∀ pair, pair ∈ pairs ↔ Live history pair) ∧
      (after history).size = pairs.card := by
  refine ⟨(after history).entries.keys.toFinset, fun pair => ?_, ?_⟩
  · rw [List.mem_toFinset, Std.HashMap.mem_keys, Std.HashMap.mem_iff_isSome_getElem?,
      isSome_getElem?_after_iff]
  · rw [List.toFinset_card_of_nodup Std.HashMap.nodup_keys, Std.HashMap.length_keys]
    rfl

/-- What is kept is returned exactly if it was made for the same contents; anything else is made
anew, under a number of its own. -/
theorem get?_eq_some_getOrBuild_iff (h : c.Numbered) (old new : Language) :
    c.get? (.of old new) = some (c.getOrBuild old new).1 ↔
      ∃ e, c.entries[VersionPair.of old new]? = some e ∧ e.isFor old new := by
  rw [get?]
  rcases getOrBuild_cases c old new with ⟨e, hentry, hfor, heq⟩ | ⟨hnot, heq⟩
  · rw [heq, hentry]
    simp [hfor]
  · rw [heq]
    constructor
    · intro hheld
      obtain ⟨e, hentry, hdecision⟩ := Option.map_eq_some_iff.1 hheld
      have hlt := h _ e hentry
      rw [hdecision, decide] at hlt
      exact absurd hlt (Nat.lt_irrefl _)
    · rintro ⟨e, hentry, hfor⟩
      rw [hnot e hentry] at hfor
      cases hfor

/-- What a cache holds, returns, counts and reports after any history is what the history says. -/
theorem remembers_after (history : List Request) : Remembers history (after history) where
  live_iff pair := by
    rw [get?, Option.isSome_map, isSome_getElem?_after_iff]
  get?_eq _ _ _ := get?_after_of_lastBuild
  size_eq := exists_finset_live history
  isEmpty_iff := by
    rw [isEmpty, Std.HashMap.isEmpty_eq_size_eq_zero, beq_iff_eq]
    rfl
  invalidate_iff pair := by
    rw [invalidate, Std.HashMap.contains_eq_isSome_getElem?, isSome_getElem?_after_iff]
  returned_iff old new := by
    rw [get?_eq_some_getOrBuild_iff (numbered_after history), exists_getElem?_after_iff]
    simp only [CacheEntry.isFor, Bool.and_eq_true, beq_iff_eq]
  made old new hnew := by
    rcases getOrBuild_cases (after history) old new with ⟨e, hentry, hfor, _⟩ | ⟨_, heq⟩
    · exact absurd ((get?_eq_some_getOrBuild_iff (numbered_after history) old new).2
        ⟨e, hentry, hfor⟩) hnew
    · rw [heq]
      refine ⟨rfl, fun before old' new' later hsplit => ?_⟩
      exact Nat.ne_of_gt (serial_answer_lt hsplit)
  warns_iff old new := by
    rw [contentsChanged_mem_log_iff, exists_getElem?_after_iff]
    simp only [CacheEntry.isFor, Bool.and_eq_false_iff, beq_eq_false_iff_ne]

end RegisterMigration.Cache
