import Mathlib.Data.List.Pairwise
import RegisterMigration.Migration.ContextMap
import RegisterMigration.Proofs.BitRange
import RegisterMigration.Proofs.Language.Table

/-!
# Fields that two languages share

Two languages share the context fields whose names both of them declare.  Whether the bits of
these fields can be carried over depends on their ranges alone: each field has to keep its
size, and the new ranges must have no position in common.  The search for a conflict walks
through the fields in old order, first one by one and then two by two; here it is tied to
these conditions.

The old ranges of shared fields may well have a position in common.  That is no conflict, and
`SharedApart` is stated for either side so that the difference can be told.

## Main results

* `mem_movesBetween_iff`, `pairwise_movesBetween_iff` — the moves are the shared fields.
* `conflict?_eq_none_iff` — when there is no conflict.
* `conflict?_eq_some_iff` — which conflict is found, and that no field is out of range.
-/

namespace RegisterMigration

namespace Language

/-- A field of `a` is declared by `b` too, at whatever range. -/
def Shares (a b : Language) (f : ContextField) : Prop :=
  f ∈ a.contextFields ∧ ∃ g ∈ b.contextFields, g.name = f.name

/-- Fields of one name are of one size. -/
def SharedSized (a b : Language) : Prop :=
  ∀ f ∈ a.contextFields, ∀ g ∈ b.contextFields, f.name = g.name → f.range.size = g.range.size

/-- No two fields of `a` that `b` declares too cover a bit of `a` together. -/
def SharedApart (a b : Language) : Prop :=
  ∀ f g, a.Shares b f → a.Shares b g → f.name ≠ g.name →
    ∀ i, ¬ (f.range.covers i ∧ g.range.covers i)

/-- The ends of a context field are in order, and below the top of 32 bits. -/
theorem field_bounds {l : Language} {f : ContextField} (hf : f ∈ l.contextFields) :
    f.range.lo.toNat ≤ f.range.hi.toNat ∧ f.range.hi.toNat + 1 < 2 ^ 32 := by
  obtain ⟨c, hc⟩ := exists_contextRegister_of_mem hf
  obtain ⟨hle, hlt⟩ := field_inside hc hf
  have htop := c.bitSize.toNat_lt
  exact ⟨hle, by omega⟩

end Language

namespace ContextMap

variable {old new : Language}

/-! ## Moves -/

/-- The moves are the shared fields with their two ranges. -/
theorem mem_movesBetween_iff {m : FieldMove} :
    m ∈ movesBetween old new ↔
      ∃ f ∈ old.contextFields, ∃ g ∈ new.contextFields,
        f.name = g.name ∧ m = ⟨f.name, f.range, g.range⟩ := by
  simp only [movesBetween, List.mem_filterMap, Option.map_eq_some_iff,
    Language.contextField?_eq_some_iff]
  constructor
  · intro h
    rcases h with ⟨f, hf, g, ⟨hg, hname⟩, rfl⟩
    exact ⟨f, hf, g, hg, hname.symm, rfl⟩
  · intro h
    rcases h with ⟨f, hf, g, hg, hname, rfl⟩
    exact ⟨f, hf, g, ⟨hg, hname.symm⟩, rfl⟩

/-- A field that both languages declare is moved. -/
theorem mem_movesBetween_of_name_eq {f g : ContextField} (hf : f ∈ old.contextFields)
    (hg : g ∈ new.contextFields) (hname : f.name = g.name) :
    ⟨f.name, f.range, g.range⟩ ∈ movesBetween old new :=
  mem_movesBetween_iff.2 ⟨f, hf, g, hg, hname, rfl⟩

/-- No two moves have one name. -/
theorem movesBetween_pairwise_name (old new : Language) :
    (movesBetween old new).Pairwise fun m k => m.name ≠ k.name := by
  have hnames := old.contextFields_nodup
  rw [List.Nodup, List.pairwise_map] at hnames
  rw [movesBetween, List.pairwise_filterMap]
  refine hnames.imp fun {f g} hne m hm k hk => ?_
  obtain ⟨_, _, rfl⟩ := Option.map_eq_some_iff.1 hm
  obtain ⟨_, _, rfl⟩ := Option.map_eq_some_iff.1 hk
  exact hne

/-- A mutual relation holds along the moves exactly if it holds of any two of them. -/
theorem pairwise_movesBetween_iff {R : FieldMove → FieldMove → Prop}
    (hsymm : ∀ m k, R m k → R k m) :
    (movesBetween old new).Pairwise R ↔
      ∀ m ∈ movesBetween old new, ∀ k ∈ movesBetween old new, m.name ≠ k.name → R m k := by
  constructor
  · intro h m hm k hk hname
    have : Std.Symm R := ⟨hsymm⟩
    exact h.forall hm hk fun heq => hname (congrArg FieldMove.name heq)
  · intro h
    refine (movesBetween_pairwise_name old new).imp_of_mem fun {m k} hm hk hname => ?_
    exact h m hm k hk hname

/-- No field is missing exactly if there is one of each name. -/
theorem missingFrom_eq_nil_iff {a b : Language} :
    missingFrom a b = [] ↔ ∀ f ∈ a.contextFields, ∃ g ∈ b.contextFields, g.name = f.name := by
  rw [missingFrom, List.map_eq_nil_iff, List.filter_eq_nil_iff]
  refine forall₂_congr fun f _ => ?_
  rw [Option.isNone_iff_eq_none, ← ne_eq, Option.ne_none_iff_exists']
  simp only [Language.contextField?_eq_some_iff]

/-- The ranges of a move are those of fields of loaded languages. -/
theorem move_bounds {m : FieldMove} (hm : m ∈ movesBetween old new) :
    (m.old.lo.toNat ≤ m.old.hi.toNat ∧ m.old.hi.toNat + 1 < 2 ^ 32) ∧
      (m.new.lo.toNat ≤ m.new.hi.toNat ∧ m.new.hi.toNat + 1 < 2 ^ 32) := by
  obtain ⟨f, hf, g, hg, _, rfl⟩ := mem_movesBetween_iff.1 hm
  exact ⟨Language.field_bounds hf, Language.field_bounds hg⟩

theorem move_new_inside {c : Register} (hc : new.contextRegister? = some c) {m : FieldMove}
    (hm : m ∈ movesBetween old new) : m.new.hi.toNat < c.bitSize.toNat := by
  obtain ⟨f, _, g, hg, _, rfl⟩ := mem_movesBetween_iff.1 hm
  exact (Language.field_inside hc hg).2

theorem sharedSized_iff :
    old.SharedSized new ↔ ∀ m ∈ movesBetween old new, m.old.size = m.new.size := by
  constructor
  · intro h m hm
    obtain ⟨f, hf, g, hg, hname, rfl⟩ := mem_movesBetween_iff.1 hm
    exact h f hf g hg hname
  · intro h f hf g hg hname
    exact h _ (mem_movesBetween_of_name_eq hf hg hname)

/-- Two moves meet on a side exactly if they cover a position together there. -/
theorem pairwise_apart_iff (side : FieldMove → BitRange)
    (hside : ∀ m ∈ movesBetween old new, (side m).lo.toNat ≤ (side m).hi.toNat) :
    ((movesBetween old new).Pairwise fun m k => ¬ (side m).overlaps (side k)) ↔
      ∀ m ∈ movesBetween old new, ∀ k ∈ movesBetween old new, m.name ≠ k.name →
        ∀ i, ¬ ((side m).covers i ∧ (side k).covers i) := by
  rw [pairwise_movesBetween_iff fun m k h => by rwa [BitRange.overlaps_comm]]
  constructor
  · intro h m hm k hk hname i hi
    exact h m hm k hk hname ((BitRange.overlaps_iff (hside m hm) (hside k hk)).2 ⟨i, hi⟩)
  · intro h m hm k hk hname hmeet
    obtain ⟨i, hi⟩ := (BitRange.overlaps_iff (hside m hm) (hside k hk)).1 hmeet
    exact h m hm k hk hname i hi

/-- The new ranges of shared fields are apart exactly if no two moves meet there. -/
theorem sharedApart_new_iff :
    new.SharedApart old ↔
      (movesBetween old new).Pairwise fun m k => ¬ m.new.overlaps k.new := by
  rw [pairwise_apart_iff FieldMove.new fun m hm => (move_bounds hm).2.1]
  constructor
  · intro h m hm k hk hname
    obtain ⟨f, hf, g, hg, hfg, rfl⟩ := mem_movesBetween_iff.1 hm
    obtain ⟨f', hf', g', hg', hfg', rfl⟩ := mem_movesBetween_iff.1 hk
    exact h g g' ⟨hg, f, hf, hfg⟩ ⟨hg', f', hf', hfg'⟩ (hfg ▸ hfg' ▸ hname)
  · rintro h g g' ⟨hg, f, hf, hfg⟩ ⟨hg', f', hf', hfg'⟩ hname
    exact h _ (mem_movesBetween_of_name_eq hf hg hfg) _ (mem_movesBetween_of_name_eq hf' hg' hfg')
      fun heq => hname (hfg ▸ hfg' ▸ heq)

/-- The old ranges of shared fields are apart exactly if no two moves meet there. -/
theorem sharedApart_old_iff :
    old.SharedApart new ↔
      (movesBetween old new).Pairwise fun m k => ¬ m.old.overlaps k.old := by
  rw [pairwise_apart_iff FieldMove.old fun m hm => (move_bounds hm).1.1]
  constructor
  · intro h m hm k hk hname
    obtain ⟨f, hf, g, hg, hfg, rfl⟩ := mem_movesBetween_iff.1 hm
    obtain ⟨f', hf', g', hg', hfg', rfl⟩ := mem_movesBetween_iff.1 hk
    exact h f f' ⟨hf, g, hg, hfg.symm⟩ ⟨hf', g', hg', hfg'.symm⟩ hname
  · rintro h f f' ⟨hf, g, hg, hfg⟩ ⟨hf', g', hg', hfg'⟩ hname
    exact h _ (mem_movesBetween_of_name_eq hf hg hfg.symm)
      _ (mem_movesBetween_of_name_eq hf' hg' hfg'.symm) hname

/-! ## Conflicts -/

/-- `m` is the first move that meets a later one in the new layout, and `n` the first that it
meets. -/
inductive FirstMeeting : List FieldMove → FieldMove → FieldMove → Prop
  | here {m n : FieldMove} {before after : List FieldMove} :
      (∀ k ∈ before, ¬ m.new.overlaps k.new) → m.new.overlaps n.new →
        FirstMeeting (m :: (before ++ n :: after)) m n
  | later {k m n : FieldMove} {ms : List FieldMove} :
      (∀ j ∈ ms, ¬ k.new.overlaps j.new) → FirstMeeting ms m n → FirstMeeting (k :: ms) m n

/-- The first thing that is wrong with the shared fields: a field of another size, in old
order, or else two fields that meet in the new layout. -/
inductive Clash (old new : Language) : ContextConflict → Prop
  | widthChanged {m : FieldMove} {before after : List FieldMove} :
      movesBetween old new = before ++ m :: after →
        (∀ k ∈ before, k.old.size = k.new.size) → m.old.size ≠ m.new.size →
          Clash old new (.widthChanged m)
  | overlap {m n : FieldMove} :
      old.SharedSized new → FirstMeeting (movesBetween old new) m n →
        Clash old new (.overlap m n)

/-- Nothing is found exactly if no two moves meet in the new layout. -/
theorem overlapConflict?_eq_none_iff (ms : List FieldMove) :
    overlapConflict? ms = none ↔ ms.Pairwise fun m k => ¬ m.new.overlaps k.new := by
  induction ms with
  | nil => simp [overlapConflict?]
  | cons m ms ih =>
      rw [overlapConflict?, List.pairwise_cons, ← ih]
      cases hfind : ms.find? (m.new.overlaps ·.new) with
      | none =>
          have hnone := List.find?_eq_none.1 hfind
          exact ⟨fun h => ⟨hnone, h⟩, fun h => h.2⟩
      | some n =>
          have hn := List.mem_of_find?_eq_some hfind
          have hmeet : m.new.overlaps n.new := by simpa using List.find?_some hfind
          constructor
          · intro h
            cases h
          · rintro ⟨h, _⟩
            exact absurd hmeet (h n hn)

/-- The first meeting of a list is that of its head with what the search finds in the tail, or
else the first meeting of the tail. -/
theorem firstMeeting_cons_iff {k m n : FieldMove} {ms : List FieldMove} :
    FirstMeeting (k :: ms) m n ↔
      (m = k ∧ ms.find? (k.new.overlaps ·.new) = some n) ∨
        (ms.find? (k.new.overlaps ·.new) = none ∧ FirstMeeting ms m n) := by
  rw [List.find?_eq_none]
  constructor
  · intro h
    generalize hlist : k :: ms = list at h
    cases h with
    | here hbefore hmeet =>
        rcases List.cons.inj hlist with ⟨rfl, rfl⟩
        refine Or.inl ⟨rfl, List.find?_eq_some_iff_append.2 ⟨hmeet, _, _, rfl, ?_⟩⟩
        intro i hi
        simpa using hbefore i hi
    | later hnone h =>
        rcases List.cons.inj hlist with ⟨rfl, rfl⟩
        exact Or.inr ⟨hnone, h⟩
  · intro h
    rcases h with ⟨rfl, hfind⟩ | ⟨hnone, h⟩
    · obtain ⟨hmeet, before, after, rfl, hbefore⟩ := List.find?_eq_some_iff_append.1 hfind
      refine .here ?_ hmeet
      intro i hi
      simpa using hbefore i hi
    · exact .later hnone h

/-- What is found is the first meeting. -/
theorem overlapConflict?_eq_some_iff (ms : List FieldMove) (c : ContextConflict) :
    overlapConflict? ms = some c ↔ ∃ m n, FirstMeeting ms m n ∧ c = .overlap m n := by
  induction ms with
  | nil =>
      rw [overlapConflict?]
      constructor
      · intro h
        cases h
      · intro hmeeting
        rcases hmeeting with ⟨m, n, h, _⟩
        cases h
  | cons k ms ih =>
      rw [overlapConflict?]
      simp only [firstMeeting_cons_iff]
      cases ms.find? (k.new.overlaps ·.new) with
      | none =>
          simp only [reduceCtorEq, and_false, true_and, false_or]
          exact ih
      | some j =>
          simp only [reduceCtorEq, false_and, or_false, Option.some.injEq]
          constructor
          · intro h
            exact ⟨k, j, ⟨rfl, rfl⟩, h.symm⟩
          · intro h
            rcases h with ⟨m, n, ⟨rfl, rfl⟩, rfl⟩
            rfl

/-- A shared field does not conflict by itself exactly if it keeps its size and ends below the
width. -/
theorem moveConflict?_eq_none_iff {width : UInt32} {m : FieldMove}
    (hm : m ∈ movesBetween old new) :
    moveConflict? width m = none ↔
      m.old.size = m.new.size ∧ m.new.hi.toNat < width.toNat := by
  obtain ⟨⟨hold, holdtop⟩, hnew, hnewtop⟩ := move_bounds hm
  rw [moveConflict?, ite_not, ← BitRange.width_eq_iff hold holdtop hnew hnewtop]
  by_cases hwidth : m.old.width = m.new.width
  · by_cases hinside : width ≤ m.new.hi
    · have hge : ¬ m.new.hi.toNat < width.toNat :=
        Nat.not_lt.2 (UInt32.le_iff_toNat_le.1 hinside)
      simp [hwidth, hinside, hge]
    · have hlt : m.new.hi.toNat < width.toNat := by
        rw [UInt32.le_iff_toNat_le] at hinside
        exact Nat.lt_of_not_le hinside
      simp [hwidth, hinside, hlt]
  · simp [hwidth]

/-- A shared field conflicts by itself only where it changes its size: the new register was
checked to hold the field when the language was loaded. -/
theorem moveConflict?_eq {c : Register} (hc : new.contextRegister? = some c) {m : FieldMove}
    (hm : m ∈ movesBetween old new) :
    moveConflict? c.bitSize m =
      if m.old.size = m.new.size then none else some (.widthChanged m) := by
  obtain ⟨⟨hold, holdtop⟩, hnew, hnewtop⟩ := move_bounds hm
  have hinside := move_new_inside hc hm
  have hnot : ¬ c.bitSize ≤ m.new.hi := by
    rw [UInt32.le_iff_toNat_le]
    omega
  rw [moveConflict?, if_neg hnot, ite_not]
  simp only [BitRange.width_eq_iff hold holdtop hnew hnewtop]

theorem findSome?_moveConflict?_eq_none_iff {c : Register} (hc : new.contextRegister? = some c) :
    (movesBetween old new).findSome? (moveConflict? c.bitSize) = none ↔ old.SharedSized new := by
  rw [sharedSized_iff, List.findSome?_eq_none_iff]
  refine forall₂_congr fun m hm => ?_
  rw [moveConflict?_eq hc hm]
  simp

/-- There is no conflict exactly if shared fields keep their sizes and stay apart. -/
theorem conflict?_eq_none_iff {c : Register} (hc : new.contextRegister? = some c) :
    conflict? c.bitSize (movesBetween old new) = none ↔
      old.SharedSized new ∧ new.SharedApart old := by
  rw [conflict?, Option.or_eq_none_iff, overlapConflict?_eq_none_iff,
    findSome?_moveConflict?_eq_none_iff hc, sharedApart_new_iff]

/-- The conflict that is found is the first thing that is wrong with the shared fields. -/
theorem conflict?_eq_some_iff {c : Register} (hc : new.contextRegister? = some c)
    {x : ContextConflict} :
    conflict? c.bitSize (movesBetween old new) = some x ↔ Clash old new x := by
  rw [conflict?, Option.or_eq_some_iff, findSome?_moveConflict?_eq_none_iff hc,
    overlapConflict?_eq_some_iff, List.findSome?_eq_some_iff]
  constructor
  · intro h
    rcases h with ⟨before, m, after, hsplit, hm, hbefore⟩ | ⟨hsized, m, n, hmeet, rfl⟩
    · rw [moveConflict?_eq hc (by rw [hsplit]; simp)] at hm
      split at hm
      · cases hm
      · rename_i hne
        rcases Option.some.inj hm with rfl
        refine .widthChanged hsplit (fun k hk => ?_) hne
        have hk' := hbefore k hk
        rw [moveConflict?_eq hc (by rw [hsplit]; simp [hk])] at hk'
        simpa using hk'
    · exact .overlap hsized hmeet
  · intro h
    rcases h with ⟨hsplit, hbefore, hne⟩ | ⟨hsized, hmeet⟩
    · rename_i m before after
      refine Or.inl ⟨before, m, after, hsplit, ?_, fun k hk => ?_⟩
      · rw [moveConflict?_eq hc (by rw [hsplit]; simp), if_neg hne]
      · rw [moveConflict?_eq hc (by rw [hsplit]; simp [hk]), if_pos (hbefore k hk)]
    · exact Or.inr ⟨hsized, _, _, hmeet, rfl⟩

end ContextMap

end RegisterMigration
