import RegisterMigration.Proofs.Migration.AddedFields

/-!
# Maps between any two registers

A context map is built for two registers, but its fields come from the two languages, and nothing
says that the registers are the ones that the fields belong to.  Whether there is a map depends on
the fields that both languages declare and on the width of the new register; of the old register only
the width matters, and only for whether the map changes anything.

Every old field is carried over or dropped.  Both lists are in the order of the old language, so
together they are a way of interleaving that gives its fields back.  Every new field is carried over
to or added; there the fields that are carried over stand in the order of the other language, and
only as sets of fields do the two lists make up the new language.

## Main results

* `exists_build_iff` — when there is a map between two registers.
* `interleaved_moves_dropped`, `perm_moves_added` — where each field is listed.
* `identity_iff_same_fields` — when a map changes nothing.
* `build_partitions_fields` — all of it.
-/

namespace RegisterMigration

/-! ## Interleaved lists -/

/-- A list is made up of two others, each in its order. -/
inductive Interleaved {α : Type} : List α → List α → List α → Prop where
  | nil : Interleaved [] [] []
  | left {x : α} {xs ys zs : List α} : Interleaved xs ys zs → Interleaved (x :: xs) ys (x :: zs)
  | right {y : α} {xs ys zs : List α} : Interleaved xs ys zs → Interleaved xs (y :: ys) (y :: zs)

/-- What is kept of a list and what is left of it make it up. -/
theorem interleaved_filter {α : Type} (p : α → Bool) (zs : List α) :
    Interleaved (zs.filter p) (zs.filter fun z => !p z) zs := by
  induction zs with
  | nil => exact .nil
  | cons z zs ih =>
      by_cases hz : p z
      · simp only [List.filter_cons, hz, Bool.not_true]
        exact .left ih
      · simp only [List.filter_cons, hz, Bool.not_false]
        exact .right ih

theorem Interleaved.perm {α : Type} {xs ys zs : List α} (h : Interleaved xs ys zs) :
    (xs ++ ys).Perm zs := by
  induction h with
  | nil => exact .refl []
  | left _ ih => exact ih.cons _
  | right _ ih => exact List.perm_middle.trans (ih.cons _)

/-! ## The two sides of a move -/

/-- The field that a move carries over, as the old language declares it. -/
def FieldMove.oldField (m : FieldMove) : ContextField :=
  ⟨m.name, m.old⟩

/-- The field that a move leads to, as the new language declares it. -/
def FieldMove.newField (m : FieldMove) : ContextField :=
  ⟨m.name, m.new⟩

theorem ContextField.eq_of_name_range {f g : ContextField} (hname : f.name = g.name)
    (hrange : f.range = g.range) : f = g := by
  cases f
  cases g
  exact congrArg₂ ContextField.mk hname hrange

namespace ContextMap

variable {old new : Language} {r n : Register} {c : ContextMap}

/-! ## Whether there is a map -/

/-- There is a map exactly if fields that both languages declare keep their sizes, end in the new
register, and are apart in the new layout. -/
theorem exists_build_iff :
    (∃ c, build old r new n = .ok c) ↔
      old.SharedSized new ∧ (∀ g, new.Shares old g → g.range.hi.toNat < n.bitSize.toNat) ∧
        new.SharedApart old := by
  have hends : (∀ g, new.Shares old g → g.range.hi.toNat < n.bitSize.toNat) ↔
      ∀ m ∈ movesBetween old new, m.new.hi.toNat < n.bitSize.toNat := by
    constructor
    · intro h m hm
      obtain ⟨f, hf, g, hg, hname, rfl⟩ := mem_movesBetween_iff.1 hm
      exact h g ⟨hg, f, hf, hname⟩
    · rintro h g ⟨hg, f, hf, hname⟩
      exact h _ (mem_movesBetween_of_name_eq hf hg hname)
  calc (∃ c, build old r new n = .ok c)
      ↔ conflict? n.bitSize (movesBetween old new) = none := by
        simp only [build_eq_ok_iff, exists_and_left, exists_eq, and_true]
    _ ↔ (∀ m ∈ movesBetween old new, m.old.size = m.new.size ∧ m.new.hi.toNat < n.bitSize.toNat) ∧
          new.SharedApart old := by
        rw [conflict?, Option.or_eq_none_iff, overlapConflict?_eq_none_iff, ← sharedApart_new_iff,
          List.findSome?_eq_none_iff]
        refine and_congr_left' (forall₂_congr fun m hm => ?_)
        exact moveConflict?_eq_none_iff hm
    _ ↔ _ := by
        rw [sharedSized_iff, hends, ← and_assoc]
        refine and_congr_left' ?_
        exact ⟨fun h => ⟨fun m hm => (h m hm).1, fun m hm => (h m hm).2⟩,
          fun h m hm => ⟨h.1 m hm, h.2 m hm⟩⟩

/-! ## Where each field is listed -/

/-- The old fields that are carried over are those that the new language has too. -/
theorem map_oldField_movesBetween (old new : Language) :
    (movesBetween old new).map FieldMove.oldField =
      old.contextFields.filter fun f => (new.contextField? f.name).isSome := by
  rw [movesBetween, List.map_filterMap, ← List.filterMap_eq_filter]
  refine List.filterMap_congr fun f _ => ?_
  cases hfield : new.contextField? f.name with
  | none => simp [Option.guard, hfield]
  | some g => simp [Option.guard, hfield, FieldMove.oldField]

theorem filter_isNone_eq (a b : Language) :
    (a.contextFields.filter fun f => (b.contextField? f.name).isNone) =
      a.contextFields.filter fun f => !(b.contextField? f.name).isSome := by
  refine List.filter_congr fun f _ => ?_
  exact (Option.not_isSome _).symm

/-- Every old field is carried over or dropped, in old order. -/
theorem interleaved_moves_dropped (old new : Language) :
    ∃ fields, fields.map (·.name) = missingFrom old new ∧
      Interleaved ((movesBetween old new).map FieldMove.oldField) fields old.contextFields := by
  refine ⟨_, rfl, ?_⟩
  rw [map_oldField_movesBetween, filter_isNone_eq]
  exact interleaved_filter _ _

/-- The moves are the pairs of an old field and a new one. -/
theorem mem_movesBetween_iff_fields (m : FieldMove) :
    m ∈ movesBetween old new ↔
      m.oldField ∈ old.contextFields ∧ m.newField ∈ new.contextFields := by
  rw [mem_movesBetween_iff]
  constructor
  · rintro ⟨f, hf, g, hg, hname, rfl⟩
    have hnew : FieldMove.newField ⟨f.name, f.range, g.range⟩ = g :=
      ContextField.eq_of_name_range hname rfl
    rw [hnew]
    exact ⟨hf, hg⟩
  · intro h
    exact ⟨m.oldField, h.1, m.newField, h.2, rfl, rfl⟩

/-- The new fields that are carried over to are those that the old language has too.  They are
listed in the order of the old one. -/
theorem perm_newField_movesBetween (old new : Language) :
    ((movesBetween old new).map FieldMove.newField).Perm
      (new.contextFields.filter fun g => (old.contextField? g.name).isSome) := by
  have hmoves : ((movesBetween old new).map FieldMove.newField).Nodup := by
    rw [List.Nodup, List.pairwise_map]
    refine (movesBetween_pairwise_name old new).imp fun hne heq => ?_
    exact hne (congrArg ContextField.name heq)
  have hfields : new.contextFields.Nodup := List.Nodup.of_map _ new.contextFields_nodup
  apply (List.perm_ext_iff_of_nodup hmoves (hfields.filter _)).2
  intro g
  rw [List.mem_filter, Option.isSome_iff_exists, List.mem_map]
  simp only [mem_movesBetween_iff_fields, Language.contextField?_eq_some_iff]
  constructor
  · rintro ⟨m, ⟨hold, hnew⟩, rfl⟩
    exact ⟨hnew, m.oldField, hold, rfl⟩
  · rintro ⟨hg, f, hf, hname⟩
    refine ⟨⟨g.name, f.range, g.range⟩, ⟨?_, hg⟩, rfl⟩
    show ContextField.mk g.name f.range ∈ old.contextFields
    rwa [← hname]

/-- Every new field is carried over to or added. -/
theorem perm_moves_added (old new : Language) :
    ∃ fields, fields.map (·.name) = missingFrom new old ∧
      ((movesBetween old new).map FieldMove.newField ++ fields).Perm new.contextFields := by
  refine ⟨_, rfl, ?_⟩
  rw [filter_isNone_eq]
  exact ((perm_newField_movesBetween old new).append_right _).trans (interleaved_filter _ _).perm

/-! ## Maps that change nothing -/

/-- Two languages have the same fields exactly if none is missing from either and none has moved. -/
theorem same_fields_iff :
    (∀ f, f ∈ old.contextFields ↔ f ∈ new.contextFields) ↔
      missingFrom old new = [] ∧ missingFrom new old = [] ∧
        ∀ m ∈ movesBetween old new, m.old = m.new := by
  rw [missingFrom_eq_nil_iff, missingFrom_eq_nil_iff]
  constructor
  · intro h
    refine ⟨fun f hf => ⟨f, (h f).1 hf, rfl⟩, fun g hg => ⟨g, (h g).2 hg, rfl⟩, ?_⟩
    intro m hm
    obtain ⟨f, hf, g, hg, hname, rfl⟩ := mem_movesBetween_iff.1 hm
    exact congrArg ContextField.range (Language.eq_of_field_name_eq hf ((h g).2 hg) hname)
  · rintro ⟨hold, hnew, hunmoved⟩ f
    -- A field of one language is the field of that name in the other one, as it has not moved.
    constructor
    · intro hf
      obtain ⟨g, hg, hname⟩ := hold f hf
      have hrange : f.range = g.range := hunmoved _ (mem_movesBetween_of_name_eq hf hg hname.symm)
      rwa [ContextField.eq_of_name_range hname.symm hrange]
    · intro hf
      obtain ⟨g, hg, hname⟩ := hnew f hf
      have hrange : g.range = f.range := hunmoved _ (mem_movesBetween_of_name_eq hg hf hname)
      rwa [← ContextField.eq_of_name_range hname hrange]

/-- A map changes nothing exactly if both registers have one width and both languages the same
fields at the same bits. -/
theorem identity_iff_same_fields (h : build old r new n = .ok c) :
    c.identity ↔ r.bitSize = n.bitSize ∧ ∀ f, f ∈ old.contextFields ↔ f ∈ new.contextFields := by
  rw [identity_iff_of_build h, same_fields_iff]

/-! ## Everything about a map -/

/-- No name is listed twice among the moves and the fields that a language has besides. -/
theorem nodup_names (old new : Language) :
    ((movesBetween old new).map (·.name) ++ missingFrom old new).Nodup ∧
      ((movesBetween old new).map (·.name) ++ missingFrom new old).Nodup := by
  obtain ⟨dropped, hdropped, hold⟩ := interleaved_moves_dropped old new
  obtain ⟨added, hadded, hnew⟩ := perm_moves_added old new
  have holdNames := (hold.perm.map (·.name)).nodup_iff.2 old.contextFields_nodup
  have hnewNames := (hnew.map (·.name)).nodup_iff.2 new.contextFields_nodup
  rw [List.map_append, List.map_map, hdropped] at holdNames
  rw [List.map_append, List.map_map, hadded] at hnewNames
  exact ⟨holdNames, hnewNames⟩

/-- What there is to know of a map between any two registers of two languages.  It exists exactly if
the fields that both languages declare keep their sizes, end in the new register, and are apart in
the new layout.  It then carries over the fields that both languages declare and no others.  What is
carried over and what is dropped make up the old fields in their order, what is carried over to and
what is added make up the new ones, and no field is listed twice.  It changes nothing exactly if the
registers have one width and the languages the same fields at the same bits. -/
theorem build_partitions_fields (old new : Language) (r n : Register) :
    ((∃ c, build old r new n = .ok c) ↔
      old.SharedSized new ∧ (∀ g, new.Shares old g → g.range.hi.toNat < n.bitSize.toNat) ∧
        new.SharedApart old) ∧
    ∀ c, build old r new n = .ok c →
      (∀ m, m ∈ c.moves ↔
        m.oldField ∈ old.contextFields ∧ m.newField ∈ new.contextFields) ∧
      (∃ fields, fields.map (·.name) = c.dropped ∧
        Interleaved (c.moves.map FieldMove.oldField) fields old.contextFields) ∧
      (∃ fields, fields.map (·.name) = c.added ∧
        (c.moves.map FieldMove.newField ++ fields).Perm new.contextFields) ∧
      (c.moves.map (·.name) ++ c.dropped).Nodup ∧ (c.moves.map (·.name) ++ c.added).Nodup ∧
      (c.identity ↔
        r.bitSize = n.bitSize ∧ ∀ f, f ∈ old.contextFields ↔ f ∈ new.contextFields) := by
  refine ⟨exists_build_iff, fun c h => ?_⟩
  have hidentity := identity_iff_same_fields h
  obtain ⟨_, rfl⟩ := build_eq_ok_iff.1 h
  exact ⟨mem_movesBetween_iff_fields, interleaved_moves_dropped old new, perm_moves_added old new,
    (nodup_names old new).1, (nodup_names old new).2, hidentity⟩

/-- Fields that change sides, one that is dropped between them, and one that is added. -/
def exchangedFields : Language × Language :=
  (Migrator.contextOnly "ctx" 0 8 [⟨"mode", ⟨0, 1⟩⟩, ⟨"trace", ⟨1, 2⟩⟩, ⟨"level", ⟨4, 6⟩⟩] (by decide),
    Migrator.contextOnly "state" 4 16 [⟨"flags", ⟨3, 3⟩⟩, ⟨"level", ⟨0, 2⟩⟩, ⟨"mode", ⟨9, 10⟩⟩]
      (by decide))

/-- They can be carried over to a register of 16 bits, but not to the eight bits of `control`. -/
theorem build_partitions_fields_exchanged :
    (∃ c, build exchangedFields.1 control exchangedFields.2 { control with bitSize := 16 } = .ok c ∧
      c.identity = false ∧ c.dropped = ["trace"] ∧ c.added = ["flags"] ∧
      ∃ f, f.name = "trace" ∧
        Interleaved (c.moves.map FieldMove.oldField) [f] exchangedFields.1.contextFields) ∧
    ¬ ∃ c, build exchangedFields.1 control exchangedFields.2 control = .ok c := by
  constructor
  · obtain ⟨c, hc⟩ : ∃ c, build exchangedFields.1 control exchangedFields.2
        { control with bitSize := 16 } = .ok c := ⟨_, rfl⟩
    obtain ⟨-, ⟨fields, hfields, hold⟩, -, -, -, hidentity⟩ :=
      (build_partitions_fields _ _ _ _).2 c hc
    have hlists : c.dropped = ["trace"] ∧ c.added = ["flags"] := by
      obtain ⟨_, rfl⟩ := build_eq_ok_iff.1 hc
      decide
    rw [hlists.1, List.map_eq_singleton_iff] at hfields
    obtain ⟨f, rfl, hname⟩ := hfields
    have hwidths : ¬ c.identity = true := fun h =>
      absurd (hidentity.1 h).1 (by decide)
    exact ⟨c, hc, Bool.eq_false_iff.2 hwidths, hlists.1, hlists.2, f, hname, hold⟩
  · rw [(build_partitions_fields _ _ _ _).1]
    rintro ⟨-, hends, -⟩
    exact absurd (hends ⟨"mode", ⟨9, 10⟩⟩ ⟨by decide, ⟨"mode", ⟨0, 1⟩⟩, by decide, rfl⟩) (by decide)

end ContextMap

end RegisterMigration
