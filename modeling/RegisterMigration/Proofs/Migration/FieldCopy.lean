import RegisterMigration.Proofs.Migration.SharedFields
import RegisterMigration.Proofs.PartialValue.Counting

/-!
# Copying context fields

A context map describes the new value position by position: the bit at `j` comes from the move
that covers `j` in the new layout.  As the moves of a map that was built are apart there, at
most one move covers a position, and the first one that is found is the only one.

Seen from the other side this says little.  An old bit is the source of as many new bits as
there are moves that cover it in the old layout, and nothing keeps these moves apart.

## Main results

* `build_eq_ok_iff` — when there is a map, and which one.
* `bit_apply_of_covers`, `bit_apply_eq_none` — the bits of a converted value.
* `bit_apply_target` — where the bits of a field arrive.
* `exists_source` — each known bit is the copy of a known bit.
* `two_le_knownCount_apply` — a bit of two fields is copied twice.
* `knownCount_apply_le` — old fields that are apart are not copied twice.
* `apply_eq_foldl_copyField` — copying field after field gives the same value.
-/

namespace RegisterMigration.ContextMap

variable {old new : Language} {r n : Register} {c : ContextMap}

/-! ## Maps that were built -/

/-- There is a map where nothing conflicts. -/
theorem build_eq_ok_iff :
    build old r new n = .ok c ↔
      conflict? n.bitSize (movesBetween old new) = none ∧
        c = {
          register := n.id
          width := n.bitSize
          identity := r.bitSize == n.bitSize && (missingFrom old new).isEmpty
            && (missingFrom new old).isEmpty && (movesBetween old new).all (·.unmoved)
          moves := movesBetween old new
          dropped := missingFrom old new
          added := missingFrom new old } := by
  rw [build]
  cases hconflict : conflict? n.bitSize (movesBetween old new) with
  | none => simp [eq_comm]
  | some x => simp

/-- A map leads to the new context register. -/
theorem register_of_build (h : build old r new n = .ok c) : c.register = n.id := by
  obtain ⟨_, rfl⟩ := build_eq_ok_iff.1 h
  rfl

theorem width_of_build (h : build old r new n = .ok c) : c.width = n.bitSize := by
  obtain ⟨_, rfl⟩ := build_eq_ok_iff.1 h
  rfl

theorem moves_of_build (h : build old r new n = .ok c) : c.moves = movesBetween old new := by
  obtain ⟨_, rfl⟩ := build_eq_ok_iff.1 h
  rfl

theorem identity_iff_of_build (h : build old r new n = .ok c) :
    c.identity ↔
      r.bitSize = n.bitSize ∧ missingFrom old new = [] ∧ missingFrom new old = [] ∧
        ∀ m ∈ movesBetween old new, m.old = m.new := by
  obtain ⟨_, rfl⟩ := build_eq_ok_iff.1 h
  simp only [Bool.and_eq_true, beq_iff_eq, List.isEmpty_iff, List.all_eq_true, FieldMove.unmoved,
    and_assoc]

/-- A map that changes nothing leaves every shared field at its place. -/
theorem unmoved_of_identity (h : build old r new n = .ok c) (hidentity : c.identity)
    {m : FieldMove} (hm : m ∈ movesBetween old new) : m.old = m.new :=
  ((identity_iff_of_build h).1 hidentity).2.2.2 m hm

/-- Fields of a map keep their sizes, and are apart in the new layout. -/
theorem compatible_of_build (hn : new.contextRegister? = some n)
    (h : build old r new n = .ok c) : old.SharedSized new ∧ new.SharedApart old :=
  (conflict?_eq_none_iff hn).1 (build_eq_ok_iff.1 h).1

/-! ## Bits of a converted value -/

/-- Each known bit is the copy of a known bit of a field. -/
theorem exists_source {v : PartialValue} {j : Nat} {b : Bool} (h : (c.apply v).bit j = some b) :
    ∃ m ∈ c.moves, m.new.covers j ∧ v.bit (m.old.lo.toNat + (j - m.new.lo.toNat)) = some b := by
  rw [apply, PartialValue.bit_ofBits] at h
  split at h
  · obtain ⟨m, hfind, hbit⟩ := Option.bind_eq_some_iff.1 h
    have hj : m.new.covers j := by simpa using List.find?_some hfind
    exact ⟨m, List.mem_of_find?_eq_some hfind, hj, hbit⟩
  · cases h

/-- Where no field is, nothing is known. -/
theorem bit_apply_eq_none (v : PartialValue) {j : Nat} (h : ∀ m ∈ c.moves, ¬ m.new.covers j) :
    (c.apply v).bit j = none := by
  rw [Option.eq_none_iff_forall_ne_some]
  intro b hb
  obtain ⟨m, hm, hj, _⟩ := exists_source hb
  exact h m hm hj

/-- Where the moves are apart on a side, one of them at most covers a position there. -/
theorem eq_of_covers (side : FieldMove → BitRange)
    (hside : ∀ m ∈ movesBetween old new, (side m).lo.toNat ≤ (side m).hi.toNat)
    (hapart : (movesBetween old new).Pairwise fun m k => ¬ (side m).overlaps (side k))
    {m k : FieldMove} (hm : m ∈ movesBetween old new) (hk : k ∈ movesBetween old new) {j : Nat}
    (hmj : (side m).covers j) (hkj : (side k).covers j) : m = k := by
  have : Std.Symm fun m k => ¬ (side m).overlaps (side k) :=
    ⟨fun m k h => by rwa [BitRange.overlaps_comm]⟩
  by_contra hne
  refine hapart.forall hm hk hne ?_
  exact (BitRange.overlaps_iff (hside m hm) (hside k hk)).2 ⟨j, hmj, hkj⟩

/-- A new bit belongs to one move at most, since a map was built. -/
theorem eq_of_covers_new (hn : new.contextRegister? = some n) (h : build old r new n = .ok c)
    {m k : FieldMove} (hm : m ∈ movesBetween old new) (hk : k ∈ movesBetween old new) {j : Nat}
    (hmj : m.new.covers j) (hkj : k.new.covers j) : m = k :=
  eq_of_covers FieldMove.new (fun _ hm => (move_bounds hm).2.1)
    (sharedApart_new_iff.1 (compatible_of_build hn h).2) hm hk hmj hkj

/-- The move that covers a position of the new layout is the one that is found. -/
theorem find?_covers (hn : new.contextRegister? = some n) (h : build old r new n = .ok c)
    {m : FieldMove} (hm : m ∈ movesBetween old new) {j : Nat} (hj : m.new.covers j) :
    c.moves.find? (·.new.covers j) = some m := by
  rw [moves_of_build h, find?_eq_some_iff_of_unique]
  · exact ⟨hm, hj⟩
  · intro x hx y hy hxj hyj
    exact eq_of_covers_new hn h hx hy hxj hyj

/-- A field arrives with its bits in order. -/
theorem bit_apply_of_covers (hn : new.contextRegister? = some n)
    (h : build old r new n = .ok c) (v : PartialValue) {m : FieldMove}
    (hm : m ∈ movesBetween old new) {j : Nat} (hj : m.new.covers j) :
    (c.apply v).bit j = v.bit (m.old.lo.toNat + (j - m.new.lo.toNat)) := by
  have hlt : j < c.width.toNat := by
    have hinside := move_new_inside hn hm
    have hhi := (BitRange.covers_iff.1 hj).2
    rw [width_of_build h]
    omega
  rw [apply, PartialValue.bit_ofBits, if_pos hlt, find?_covers hn h hm hj, Option.bind_some]

/-- The position that a field's bit goes to lies in the field's new range. -/
theorem covers_target (hsized : old.SharedSized new) {m : FieldMove}
    (hm : m ∈ movesBetween old new) {p : Nat} (hp : m.old.covers p) :
    m.new.covers (m.new.lo.toNat + (p - m.old.lo.toNat)) := by
  have hsize := sharedSized_iff.1 hsized m hm
  have hbounds := move_bounds hm
  rw [BitRange.covers_iff] at hp ⊢
  rw [BitRange.size, BitRange.size] at hsize
  omega

/-- A field's bit arrives at its new position. -/
theorem bit_apply_target (hn : new.contextRegister? = some n) (h : build old r new n = .ok c)
    (v : PartialValue) {m : FieldMove} (hm : m ∈ movesBetween old new) {p : Nat}
    (hp : m.old.covers p) :
    (c.apply v).bit (m.new.lo.toNat + (p - m.old.lo.toNat)) = v.bit p := by
  rw [bit_apply_of_covers hn h v hm (covers_target (compatible_of_build hn h).1 hm hp)]
  rw [BitRange.covers_iff] at hp
  congr 1
  omega

/-- Moves with an old bit in common are not all unmoved: they are apart in the new layout. -/
theorem identity_eq_false_of_shared_bit (hn : new.contextRegister? = some n)
    (h : build old r new n = .ok c) {m k : FieldMove} (hm : m ∈ movesBetween old new)
    (hk : k ∈ movesBetween old new) (hne : m.name ≠ k.name) {p : Nat} (hmp : m.old.covers p)
    (hkp : k.old.covers p) : c.identity = false := by
  rw [← Bool.not_eq_true]
  intro hidentity
  rw [unmoved_of_identity h hidentity hm] at hmp
  rw [unmoved_of_identity h hidentity hk] at hkp
  exact hne (congrArg FieldMove.name (eq_of_covers_new hn h hm hk hmp hkp))

/-- A bit that two moves have in common in the old layout is copied twice. -/
theorem two_le_knownCount_apply (hn : new.contextRegister? = some n)
    (h : build old r new n = .ok c) {m k : FieldMove} (hm : m ∈ movesBetween old new)
    (hk : k ∈ movesBetween old new) (hne : m.name ≠ k.name) {p : Nat} (hmp : m.old.covers p)
    (hkp : k.old.covers p) {v : PartialValue} (hknown : (v.bit p).isSome) :
    2 ≤ (c.apply v).knownCount := by
  have hsized := (compatible_of_build hn h).1
  have hmtarget := covers_target hsized hm hmp
  have hktarget := covers_target hsized hk hkp
  refine PartialValue.two_le_knownCount (i := m.new.lo.toNat + (p - m.old.lo.toNat))
    (j := k.new.lo.toNat + (p - k.old.lo.toNat)) (fun heq => ?_) ?_ ?_
  · rw [← heq] at hktarget
    exact hne (congrArg FieldMove.name (eq_of_covers_new hn h hm hk hmtarget hktarget))
  · rw [bit_apply_target hn h v hm hmp]
    exact hknown
  · rw [bit_apply_target hn h v hk hkp]
    exact hknown

/-- The old position that a position of the new layout is copied from.  Where no field is, it
does not matter. -/
def source (c : ContextMap) (j : Nat) : Nat :=
  (c.moves.find? (·.new.covers j)).elim j fun m => m.old.lo.toNat + (j - m.new.lo.toNat)

theorem source_of_covers (hn : new.contextRegister? = some n) (h : build old r new n = .ok c)
    {m : FieldMove} (hm : m ∈ movesBetween old new) {j : Nat} (hj : m.new.covers j) :
    c.source j = m.old.lo.toNat + (j - m.new.lo.toNat) := by
  rw [source, find?_covers hn h hm hj, Option.elim_some]

/-- The source of a field's bit lies in the field's old range. -/
theorem covers_source (hn : new.contextRegister? = some n) (h : build old r new n = .ok c)
    {m : FieldMove} (hm : m ∈ movesBetween old new) {j : Nat} (hj : m.new.covers j) :
    m.old.covers (c.source j) := by
  have hsize := sharedSized_iff.1 (compatible_of_build hn h).1 m hm
  have hbounds := move_bounds hm
  rw [source_of_covers hn h hm hj]
  rw [BitRange.covers_iff] at hj ⊢
  rw [BitRange.size, BitRange.size] at hsize
  omega

/-- Where the old ranges of shared fields are apart, no old bit is copied twice, so no more bits
are known than before. -/
theorem knownCount_apply_le (hn : new.contextRegister? = some n)
    (h : build old r new n = .ok c) (hapart : old.SharedApart new) (v : PartialValue) :
    (c.apply v).knownCount ≤ v.knownCount := by
  have hcovered : ∀ j, ((c.apply v).bit j).isSome →
      ∃ m ∈ movesBetween old new, m.new.covers j ∧ (v.bit (c.source j)).isSome := by
    intro j hj
    obtain ⟨b, hb⟩ := Option.isSome_iff_exists.1 hj
    obtain ⟨m, hm, hmj, hbit⟩ := exists_source hb
    rw [moves_of_build h] at hm
    refine ⟨m, hm, hmj, ?_⟩
    rw [source_of_covers hn h hm hmj, hbit]
    rfl
  refine PartialValue.knownCount_le_of_injOn c.source (fun j hj => ?_) fun i j hi hj hij => ?_
  · obtain ⟨_, _, _, hsource⟩ := hcovered j hj
    exact hsource
  · obtain ⟨m, hm, hmi, _⟩ := hcovered i hi
    obtain ⟨k, hk, hkj, _⟩ := hcovered j hj
    have hmeet : m.old.covers (c.source j) := hij ▸ covers_source hn h hm hmi
    obtain rfl : m = k :=
      eq_of_covers FieldMove.old (fun m hm => (move_bounds hm).1.1)
        (sharedApart_old_iff.1 hapart) hm hk hmeet (covers_source hn h hk hkj)
    rw [source_of_covers hn h hm hmi, source_of_covers hn h hm hkj] at hij
    rw [BitRange.covers_iff] at hmi hkj
    omega

/-! ## Field after field

The same value comes about by copying one field after the other, and of each field one bit after
the other.  A later field would overwrite what an earlier one has left at a position that both of
them cover, so this takes a map that was built. -/

/-- The `k`-th bit of a field, copied to its new place. -/
def copyBit (v : PartialValue) (m : FieldMove) (out : PartialValue) (k : Nat) : PartialValue :=
  out.withBit (m.new.lo.toNat + k) (v.bit (m.old.lo.toNat + k))

/-- A field, copied bit by bit as far as both of its ranges go. -/
def copyField (v out : PartialValue) (m : FieldMove) : PartialValue :=
  (List.range (min m.old.size m.new.size)).foldl (copyBit v m) out

/-- After `count` bits of a field, these are at their new places and nothing else has changed. -/
theorem foldl_copyBit (v : PartialValue) (m : FieldMove) (out : PartialValue) (count : Nat) :
    (List.range count).foldl (copyBit v m) out =
      .ofBits out.register out.width fun j =>
        if m.new.lo.toNat ≤ j ∧ j < m.new.lo.toNat + count then
          v.bit (m.old.lo.toNat + (j - m.new.lo.toNat))
        else out.bit j := by
  induction count with
  | zero =>
      rw [List.range_zero, List.foldl_nil]
      refine PartialValue.eq_ofBits fun j _ => ?_
      rw [if_neg (by omega)]
  | succ count ih =>
      rw [List.range_succ, List.foldl_append, ih, List.foldl_cons, List.foldl_nil]
      refine PartialValue.eq_ofBits fun j hj => ?_
      change j < out.width.toNat at hj
      rw [copyBit, PartialValue.bit_withBit, PartialValue.width_ofBits, PartialValue.bit_ofBits,
        if_pos hj]
      by_cases hlast : j = m.new.lo.toNat + count
      · rw [if_pos ⟨hlast, hj⟩, if_pos (by omega)]
        congr 1
        omega
      · rw [if_neg fun hboth => hlast hboth.1]
        by_cases hbefore : m.new.lo.toNat ≤ j ∧ j < m.new.lo.toNat + count
        · rw [if_pos hbefore, if_pos (by omega)]
        · rw [if_neg hbefore, if_neg (by omega)]

/-- Copying a shared field writes its new range and leaves the rest alone. -/
theorem copyField_eq (hsized : old.SharedSized new) (v out : PartialValue) {m : FieldMove}
    (hm : m ∈ movesBetween old new) :
    copyField v out m =
      .ofBits out.register out.width fun j =>
        if m.new.covers j then v.bit (m.old.lo.toNat + (j - m.new.lo.toNat)) else out.bit j := by
  have hsize := sharedSized_iff.1 hsized m hm
  have hbounds := move_bounds hm
  have hrange : ∀ j, (m.new.lo.toNat ≤ j ∧ j < m.new.lo.toNat + m.new.size) ↔
      m.new.covers j := by
    intro j
    rw [BitRange.covers_iff, BitRange.size]
    omega
  rw [copyField, foldl_copyBit, hsize, Nat.min_self]
  simp only [hrange]

/-- Copying moves that are apart writes at each position what the move that covers it brings
there, whatever the order. -/
theorem foldl_copyField (hsized : old.SharedSized new) (v : PartialValue) {ms : List FieldMove}
    (hms : ∀ m ∈ ms, m ∈ movesBetween old new)
    (hapart : ms.Pairwise fun m k => ¬ m.new.overlaps k.new) (out : PartialValue) :
    ms.foldl (copyField v) out =
      .ofBits out.register out.width fun j =>
        (ms.find? (·.new.covers j)).elim (out.bit j) fun m =>
          v.bit (m.old.lo.toNat + (j - m.new.lo.toNat)) := by
  induction ms generalizing out with
  | nil => exact PartialValue.eq_ofBits fun j _ => rfl
  | cons m ms ih =>
      rw [List.pairwise_cons] at hapart
      have hm : m ∈ movesBetween old new := hms m List.mem_cons_self
      have hrest : ∀ k ∈ ms, k ∈ movesBetween old new := by
        intro k hk
        exact hms k (List.mem_cons_of_mem m hk)
      rw [List.foldl_cons, ih hrest hapart.2, copyField_eq hsized v out hm]
      refine PartialValue.eq_ofBits fun j hj => ?_
      change j < out.width.toNat at hj
      rw [PartialValue.bit_ofBits, PartialValue.width_ofBits, PartialValue.bit_ofBits, if_pos hj,
        if_pos hj, List.find?_cons]
      cases hcovers : m.new.covers j with
      | true =>
          -- No later move covers the position, so what `m` has brought there stays.
          have hnone : ms.find? (·.new.covers j) = none := by
            rw [List.find?_eq_none]
            intro k hk hkj
            refine hapart.1 k hk ?_
            have hmle := (move_bounds hm).2.1
            have hkle := (move_bounds (hrest k hk)).2.1
            exact (BitRange.overlaps_iff hmle hkle).2 ⟨j, hcovers, hkj⟩
          rw [hnone]
          rfl
      | false => rfl

/-- The value that a map describes is the one that copying field after field gives. -/
theorem apply_eq_foldl_copyField (hn : new.contextRegister? = some n)
    (h : build old r new n = .ok c) (v : PartialValue) :
    c.apply v = c.moves.foldl (copyField v) (.unknown c.register c.width) := by
  obtain ⟨hsized, hapart⟩ := compatible_of_build hn h
  rw [sharedApart_new_iff, ← moves_of_build h] at hapart
  have hms : ∀ m ∈ c.moves, m ∈ movesBetween old new := by
    intro m hm
    rwa [moves_of_build h] at hm
  rw [foldl_copyField hsized v hms hapart]
  refine PartialValue.ext_bit rfl rfl fun j => ?_
  rw [apply, PartialValue.bit_ofBits, PartialValue.bit_ofBits, PartialValue.bit_unknown]
  cases c.moves.find? (·.new.covers j) with
  | none => rfl
  | some m => rfl

end RegisterMigration.ContextMap
