import Mathlib.Algebra.Group.Nat.Defs
import RegisterMigration.Definition.Canonical
import RegisterMigration.Proofs.Definition.Printer
import RegisterMigration.Proofs.Toml.Integers

/-!
# Documents and definitions

A definition that has a document is given back by it.  Which ones have none is a matter of numbers
alone: offsets of registers go up to `2 ^ 64`, and integers of documents to half of that.  The
reader asks for no more than an offset of 64 bits, but what it finds is an integer of the document,
so a definition that was read can be written again.

## Main results

* `toToml?_eq_none_iff` — the definitions without a document.
* `writable_of_ofToml` — a definition that was read has one.
* `toml_roundTrip` — writing and reading.
-/

namespace RegisterMigration

open Toml

/-! ## Integers that were decoded -/

namespace Toml

theorem decodeUInt64_lt {v : Node} (hv : v.Bounded) {n : UInt64} (h : decodeUInt64 v = .ok n) :
    n.toNat < UInt64.size / 2 := by
  cases hv with
  | integer hi =>
      rename_i i
      rw [decodeUInt64, decodeNat] at h
      split at h
      · rename_i hrange
        rw [← Except.ok.inj h, UInt64.toNat_ofNat']
        have hmod := Nat.mod_le i.toNat (2 ^ 64)
        omega
      · cases h
  | string | float | boolean | dateTime | array | table | tables => cases h

theorem Node.Bounded.entries? {v : Node} (hv : v.Bounded) {e : Entries}
    (h : v.entries? = some e) : e.Bounded := by
  cases hv with
  | table hentries =>
      rw [← Option.some.inj h]
      exact hentries
  | dateTime =>
      rw [← Option.some.inj h]
      exact Entries.bounded_nil
  | string | integer | float | boolean | array | tables => cases h

theorem Node.Bounded.items? {v : Node} (hv : v.Bounded) {items : List Node}
    (h : v.items? = some items) : ∀ w ∈ items, w.Bounded := by
  cases hv with
  | array hitems =>
      rw [← Option.some.inj h]
      exact hitems
  | tables helements =>
      rw [← Option.some.inj h]
      intro w hw
      obtain ⟨e, he, rfl⟩ := List.mem_map.1 hw
      exact .table (helements e he)
  | string | integer | float | boolean | dateTime | table => cases h

theorem exists_of_map_eq_ok {α β : Type} {f : α → β} {x : Except DecodeError α} {b : β}
    (h : x.map f = .ok b) : ∃ a, x = .ok a ∧ f a = b := by
  cases x with
  | error e => cases h
  | ok a => exact ⟨a, rfl, Except.ok.inj h⟩

theorem exists_of_bind_eq_ok {α β : Type} {f : α → Except DecodeError β}
    {x : Except DecodeError α} {b : β} (h : (x >>= f) = .ok b) : ∃ a, x = .ok a ∧ f a = .ok b := by
  cases x with
  | error e => cases h
  | ok a => exact ⟨a, rfl, h⟩

/-- What holds before any step and is kept by every step holds in the end. -/
theorem foldlM_invariant {σ α : Type} {step : σ → α → Except DecodeError σ} {xs : List α}
    {P : σ → Prop} (hstep : ∀ x ∈ xs, ∀ s s', P s → step s x = .ok s' → P s') {s s' : σ}
    (hs : P s) (h : xs.foldlM step s = .ok s') : P s' := by
  induction xs generalizing s with
  | nil =>
      cases h
      exact hs
  | cons x xs ih =>
      rw [List.forall_mem_cons] at hstep
      rw [List.foldlM_cons] at h
      obtain ⟨t, ht, hrest⟩ := exists_of_bind_eq_ok h
      exact ih hstep.2 (hstep.1 s t hs ht) hrest

theorem exists_of_mem_mapM {α β : Type} {f : α → Except DecodeError β} {xs : List α}
    {ys : List β} (h : xs.mapM f = .ok ys) : ∀ y ∈ ys, ∃ x ∈ xs, f x = .ok y := by
  induction xs generalizing ys with
  | nil =>
      cases h
      simp
  | cons x xs ih =>
      rw [List.mapM_cons] at h
      obtain ⟨y, hy, h⟩ := exists_of_bind_eq_ok h
      obtain ⟨zs, hzs, h⟩ := exists_of_bind_eq_ok h
      cases h
      rw [List.forall_mem_cons]
      refine ⟨⟨x, List.mem_cons_self, hy⟩, fun z hz => ?_⟩
      obtain ⟨w, hw, hfw⟩ := ih hzs z hz
      exact ⟨w, List.mem_cons_of_mem x hw, hfw⟩

end Toml

/-! ## Registers that were decoded -/

namespace RegisterDecl

/-- The offset that has been filled in, if any, is an integer of a document. -/
def Draft.OffsetBounded (d : Draft) : Prop :=
  ∀ n, d.offset = some n → n.toNat < UInt64.size / 2

theorem offsetBounded_set {d d' : Draft} (hd : d.OffsetBounded) {key : String} {v : Node}
    (hv : v.Bounded) (h : shape.set d key v = .ok d') : d'.OffsetBounded := by
  simp only [shape] at h
  split at h
  · obtain ⟨_, _, rfl⟩ := exists_of_map_eq_ok h
    exact hd
  · obtain ⟨_, _, rfl⟩ := exists_of_map_eq_ok h
    exact hd
  · obtain ⟨n, hn, rfl⟩ := exists_of_map_eq_ok h
    intro m hm
    rw [← Option.some.inj hm]
    exact decodeUInt64_lt hv hn
  · obtain ⟨_, _, rfl⟩ := exists_of_map_eq_ok h
    exact hd
  · obtain ⟨_, _, rfl⟩ := exists_of_map_eq_ok h
    exact hd
  · cases h
    exact hd

theorem offset_of_finish {d : Draft} {r : RegisterDecl} (h : shape.finish d = .ok r) :
    d.offset = some r.offset := by
  obtain ⟨name, space, offset, bitSize, context⟩ := d
  cases name <;> cases space <;> cases offset <;> cases bitSize <;> cases h
  rfl

/-- However the fields of a register come, its offset is an integer of the document. -/
theorem offset_lt_of_fields {fields : List (String × Node)} (hfields : ∀ a ∈ fields, a.2.Bounded)
    {d : Draft} (hfold : fields.foldlM (fun d (key, v) => shape.set d key v) shape.empty = .ok d)
    {r : RegisterDecl} (hfinish : shape.finish d = .ok r) :
    r.offset.toNat < UInt64.size / 2 := by
  have hempty : shape.empty.OffsetBounded := by
    intro n hn
    cases hn
  have hbounded : d.OffsetBounded :=
    foldlM_invariant (fun a ha _ _ hd h => offsetBounded_set hd (hfields a ha) h) hempty hfold
  exact hbounded r.offset (offset_of_finish hfinish)

/-- A register in a document may be written as a table or as a list. -/
theorem offset_lt_of_decode {v : Node} (hv : v.Bounded) {r : RegisterDecl}
    (h : shape.decode v = .ok r) : r.offset.toNat < UInt64.size / 2 := by
  rw [RecordShape.decode] at h
  split at h
  · rename_i entries hentries
    obtain ⟨d, hd, hfinish⟩ := exists_of_bind_eq_ok h
    exact offset_lt_of_fields (hv.entries? hentries) hd hfinish
  · rename_i items _ hitems
    obtain ⟨d, hd, hfinish⟩ := exists_of_bind_eq_ok h
    split at hfinish
    · cases hfinish
    · refine offset_lt_of_fields (fun a ha => ?_) hd hfinish
      exact hv.items? hitems a.2 (List.of_mem_zip ha).2
  · cases h

end RegisterDecl

/-! ## Definitions that were decoded -/

namespace Definition

variable {d : Definition}

/-- All offsets that have been filled in are integers of a document. -/
def Draft.OffsetsBounded (d : Draft) : Prop :=
  ∀ r ∈ d.registers, r.offset.toNat < UInt64.size / 2

/-- Registers are filled in all at once, and by one key only. -/
theorem registers_of_set {d d' : Draft} {key : String} {v : Node} (h : d.set key v = .ok d') :
    d'.registers = d.registers ∨
      decodeList RegisterDecl.shape.decode v = .ok d'.registers := by
  by_cases hkey : key = "register"
  · rw [hkey] at h
    obtain ⟨registers, hregisters, rfl⟩ := exists_of_map_eq_ok h
    exact Or.inr hregisters
  · left
    unfold Draft.set at h
    split at h
    all_goals first
      | exact absurd rfl hkey
      | obtain ⟨_, _, rfl⟩ := exists_of_map_eq_ok h
        rfl
      | cases h
        rfl

theorem offsetsBounded_set {d d' : Draft} (hd : d.OffsetsBounded) {key : String} {v : Node}
    (hv : v.Bounded) (h : d.set key v = .ok d') : d'.OffsetsBounded := by
  intro r hr
  rcases registers_of_set h with hsame | hdecoded
  · exact hd r (hsame ▸ hr)
  · rw [decodeList] at hdecoded
    split at hdecoded
    · rename_i items hitems
      obtain ⟨w, hw, hdecode⟩ := exists_of_mem_mapM hdecoded r hr
      exact RegisterDecl.offset_lt_of_decode (hv.items? hitems w hw) hdecode
    · cases hdecoded

theorem registers_of_finish {draft : Draft} (h : draft.finish = .ok d) :
    d.registers = draft.registers := by
  obtain ⟨id, processor, endianness, version, spec, _, _, _, _⟩ := draft
  cases id <;> cases processor <;> cases endianness <;> cases version <;> cases spec <;> cases h
  rfl

/-- A definition that was read can be written. -/
theorem writable_of_ofToml {text : String} (h : ofToml text = .ok d) : d.writable := by
  rw [ofToml] at h
  split at h
  · cases h
  rename_i entries hparse
  split at h
  · rename_i e hentries
    cases h
    obtain ⟨draft, hdraft, hfinish⟩ := exists_of_bind_eq_ok hentries
    have hbounded := parse?_bounded hparse
    have hempty : Draft.OffsetsBounded {} := by
      intro r hr
      cases hr
    have hfull : draft.OffsetsBounded :=
      foldlM_invariant (fun a ha _ _ hd h => offsetsBounded_set hd (hbounded a ha) h) hempty hdraft
    rw [writable_iff, registers_of_finish hfinish]
    exact hfull
  · cases h

/-! ## Writing and reading -/

theorem exists_toToml?_iff : (∃ text, d.toToml? = some text) ↔ d.writable := by
  rw [toToml?]
  cases d.writable <;> simp

theorem toToml?_eq_none_iff :
    d.toToml? = none ↔ ∃ r ∈ d.registers, 2 ^ 63 - 1 < r.offset.toNat := by
  have hhalf : UInt64.size / 2 = 2 ^ 63 := by decide
  have hnone : d.toToml? = none ↔ ¬ d.writable := by
    rw [← exists_toToml?_iff, Option.eq_none_iff_forall_not_mem, not_exists]
    rfl
  rw [hnone, writable_iff, hhalf]
  push Not
  exact exists_congr fun r => and_congr_right fun _ => by omega

/-- Writing and reading a definition.  It has no document exactly if the offset of a register is
above the integers of TOML; the document that it has otherwise is read as the very definition, with
the same fingerprint; and what was read from any document can be written and read back. -/
theorem toml_roundTrip (d : Definition) :
    (d.toToml? = none ↔ ∃ r ∈ d.registers, 2 ^ 63 - 1 < r.offset.toNat) ∧
      (∀ text, d.toToml? = some text →
        ∃ e, ofToml text = .ok e ∧ e = d ∧ e.fingerprint = d.fingerprint) ∧
      ∀ text, ofToml text = .ok d → ∃ copy, d.toToml? = some copy ∧ ofToml copy = .ok d := by
  refine ⟨toToml?_eq_none_iff, fun text h => ⟨d, ofToml_of_toToml? h, rfl, rfl⟩, fun text h => ?_⟩
  obtain ⟨copy, hcopy⟩ := exists_toToml?_iff.2 (writable_of_ofToml h)
  exact ⟨copy, hcopy, ofToml_of_toToml? hcopy⟩

end Definition

end RegisterMigration
