import Mathlib.Data.List.Basic
import RegisterMigration.Definition.Canonical
import RegisterMigration.Proofs.Json.Compact
import RegisterMigration.Proofs.Version

/-!
# The canonical form identifies the definition

A fingerprint is the digest of the canonical bytes of a definition, so it says no more than they
do.  They say everything: each field of a definition stands in its canonical form under a key of
its own, numbers and words and versions are written so that they can be read back, and the compact
text of a value belongs to that value alone.

## Main results

* `toJson_injective` — no two definitions have one canonical form.
* `canonicalBytes_injective` — nor the same canonical bytes.
* `fingerprint_eq_iff` — fingerprints are equal exactly if the digests of these bytes are.
-/

namespace RegisterMigration

/-! ## The parts of a definition -/

theorem Endianness.name_injective : Function.Injective Endianness.name := by
  intro a b h
  cases a <;> cases b <;> first | rfl | exact absurd h (by decide)

theorem SpaceKind.name_injective : Function.Injective SpaceKind.name := by
  intro a b h
  cases a <;> cases b <;> first | rfl | exact absurd h (by decide)

theorem CompilerSpec.toJson_injective : Function.Injective CompilerSpec.toJson := by
  intro a b h
  cases a
  cases b
  simpa [toJson] using h

theorem AddressSpace.toJson_injective : Function.Injective AddressSpace.toJson := by
  intro a b h
  cases a
  cases b
  simp only [toJson, Json.object.injEq, List.cons.injEq, Prod.mk.injEq, Json.string.injEq,
    Json.number.injEq, Json.bool.injEq, UInt32.toNat_inj, true_and, and_true] at h
  simp only [mk.injEq]
  exact ⟨h.1, SpaceKind.name_injective h.2.1, h.2.2⟩

/-- A register that is not the context register has one field less. -/
theorem RegisterDecl.toJson_injective : Function.Injective RegisterDecl.toJson := by
  intro a b h
  obtain ⟨_, _, _, _, c⟩ := a
  obtain ⟨_, _, _, _, d⟩ := b
  cases c with
  | false =>
      cases d with
      | false => simpa [toJson, UInt64.toNat_inj, UInt32.toNat_inj] using h
      | true => simp [toJson] at h
  | true =>
      cases d with
      | false => simp [toJson] at h
      | true => simpa [toJson, UInt64.toNat_inj, UInt32.toNat_inj] using h

theorem ContextField.toJson_injective : Function.Injective ContextField.toJson := by
  intro a b h
  obtain ⟨_, _, _⟩ := a
  obtain ⟨_, _, _⟩ := b
  simpa [toJson, UInt32.toNat_inj] using h

/-! ## Definitions -/

/-- The bytes of an array, read one by one, are those that it holds. -/
theorem toList_eq_toList_data (bytes : ByteArray) : bytes.toList = bytes.data.toList := by
  have hloop : ∀ i r, ByteArray.toList.loop bytes i r = r.reverse ++ bytes.data.toList.drop i := by
    intro i r
    induction i, r using ByteArray.toList.loop.induct bytes with
    | case1 i r hlt ih =>
        have hget : bytes.get! i :: bytes.data.toList.drop (i + 1) = bytes.data.toList.drop i := by
          have hbound : i < bytes.data.toList.length := by simpa using hlt
          rw [List.drop_eq_getElem_cons hbound]
          simp [ByteArray.get!, hlt]
        rw [ByteArray.toList.loop, if_pos hlt, ih, List.reverse_cons, List.append_assoc,
          List.singleton_append, hget]
    | case2 i r hle =>
        rw [ByteArray.toList.loop, if_neg hle, List.drop_eq_nil_of_le]
        · simp
        · simpa using hle
  rw [ByteArray.toList, hloop]
  rfl

namespace Definition

/-- No two definitions have one canonical form. -/
theorem toJson_injective : Function.Injective toJson := by
  intro a b h
  cases a
  cases b
  simp only [toJson, Json.object.injEq, List.cons.injEq, Prod.mk.injEq, Json.string.injEq,
    Json.array.injEq, true_and, and_true] at h
  obtain ⟨hid, hprocessor, hendianness, hversion, hdefault, hspecs, hspaces, hregisters, hfields⟩ :=
    h
  rw [mk.injEq]
  exact ⟨hid, hprocessor, Endianness.name_injective hendianness,
    Version.toString_injective hversion, hdefault,
    List.map_injective_iff.2 CompilerSpec.toJson_injective hspecs,
    List.map_injective_iff.2 AddressSpace.toJson_injective hspaces,
    List.map_injective_iff.2 RegisterDecl.toJson_injective hregisters,
    List.map_injective_iff.2 ContextField.toJson_injective hfields⟩

/-- No two definitions have the same canonical bytes. -/
theorem canonicalBytes_injective : Function.Injective canonicalBytes := by
  intro a b h
  rw [canonicalBytes, canonicalBytes, toList_eq_toList_data, toList_eq_toList_data] at h
  have hbytes : a.toJson.compact.toUTF8 = b.toJson.compact.toUTF8 :=
    ByteArray.ext (Array.toList_inj.1 h)
  exact toJson_injective (Json.compact_injective (String.toByteArray_inj.1 hbytes))

/-- Fingerprints say as much as the digests of the canonical bytes. -/
theorem fingerprint_eq_iff {a b : Definition} :
    a.fingerprint = b.fingerprint ↔
      Hash.Sha256.digest a.canonicalBytes = Hash.Sha256.digest b.canonicalBytes := by
  rw [fingerprint, fingerprint, Fingerprint.ofBytes, Fingerprint.ofBytes, Fingerprint.mk.injEq]
  exact Text.toHex_injective.eq_iff

end Definition

end RegisterMigration
