import SkegHull.KvCache.Blob
import SkegHull.KvCache.Identity
import SkegHull.KvCache.Shape
import SkegHull.Saga.Centroid
import SkegHull.Saga.Tags

/-!
# One Encoding for Each Value

A section that decodes to a value is the encoding of that value, so no two
sections mean the same. This is true of the tags and the centroids
(`saga_sections_canonical`), and of the blob and the shape
(`kv_sections_canonical`). Their decoders compare the length of the section with
what they have used up, and so leave no byte unread.

The identity section has the same layout written down and an encoder that keeps
to it, but its decoder has two gaps. It does not compare the end of the name with
the end of the section, and it does not look at the bytes of an adapter that is
absent. `identity_canonical_iff` says that there are no others.

A slice is at most `2 ^ 63 - 1` bytes long, and that is the only bound.

## Theorems

* `saga_sections_canonical`: The tag and centroid sections.
* `kv_sections_canonical`: The blob and shape sections.
* `identity_canonical_iff`: When an identity section is the encoding of what it
  decodes to.
* `identity_not_canonical`: Two sections that are not.
-/

namespace SkegHull

open Lib

/-- Tags and centroids have exactly one encoding, in every build. -/
theorem saga_sections_canonical (build : Build) (b : Bytes) (hlen : b.length < 2 ^ 63) :
    (∀ v : List TagEntry,
      Tags.decode build b = .ok v ↔ v.length < 2 ^ 32 ∧ Tags.encode v = .ok b) ∧
    ∀ (count dim : UInt32) (v : List Centroid),
      Centroid.decode build b count dim = .ok v ↔
        v.length = count.toNat ∧ Centroid.encode v dim = .ok b := by
  constructor
  · intro v
    rw [Tags.decode_eq_ok_iff build b hlen v]
    by_cases hs : ∀ e ∈ v, e.Short
    · rw [(Tags.encode_eq v).1 hs, Outcome.ok.injEq]
      exact ⟨fun h => ⟨h.2.1, h.2.2.symm⟩, fun h => ⟨hs, h.1, h.2.symm⟩⟩
    · -- A tag that is too long has no encoding.
      refine ⟨fun h => absurd h.1 hs, fun h => ?_⟩
      have herr := (Tags.encode_eq v).2 (by simpa only [not_forall, exists_prop] using hs)
      rw [h.2] at herr
      exact absurd herr (Outcome.not_isErr_ok b)
  · intro count dim v
    rw [Centroid.decode_eq_ok_iff build b dim count hlen v]
    by_cases hd : ∀ c ∈ v, c.vector.length = dim.toNat
    · rw [(Centroid.encode_eq v dim).1 hd, Outcome.ok.injEq]
      exact ⟨fun h => ⟨h.1, h.2.2.symm⟩, fun h => ⟨h.1, hd, h.2.symm⟩⟩
    · refine ⟨fun h => absurd h.2.1 hd, fun h => ?_⟩
      have herr := (Centroid.encode_eq v dim).2 (by simpa only [not_forall, exists_prop] using hd)
      rw [h.2] at herr
      exact absurd herr (Outcome.not_isErr_ok b)

/-- One tag, and one centroid of dimension one. -/
theorem saga_sections_canonical_sample :
    Tags.decode .release [1, 0, 0, 0, 5, 0, 0, 0, 1, 0, 97] = .ok [⟨5, "a"⟩] ∧
    Centroid.decode .debug [3, 0, 0, 0, 0, 0, 128, 63] 1 1 = .ok [⟨3, [0x3f800000]⟩] :=
  ⟨((saga_sections_canonical .release [1, 0, 0, 0, 5, 0, 0, 0, 1, 0, 97] (by decide)).1
      [⟨5, "a"⟩]).mpr ⟨by decide, by decide +kernel⟩,
    ((saga_sections_canonical .debug [3, 0, 0, 0, 0, 0, 128, 63] (by decide)).2 1 1
      [⟨3, [0x3f800000]⟩]).mpr ⟨rfl, by decide +kernel⟩⟩

/-- The blob and the shape have exactly one encoding, in every build, so two sections that
    decode to the same value are equal. -/
theorem kv_sections_canonical (build : Build) (b : Bytes) (hlen : b.length < 2 ^ 63) :
    (∀ (kv : Bytes) (logits : Option Bytes),
      Blob.decode build b = .ok (kv, logits) ↔ Blob.encode kv logits = b) ∧
    (∀ s : KvCacheShape, KvCacheShape.decode b = .ok s ↔ s.encode = b) ∧
    ∀ b' : Bytes, b'.length < 2 ^ 63 →
      (∀ v, Blob.decode build b = .ok v → Blob.decode build b' = .ok v → b = b') ∧
      ∀ s, KvCacheShape.decode b = .ok s → KvCacheShape.decode b' = .ok s → b = b' := by
  refine ⟨Blob.decode_eq_ok_iff build b hlen, KvCacheShape.decode_eq_ok_iff b,
    fun b' hlen' => ⟨?_, ?_⟩⟩
  · rintro ⟨kv, logits⟩ h h'
    rw [Blob.decode_eq_ok_iff build b hlen] at h
    rw [Blob.decode_eq_ok_iff build b' hlen'] at h'
    rw [← h, h']
  · intro s h h'
    rw [KvCacheShape.decode_eq_ok_iff] at h h'
    rw [← h, h']

/-- A blob of two bytes without logits, and a shape with a quantization trailer. -/
theorem kv_sections_canonical_sample :
    Blob.decode .release [0, 2, 0, 0, 0, 0, 0, 0, 0, 8, 9] = .ok ([8, 9], none) ∧
    KvCacheShape.decode
        [1, 0, 0, 0, 2, 0, 0, 0, 4, 0, 0, 0, 3, 0, 0, 0, 1, 1, 2, 0, 0, 0, 4]
      = .ok ⟨1, 2, 4, 3, .f16, .contiguous, some ⟨2, 4⟩⟩ :=
  ⟨((kv_sections_canonical .release [0, 2, 0, 0, 0, 0, 0, 0, 0, 8, 9] (by decide)).1
      [8, 9] none).mpr (by decide +kernel),
    ((kv_sections_canonical .release
      [1, 0, 0, 0, 2, 0, 0, 0, 4, 0, 0, 0, 3, 0, 0, 0, 1, 1, 2, 0, 0, 0, 4] (by decide)).2.1
      ⟨1, 2, 4, 3, .f16, .contiguous, some ⟨2, 4⟩⟩).mpr (by decide +kernel)⟩

/-- An identity section is the encoding of what it decodes to exactly when it ends with
    the name and does not hide the bytes of an absent adapter. -/
theorem identity_canonical_iff (build : Build) (b : Bytes) (i : Identity)
    (h : Identity.decode build b = .ok i) :
    Identity.encode i.modelFp i.adapterId i.prefixHash i.kvMeta = .ok b ↔
      b.length = Identity.nameEnd b ∧ ¬ Identity.HiddenAdapter b := by
  rcases Identity.bytes_of_decode build b i h with ⟨hend, hlength, hbytes, hadapter⟩
  rw [(Identity.encode_eq i).1 (Identity.shortName_of_decode build b i h), Outcome.ok.injEq,
    ← hadapter]
  have hmin : 111 ≤ Identity.nameEnd b := Nat.le_add_right _ _
  constructor
  · intro heq
    refine ⟨by rw [← hlength, heq], ?_⟩
    -- The bytes of the adapter lie between the fingerprint and the rest.
    have hcut := congrArg (fun bytes => cut bytes 32 65) (hbytes.symm.trans heq)
    rw [cut_append_right _ _ _ _ (by rw [length_cut]; omega), length_cut_of_le _ _ _ (by omega)]
      at hcut
    rw [← hcut]
    exact (cut_append_exact _ _ _ (Identity.length_adapterBytes _).symm).symm
  · rintro ⟨hstop, hsame⟩
    rw [hbytes, hsame, cut_append_cut _ _ _ _ (by omega) (by omega),
      cut_append_cut _ _ _ _ (by omega) (by omega), ← hstop, cut_exact _ _ rfl]

/-- An identity of zeros, without an adapter and without a name. -/
def blankIdentity : Identity := ⟨Octets.zero 32, none, Octets.zero 32, ⟨0, 0, ""⟩⟩

/-- The section of such an identity. -/
def blankSection : Bytes := List.replicate 111 0

theorem identity_canonical_iff_sample :
    Identity.encode blankIdentity.modelFp blankIdentity.adapterId blankIdentity.prefixHash
      blankIdentity.kvMeta = .ok blankSection :=
  (identity_canonical_iff .release blankSection blankIdentity (by decide +kernel)).mpr
    (by decide +kernel)

/-- A byte behind the name, and a byte in place of the absent adapter: both sections decode to
    the blank identity, and it has neither of them for its encoding. -/
theorem identity_not_canonical :
    let trailing := blankSection ++ [7]
    let hidden := List.replicate 33 0 ++ [7] ++ List.replicate 77 0
    let encoded := Identity.encode blankIdentity.modelFp blankIdentity.adapterId
      blankIdentity.prefixHash blankIdentity.kvMeta
    Identity.decode .release trailing = .ok blankIdentity ∧ encoded ≠ .ok trailing ∧
    Identity.decode .release hidden = .ok blankIdentity ∧ encoded ≠ .ok hidden := by
  decide +kernel

end SkegHull
