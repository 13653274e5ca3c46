import SkegHull.Header

/-!
# Saga Meta Section

The fixed 64-byte block at the front of a saga: who it belongs to, when it was
built, and the two numbers the centroid section is read with. Bytes 40 to 63 are
reserved, written as zeros and ignored on reading, so the block is the one
section of a saga that has more than one encoding.

## Main definitions

* `SagaMeta`: The fields.
* `SagaMeta.encode`, `SagaMeta.decode`: The codec.
* `SagaMeta.layout`: All blocks that hold the fields.

## Theorems

* `encode_eq`: The block as a concatenation of its fields.
* `decode_encode`: The block is read back.
* `decode_eq_ok_iff`: What decodes to the fields.
* `decode_safe`: Decoding never panics.
-/

namespace SkegHull

open Lib

/-- Parsed fields of the meta block. -/
structure SagaMeta where
  tenantId : Octets 16
  builtAt : Int64
  recordCount : UInt64
  embeddingDim : UInt32
  centroidCount : UInt32
  deriving DecidableEq

namespace SagaMeta

/-- On-disk size of the block. -/
abbrev metaLen : Nat := 64

/-- Encode the block. -/
def encode (m : SagaMeta) : Bytes :=
  let buf := List.replicate metaLen 0
  let buf := blit buf 0 m.tenantId.val
  let buf := blit buf 16 (toLe m.builtAt)
  let buf := blit buf 24 (toLe m.recordCount)
  let buf := blit buf 32 (toLe m.embeddingDim)
  blit buf 36 (toLe m.centroidCount)

/-- Decode a block. -/
def decode (buf : Bytes) : Outcome Error SagaMeta := do
  failIf (buf.length ≠ metaLen)
    (.malformed s!"SagaMeta block expected {metaLen} bytes, got {buf.length}")
  let tenantId ← readArray 16 buf 0 16
  let builtAt ← readLe Int64 buf 16 24
  let recordCount ← readLe UInt64 buf 24 32
  let embeddingDim ← readLe UInt32 buf 32 36
  let centroidCount ← readLe UInt32 buf 36 40
  .ok ⟨tenantId, builtAt, recordCount, embeddingDim, centroidCount⟩

theorem encode_eq (m : SagaMeta) :
    m.encode = m.tenantId.val ++ (toLe m.builtAt ++ (toLe m.recordCount ++ (toLe m.embeddingDim ++
      (toLe m.centroidCount ++ List.replicate 24 0)))) := by
  have hid := m.tenantId.property
  unfold encode
  simp only [blit_zeros_start, blit_zeros, List.length_append, hid, length_toLe, width_int64,
    width_uint64, width_uint32, metaLen, Nat.reduceAdd, Nat.reduceSub]
  simp only [List.append_assoc]

@[simp] theorem length_encode (m : SagaMeta) : m.encode.length = 64 := by
  have hid := m.tenantId.property
  simp only [encode_eq, List.length_append, hid, length_toLe, width_int64, width_uint64,
    width_uint32, List.length_replicate]

/-- What `decode` returns on a block of the right size. -/
theorem decode_eq (buf : Bytes) (h : buf.length = 64) :
    decode buf = .ok {
      tenantId := ⟨cut buf 0 16, by rw [length_cut_of_le _ _ _ (by omega)]⟩
      builtAt := fromLe Int64 (cut buf 16 24)
      recordCount := fromLe UInt64 (cut buf 24 32)
      embeddingDim := fromLe UInt32 (cut buf 32 36)
      centroidCount := fromLe UInt32 (cut buf 36 40) } := by
  unfold decode metaLen
  rw [failIf_of_not _ _ (by omega), readArray_eq 16 buf 0 16 (by omega) rfl,
    readLe_eq buf 16 24 (by omega) rfl, readLe_eq buf 24 32 (by omega) rfl,
    readLe_eq buf 32 36 (by omega) rfl, readLe_eq buf 36 40 (by omega) rfl]
  rfl

/-- Only the first 40 bytes of a block matter, the rest is reserved. -/
theorem decode_congr (buf buf' : Bytes) (h : buf.length = 64) (h' : buf'.length = 64)
    (heq : buf'.take 40 = buf.take 40) : decode buf' = decode buf := by
  have hcut : ∀ lo hi, hi ≤ 40 → cut buf' lo hi = cut buf lo hi := by
    intro lo hi hhi
    rw [← cut_take buf' lo hi 40 hhi, heq, cut_take buf lo hi 40 hhi]
  rw [decode_eq buf h, decode_eq buf' h']
  simp only [hcut, Nat.reduceLeDiff, le_refl]

/-- A block that holds the fields, with the reserved bytes behind them. -/
def layout (m : SagaMeta) (reserved : Octets 24) : Bytes :=
  m.tenantId.val ++ (toLe m.builtAt ++ (toLe m.recordCount ++ (toLe m.embeddingDim ++
    (toLe m.centroidCount ++ reserved.val))))

/-- The block is read back, whatever the reserved bytes are. -/
theorem decode_layout (m : SagaMeta) (reserved : Octets 24) :
    decode (m.layout reserved) = .ok m := by
  have hid := m.tenantId.property
  have hlen : (m.layout reserved).length = 64 := by
    simp only [layout, List.length_append, hid, reserved.property, length_toLe, width_int64,
      width_uint64, width_uint32]
  rw [decode_eq _ hlen]
  -- Each range is the field that was written into it.
  simp only [layout, cut_append_exact, cut_append_right, hid, length_toLe, width_int64,
    width_uint64, width_uint32, Nat.reduceLeDiff, Nat.reduceSub, le_refl, Nat.sub_self, fromLe_toLe]

/-- The block is read back. -/
theorem decode_encode (m : SagaMeta) : decode m.encode = .ok m := by
  rw [encode_eq]
  exact m.decode_layout (Octets.zero 24)

/-- A block decodes to the fields exactly when it holds them. -/
theorem decode_eq_ok_iff (buf : Bytes) (m : SagaMeta) :
    decode buf = .ok m ↔ ∃ reserved, buf = m.layout reserved := by
  constructor
  · intro h
    have hlen : buf.length = 64 := by
      by_contra hne
      unfold decode at h
      rw [failIf_of _ _ hne, Outcome.err_bind] at h
      cases h
    rw [decode_eq buf hlen, Outcome.ok.injEq] at h
    subst h
    refine ⟨⟨cut buf 40 64, length_cut_of_le _ _ _ (by omega)⟩, ?_⟩
    unfold layout
    dsimp only
    rw [toLe_cut buf 16 24 (by omega) rfl, toLe_cut buf 24 32 (by omega) rfl,
      toLe_cut buf 32 36 (by omega) rfl, toLe_cut buf 36 40 (by omega) rfl]
    iterate 5 rw [cut_append_cut _ _ _ _ (by omega) (by omega)]
    exact (cut_exact _ _ hlen.symm).symm
  · rintro ⟨reserved, rfl⟩
    exact m.decode_layout reserved

/-- Decoding never panics. -/
theorem decode_safe (buf : Bytes) : (decode buf).Safe := by
  by_cases h : buf.length = 64
  · rw [decode_eq buf h]
    exact Outcome.safe_ok _
  · unfold decode
    rw [failIf_of _ _ h, Outcome.err_bind]
    exact Outcome.safe_err _

/-- A block of the wrong size is the only error. -/
theorem decode_errs (buf : Bytes) : (decode buf).Errs Error.Semantic := by
  by_cases h : buf.length = 64
  · rw [decode_eq buf h]
    exact Outcome.errs_ok _ _
  · unfold decode
    rw [failIf_of _ _ h, Outcome.err_bind]
    exact (Outcome.errs_err _ _).mpr trivial

end SagaMeta

end SkegHull
