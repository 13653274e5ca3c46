import SkegHull.Saga.RoundTrip
import SkegHull.KvCache.RoundTrip

/-!
# Rewriting What Was Read

Whatever a reader accepts, the writer can write, and the file it writes reads back
as the same value. The accepted file need not be a written one. It may have
another layout, sections and bits of its own, and bytes behind the identity that
nobody looks at. All of that is gone after one rewriting, and a second one changes
nothing.

The argument is about the decoders. Each returns only values that its encoder
takes: a centroid has the dimension of the meta block, a tag and a model name have
lengths that fit in 16 bits because that is how the lengths were stored, and the
counts fit in 32 bits for the same reason. `Saga.Writable` collects this, and
`writable_of_accepted` is that every accepted saga has it. A release build needs
care, since it multiplies without checking: a product that wraps to the length of
the section never gets through the loop, `Centroid.decode_fits`.

What remains is that the new image fits the address space. Sections of the
accepted file may overlap, so the image can be larger than the file, though never
by much more than a factor of two.

## Main definitions

* `Saga.Writable`: The saga is encodable, with counts of 32 bits.

## Theorems

* `writable_of_accepted`: Accepted sagas are writable.
* `accepted_rewrites`: Accepted values can be written, and read back.
-/

namespace SkegHull

open Lib

/-- The saga can be written without loss. -/
structure Saga.Writable (s : Saga) : Prop where
  encodable : s.Encodable
  centroids : s.centroids.length < 2 ^ 32
  tags : s.tags.length < 2 ^ 32

section

variable (crate : Crc32cCrate) (build : Build) (r : Stream)

/-- What the three saga decoders return is writable, and its last two sections are
    the ones it was decoded from. -/
theorem writable_of_sections (first second third : Bytes) (s : Saga)
    (h2 : second.length < 2 ^ 63) (h3 : third.length < 2 ^ 63)
    (h : decodeSagaSections build first second third = .ok s) :
    s.Writable ∧ s.container.second = second ∧ s.container.third = third := by
  unfold decodeSagaSections at h
  simp only [Outcome.bind_eq_ok_iff, Outcome.ok.injEq] at h
  rcases h with ⟨sagaMeta, _, centroids, hcentroids, tags, htags, rfl⟩
  rcases (Tags.decode_eq_ok_iff build third h3 tags).mp htags with ⟨hshort, hcount, hthird⟩
  rcases (Centroid.decode_eq_ok_iff build second _ _ h2 centroids).mp hcentroids with
    ⟨hnumber, hdims, hsecond⟩
  refine ⟨⟨⟨hdims, hshort⟩, ?_, hcount⟩, hsecond.symm, hthird.symm⟩
  rw [hnumber]
  exact sagaMeta.centroidCount.toNat_lt

/-- An accepted saga is writable. -/
theorem writable_of_accepted (hb : r.Benign) (hlen : r.bytes.length < 2 ^ 63) (s : Saga)
    (h : readSaga crate build r = .ok s) :
    s.Writable ∧ s.container.payloadLen ≤ 64 + 2 * r.bytes.length := by
  rcases readSaga_inv crate build r hb (by omega) s h with ⟨header, m, c, t, hacc⟩
  have hc := length_payload_le c r.bytes
  have ht := length_payload_le t r.bytes
  rcases writable_of_sections build _ _ _ s (by omega) (by omega) hacc.sections with
    ⟨hw, hsecond, hthird⟩
  refine ⟨hw, ?_⟩
  have hfirst : s.container.first.length = 64 := s.metaBlock.length_encode
  rw [Container.payloadLen, hfirst, hsecond, hthird]
  omega

/-- An accepted cache has a short name, and its size was checked. -/
theorem shortName_of_accepted (hb : r.Benign) (hlen : r.bytes.length < 2 ^ 63) (c : KvCache)
    (h : readKvCache crate build r = .ok c) :
    c.kvMeta.ShortName ∧
      c.shape.expectedBlobBytes build = (.ok c.kvBlob.length : Outcome Error Nat) ∧
      c.container.payloadLen ≤ 100000 + r.bytes.length := by
  rcases readKvCache_inv crate build r hb (by omega) c h with ⟨header, i, s, b, hacc⟩
  have hs : c.kvMeta.ShortName := Identity.shortName_of_decode build _ _ hacc.identity
  refine ⟨hs, hacc.size, ?_⟩
  -- The blob is the section it was decoded from.
  have hpayload := length_payload_le b r.bytes
  have hblob := congrArg List.length
    ((Blob.decode_eq_ok_iff build _ (by omega) _ _).mp hacc.blob)
  have hquant : (KvCacheShape.quantTrailer c.shape.quant).length ≤ 5 := by
    cases c.shape.quant with
    | none => exact Nat.zero_le _
    | some q => rw [KvCacheShape.length_quantTrailer]
  unfold KvCacheMeta.ShortName at hs
  rw [Blob.length_encode] at hblob
  rw [KvCache.payloadLen_container]
  omega

end

/-- Whatever a reader accepts, the writer writes in any build, as long as the image
    fits. What it writes reads back as the same value, and is what writing that
    value again gives. A file of less than `2 ^ 61` bytes always has an image that
    fits. -/
theorem accepted_rewrites (crate : Crc32cCrate) (build : Build) (r : Stream) (hb : r.Benign)
    (hlen : r.bytes.length < 2 ^ 63) :
    (∀ s, readSaga crate build r = .ok s →
      (r.bytes.length < 2 ^ 61 → s.container.Fits) ∧
      (s.container.Fits → ∀ (build' : Build) (writer : Stream), writer.bytes = [] →
        (writeSaga crate build' s writer).1 = .ok () ∧
        ∀ reader : Stream, reader.Benign →
          reader.bytes = (writeSaga crate build' s writer).2.bytes →
          readSaga crate build reader = .ok s ∧
          ∀ s', readSaga crate build reader = .ok s' →
            (writeSaga crate build' s' writer).1 = .ok () ∧
            (writeSaga crate build' s' writer).2.bytes = reader.bytes)) ∧
    (∀ c, readKvCache crate build r = .ok c →
      (r.bytes.length < 2 ^ 61 → c.container.Fits) ∧
      (c.container.Fits → ∀ (build' : Build) (writer : Stream), writer.bytes = [] →
        (writeKvCache crate build' c writer).1 = .ok () ∧
        ∀ reader : Stream, reader.Benign →
          reader.bytes = (writeKvCache crate build' c writer).2.bytes →
          readKvCache crate build reader = .ok c ∧
          ∀ c', readKvCache crate build reader = .ok c' →
            (writeKvCache crate build' c' writer).1 = .ok () ∧
            (writeKvCache crate build' c' writer).2.bytes = reader.bytes)) := by
  constructor
  · intro s hs
    rcases writable_of_accepted crate build r hb hlen s hs with ⟨hw, hsize⟩
    refine ⟨fun hsmall => ?_, fun hf build' writer hempty => ?_⟩
    · unfold Container.Fits
      omega
    have hwrite := writeSaga_eq crate build' s writer hw.encodable hf hempty
    refine ⟨by rw [hwrite], fun reader hb' hr => ?_⟩
    have himage : reader.bytes = s.container.image crate sagaSectionIds := by rw [hr, hwrite]
    have hread : readSaga crate build reader = .ok s := by
      rw [readSaga_image crate build s.container rfl hf reader hb' himage]
      exact decodeSagaSections_container build s hw.centroids hw.tags hw.encodable hf
    refine ⟨hread, fun s' hs' => ?_⟩
    -- What is read back is the same saga, so it is written the same.
    rw [hread, Outcome.ok.injEq] at hs'
    rw [← hs', hr]
    exact ⟨by rw [hwrite], rfl⟩
  · intro c hc
    rcases shortName_of_accepted crate build r hb hlen c hc with ⟨hs, hblob, hsize⟩
    refine ⟨fun hsmall => ?_, fun hf build' writer hempty => ?_⟩
    · unfold Container.Fits
      omega
    have hwrite := writeKvCache_eq crate build' c writer hs hf hempty
    refine ⟨by rw [hwrite], fun reader hb' hr => ?_⟩
    have himage : reader.bytes = c.container.image crate kvSectionIds := by rw [hr, hwrite]
    have hread : readKvCache crate build reader = .ok c := by
      rw [readKvCache_container crate build c hs hf reader hb' himage, hblob, Outcome.ok_bind,
        failIf_of_not _ _ (not_not.mpr rfl), Outcome.ok_bind]
    refine ⟨hread, fun c' hc' => ?_⟩
    rw [hread, Outcome.ok.injEq] at hc'
    rw [← hc', hr]
    exact ⟨by rw [hwrite], rfl⟩

/-- The sample values, rewritten into a file that a debug build reads. -/
theorem accepted_rewrites_sample :
    readSaga castagnoli .debug (Stream.ofBytes
      (writeSaga castagnoli .release sampleSaga (Stream.ofBytes [])).2.bytes) = .ok sampleSaga ∧
    readKvCache castagnoli .debug (Stream.ofBytes
      (writeKvCache castagnoli .release sampleKvCache (Stream.ofBytes [])).2.bytes)
      = .ok sampleKvCache := by
  have hsaga := accepted_rewrites castagnoli .debug
    (Stream.ofBytes (sampleSaga.container.image castagnoli sagaSectionIds))
    (Stream.benign_ofBytes _)
    (Container.length_image_lt castagnoli sagaSectionIds _ sampleSaga_fits)
  have hkv := accepted_rewrites castagnoli .debug
    (Stream.ofBytes (sampleKvCache.container.image castagnoli kvSectionIds))
    (Stream.benign_ofBytes _)
    (Container.length_image_lt castagnoli kvSectionIds _ sampleKvCache_fits)
  have hrewritten := (hsaga.1 sampleSaga (readSaga_sample .debug)).2 sampleSaga_fits .release
    (Stream.ofBytes []) rfl
  have hrewritten' := (hkv.2 sampleKvCache (readKvCache_sample .debug)).2 sampleKvCache_fits
    .release (Stream.ofBytes []) rfl
  exact ⟨(hrewritten.2 (Stream.ofBytes
      (writeSaga castagnoli .release sampleSaga (Stream.ofBytes [])).2.bytes)
      (Stream.benign_ofBytes _) rfl).1,
    (hrewritten'.2 (Stream.ofBytes
      (writeKvCache castagnoli .release sampleKvCache (Stream.ofBytes [])).2.bytes)
      (Stream.benign_ofBytes _) rfl).1⟩

end SkegHull
