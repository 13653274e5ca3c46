import SkegHull.Layout
import SkegHull.Saga.Safety
import SkegHull.KvCache.Safety

/-!
# Truncated Files

No proper prefix of a written file is accepted, whatever the checksum says. The
payloads are arbitrary bytes, so a prefix may well end in the checksum of what is
in front of it, and then the trailer lets it pass. What is left to reject it is
the table. A prefix that still has the whole header and table has the header of
the image, and the third entry of that header points up to the trailer of the
image, which is past the trailer of the prefix.

That an error is returned and nothing panics on the way needs the two safety
results. A prefix that gets as far as the centroids has the meta block of the
image, and the product it asks for is no longer than the centroid section that was
written. A prefix never gets as far as the blob.

The checksum function is arbitrary throughout.

## Theorems

* `Container.opened_take`: A prefix that can be opened has the header of the image.
* `Container.third_not_intact_take`: And its third section does not end in time.
* `truncated_rejected`: Both readers return an error on every proper prefix of
  what was written.
-/

namespace SkegHull

open Lib

namespace Container

variable (crate : Crc32cCrate) (ids : SectionIds) (c : Container) (n : Nat)

/-- A prefix of an image that can be opened has the header and the entries of the
    image. -/
theorem opened_take (header : Header) (first second third : SectionEntry)
    (h : Opened crate c.version ids ((c.image crate ids).take n) header first second third) :
    header = c.header crate ids ∧ first = c.firstEntry crate ids ∧
      second = c.secondEntry crate ids ∧ third = c.thirdEntry crate ids := by
  have himage : Header.parse (c.image crate ids) = .ok (c.header crate ids) := by
    rw [image, parse_body]
  have hparsed := h.parsed
  rw [bodyOf, List.take_take, Header.parse_take _ _ _ himage] at hparsed
  have hheader : header = c.header crate ids := by
    by_cases hoff : (c.header crate ids).firstPayloadOffset
        ≤ min (((c.image crate ids).take n).length - 4) n
    · rw [if_pos hoff] at hparsed
      exact (Outcome.ok.inj hparsed).symm
    · rw [if_neg hoff] at hparsed
      cases hparsed
  have hsections := h.sections
  rw [hheader, requireSections_image, Outcome.ok.injEq, Prod.mk.injEq, Prod.mk.injEq] at hsections
  exact ⟨hheader, hsections.1.symm, hsections.2.1.symm, hsections.2.2.symm⟩

/-- The third section of an image ends at its trailer, so a prefix cuts it off. -/
theorem third_not_intact_take (hf : c.Fits) (hn : n < (c.image crate ids).length) :
    ¬ (c.thirdEntry crate ids).Intact crate ((c.image crate ids).take n) := by
  intro h
  have hstops := (canonical crate ids c hf).stops
  have hinside := h.inside
  have hlen := length_image crate ids c
  rw [List.length_take] at hinside
  omega

/-- A section of a prefix that is intact has the payload it has in the image. -/
theorem payload_take (entry : SectionEntry) (hn : n ≤ (c.image crate ids).length)
    (h : entry.Intact crate ((c.image crate ids).take n)) :
    entry.payload ((c.image crate ids).take n) = entry.payload (c.image crate ids) := by
  have hinside := h.inside
  rw [List.length_take, Nat.min_eq_left hn] at hinside
  exact cut_take _ _ _ _ (by rw [← SectionEntry.stop]; omega)

end Container

/-- The centroids that the meta block asks for are no more than were written. -/
theorem Saga.sectionSize_le (s : Saga) (he : s.Encodable) :
    Centroid.sectionSize s.metaBlock.centroidCount s.metaBlock.embeddingDim
      ≤ s.container.second.length := by
  have hwidth : ∀ c ∈ s.centroids, c.bytes.length = 4 + s.embeddingDim.toNat * 4 := by
    intro c hc
    rw [Centroid.length_bytes, he.dims c hc]
  have hcount : (UInt32.ofNat s.centroids.length).toNat ≤ s.centroids.length := by
    rw [UInt32.toNat_ofNat']
    exact Nat.mod_le _ _
  calc (UInt32.ofNat s.centroids.length).toNat * (4 + s.embeddingDim.toNat * 4)
      ≤ s.centroids.length * (4 + s.embeddingDim.toNat * 4) := Nat.mul_le_mul_right _ hcount
    _ = s.container.second.length := (length_flatMap_const _ _ _ hwidth).symm

section

variable (crate : Crc32cCrate) (build : Build) (n : Nat) (r : Stream)

/-- A proper prefix of the image of a saga is refused. -/
theorem readSaga_take (s : Saga) (he : s.Encodable) (hf : s.container.Fits)
    (hn : n < (s.container.image crate sagaSectionIds).length) (hb : r.Benign)
    (hr : r.bytes = (s.container.image crate sagaSectionIds).take n) :
    (readSaga crate build r).IsErr := by
  have hlen := Container.length_image_lt crate sagaSectionIds _ hf
  have hshort : r.bytes.length < 2 ^ 63 := by
    rw [hr, List.length_take]
    omega
  refine Outcome.isErr_of_safe _ (readSaga_safe crate build r hb hshort ?_) fun v hv => ?_
  · intro header m c t ho hm _ sagaMeta hdecode
    rw [hr] at ho hm hdecode
    rcases Container.opened_take crate sagaSectionIds s.container n _ _ _ _ ho with ⟨_, rfl, _, _⟩
    -- The meta block that is decoded is the one that was written.
    rw [Container.payload_take crate sagaSectionIds s.container n _ (by omega) hm,
      (Container.payload_image crate sagaSectionIds s.container hf).1] at hdecode
    have hmeta : sagaMeta = s.metaBlock := by
      refine Outcome.ok.inj (hdecode.symm.trans ?_)
      exact SagaMeta.decode_encode s.metaBlock
    have hsize := s.sectionSize_le he
    unfold Container.Fits Container.payloadLen at hf
    rw [hmeta]
    omega
  · rcases readSaga_inv crate build r hb (by omega) v hv with ⟨header, m, c, t, hacc⟩
    have ho := hacc.verified.opened
    have ht := hacc.verified.third
    rw [hr] at ho ht
    rcases Container.opened_take crate sagaSectionIds s.container n _ _ _ _ ho with ⟨_, _, _, rfl⟩
    exact Container.third_not_intact_take crate sagaSectionIds s.container n hf hn ht

/-- A proper prefix of the image of a cache is refused. -/
theorem readKvCache_take (c : KvCache) (hf : c.container.Fits)
    (hn : n < (c.container.image crate kvSectionIds).length) (hb : r.Benign)
    (hr : r.bytes = (c.container.image crate kvSectionIds).take n) :
    (readKvCache crate build r).IsErr := by
  have hlen := Container.length_image_lt crate kvSectionIds _ hf
  have hshort : r.bytes.length < 2 ^ 63 := by
    rw [hr, List.length_take]
    omega
  -- The blob section is never intact, so the reader stops before it.
  have hthird : ∀ header i s b,
      Opened crate kvCacheV1 kvSectionIds r.bytes header i s b → ¬ b.Intact crate r.bytes := by
    intro header i s b ho hbl
    rw [hr] at ho hbl
    rcases Container.opened_take crate kvSectionIds c.container n _ _ _ _ ho with ⟨_, _, _, rfl⟩
    exact Container.third_not_intact_take crate kvSectionIds c.container n hf hn hbl
  refine Outcome.isErr_of_safe _ (readKvCache_safe crate r build hb hshort ?_) fun v hv => ?_
  · intro header i s b ho _ _ hbl
    exact absurd hbl (hthird header i s b ho)
  · rcases readKvCache_inv crate build r hb (by omega) v hv with ⟨header, i, s, b, hacc⟩
    exact hthird header i s b hacc.verified.opened hacc.verified.third

end

/-- Every proper prefix of what either writer writes into an empty stream makes the
    reader return an error, in any build and with any checksum function. -/
theorem truncated_rejected (crate : Crc32cCrate) (build build' : Build) (writer reader : Stream)
    (hw : writer.bytes = []) (hb : reader.Benign) (n : Nat) :
    (∀ s : Saga, s.container.Fits → (writeSaga crate build s writer).1 = .ok () →
      n < (writeSaga crate build s writer).2.bytes.length →
      reader.bytes = (writeSaga crate build s writer).2.bytes.take n →
      (readSaga crate build' reader).IsErr) ∧
    (∀ c : KvCache, c.container.Fits → (writeKvCache crate build c writer).1 = .ok () →
      n < (writeKvCache crate build c writer).2.bytes.length →
      reader.bytes = (writeKvCache crate build c writer).2.bytes.take n →
      (readKvCache crate build' reader).IsErr) := by
  constructor
  · intro s hf hok hn hr
    have he := encodable_of_writeSaga crate build s writer hok
    rw [writeSaga_eq crate build s writer he hf hw] at hn hr
    exact readSaga_take crate build' n reader s he hf hn hb hr
  · intro c hf hok hn hr
    have hs := shortName_of_writeKvCache crate build c writer hok
    rw [writeKvCache_eq crate build c writer hs hf hw] at hn hr
    exact readKvCache_take crate build' n reader c hf hn hb hr

/-- The sample values, cut off after 200 bytes. -/
theorem truncated_rejected_sample :
    (readSaga castagnoli .debug (Stream.ofBytes
      ((writeSaga castagnoli .release sampleSaga (Stream.ofBytes [])).2.bytes.take 200))).IsErr ∧
    (readKvCache castagnoli .debug (Stream.ofBytes
      ((writeKvCache castagnoli .release sampleKvCache (Stream.ofBytes [])).2.bytes.take
        200))).IsErr := by
  have hsaga := writeSaga_eq castagnoli .release sampleSaga (Stream.ofBytes [])
    sampleSaga_encodable sampleSaga_fits rfl
  have hkv := writeKvCache_eq castagnoli .release sampleKvCache (Stream.ofBytes []) (by decide)
    sampleKvCache_fits rfl
  constructor
  · refine (truncated_rejected castagnoli .release .debug (Stream.ofBytes []) (Stream.ofBytes _) rfl
      (Stream.benign_ofBytes _) 200).1 sampleSaga sampleSaga_fits (by rw [hsaga]) ?_ rfl
    rw [hsaga, Container.length_image]
    decide
  · refine (truncated_rejected castagnoli .release .debug (Stream.ofBytes []) (Stream.ofBytes _) rfl
      (Stream.benign_ofBytes _) 200).2 sampleKvCache sampleKvCache_fits (by rw [hkv]) ?_ rfl
    rw [hkv, Container.length_image, KvCache.payloadLen_container]
    decide

end SkegHull
