import SkegHull.Forward

/-!
# The Language of the Readers

Which files are accepted, and as which values, without a word about how they are read. A file is
accepted as a value exactly when it is a file of it: its header announces the format, and the
last entries with the three ids point at sections that hold the parts of the value.

What is not mentioned is free. In a header these are the flags, the time, the body length and
the reserved bytes. In the table they are the entries with other ids, earlier entries with the
same ids, and the flags and spare bytes of all entries. In the sections they are the reserved
bytes of a meta block, the bytes of an absent adapter, and what follows a model name. And it is
everything that no section covers.

## Main definitions

* `Parts.HoldsSaga`, `Parts.HoldsKvCache`: A file of a value.

## Theorems

* `Parts.exists_points`: A file that passes the checks, taken apart.
* `decodeSagaSections_eq_ok_iff`, `decodeKvSections_eq_ok_iff`: What the sections hold.
* `accepted_exactly`: What is accepted.
-/

namespace SkegHull

open Lib

namespace Parts

/-- The file is one of this saga. -/
structure HoldsSaga (crate : Crc32cCrate) (p : Parts) (s : Saga) : Prop where
  announces : p.Announces .saga
  metaBlock : ∃ reserved entry, p.Points crate 1 (s.metaBlock.layout reserved) entry
  centroids : ∃ entry, p.Points crate 2 (s.centroids.flatMap Centroid.bytes) entry
  tags : ∃ entry, p.Points crate 3
    (toLe (UInt32.ofNat s.tags.length) ++ s.tags.flatMap TagEntry.bytes) entry
  counts : s.centroids.length < 2 ^ 32 ∧ s.tags.length < 2 ^ 32
  encodable : s.Encodable

/-- The file is one of this cache. -/
structure HoldsKvCache (crate : Crc32cCrate) (build : Build) (p : Parts) (c : KvCache) : Prop where
  announces : p.Announces .kvCache
  identity : ∃ hidden rest entry, p.Points crate 1 (c.identity.layout hidden rest) entry
  shape : ∃ entry, p.Points crate 2 c.shape.encode entry
  blob : ∃ entry, p.Points crate 3 (Blob.encode c.kvBlob c.nextLogits) entry
  name : c.kvMeta.ShortName
  size : c.shape.expectedBlobBytes build = (.ok c.kvBlob.length : Outcome Error Nat)

section

variable (crate : Crc32cCrate)

/-- A file that passes the checks of a reader, taken apart. -/
theorem exists_points (format : FormatId) (ids : SectionIds) (all : Bytes) (header : Header)
    (a b c : SectionEntry) (h : Verified crate ⟨format, 1⟩ ids all header a b c) :
    ∃ p : Parts, p.file crate = all ∧ p.Announces format ∧
      p.Points crate ids.first (a.payload all) a ∧ p.Points crate ids.second (b.payload all) b ∧
      p.Points crate ids.third (c.payload all) c := by
  have hlong := h.opened.long
  rcases exists_parts crate all header (by omega) h.opened.trailer h.opened.parsed with
    ⟨p, rfl, hcounted⟩
  exact ⟨p, rfl, points_of_verified crate p hcounted format ids header a b c h⟩

end

end Parts

/-- What the three sections of a saga hold. -/
theorem decodeSagaSections_eq_ok_iff (build : Build) (first second third : Bytes)
    (hsecond : second.length < 2 ^ 63) (hthird : third.length < 2 ^ 63) (s : Saga) :
    decodeSagaSections build first second third = .ok s ↔
      (∃ reserved, first = s.metaBlock.layout reserved) ∧
      second = s.centroids.flatMap Centroid.bytes ∧
      third = toLe (UInt32.ofNat s.tags.length) ++ s.tags.flatMap TagEntry.bytes ∧
      (s.centroids.length < 2 ^ 32 ∧ s.tags.length < 2 ^ 32) ∧ s.Encodable := by
  unfold decodeSagaSections
  simp only [Outcome.bind_eq_ok_iff, SagaMeta.decode_eq_ok_iff,
    Centroid.decode_eq_ok_iff build second _ _ hsecond, Tags.decode_eq_ok_iff build third hthird,
    Outcome.ok.injEq]
  constructor
  · rintro ⟨m, hfirst, cs, ⟨hcount, hdims, hcs⟩, ts, ⟨hshort, hfew, hts⟩, rfl⟩
    have hblock : (Saga.metaBlock ⟨m.tenantId, m.builtAt, m.recordCount, m.embeddingDim, cs, ts⟩)
        = m := by
      rw [Saga.metaBlock]
      dsimp only
      rw [hcount, UInt32.ofNat_toNat]
    rw [hblock]
    have hlt := m.centroidCount.toNat_lt
    exact ⟨hfirst, hcs, hts, ⟨hcount.trans_lt hlt, hfew⟩, ⟨hdims, hshort⟩⟩
  · rintro ⟨hfirst, hcs, hts, ⟨hcount, hfew⟩, he⟩
    refine ⟨s.metaBlock, hfirst, s.centroids, ⟨?_, he.dims, hcs⟩, s.tags, ⟨he.tags, hfew, hts⟩, rfl⟩
    exact (toNat_ofNat32 _ hcount).symm

/-- What the three sections of a cache hold. -/
theorem decodeKvSections_eq_ok_iff (build : Build) (first second third : Bytes)
    (hthird : third.length < 2 ^ 63) (c : KvCache) :
    decodeKvSections build first second third = .ok c ↔
      (∃ hidden rest, first = c.identity.layout hidden rest) ∧ c.shape.encode = second ∧
      Blob.encode c.kvBlob c.nextLogits = third ∧ c.kvMeta.ShortName ∧
      c.shape.expectedBlobBytes build = (.ok c.kvBlob.length : Outcome Error Nat) := by
  unfold decodeKvSections
  simp only [Outcome.bind_eq_ok_iff, Identity.decode_eq_ok_iff, KvCacheShape.decode_eq_ok_iff,
    Prod.exists, Blob.decode_eq_ok_iff build third hthird, failIf_eq_ok_iff, not_not, ne_eq,
    exists_const, Outcome.ok.injEq]
  constructor
  · rintro ⟨i, ⟨hname, hfirst⟩, shape, hshape, kv, logits, hblob, n, hn, rfl, rfl⟩
    exact ⟨hfirst, hshape, hblob, hname, hn⟩
  · rintro ⟨hfirst, hshape, hblob, hname, hsize⟩
    exact ⟨c.identity, ⟨hname, hfirst⟩, c.shape, hshape, c.kvBlob, c.nextLogits, hblob,
      c.kvBlob.length, hsize, rfl, rfl⟩

/-- A payload is no longer than its file. -/
theorem Parts.Points.length_lt {crate : Crc32cCrate} {p : Parts} {typeId : UInt16}
    {payload : Bytes} {entry : SectionEntry} (h : p.Points crate typeId payload entry) (n : Nat)
    (hlen : (p.file crate).length < n) : payload.length < n := by
  have hle := length_payload_le entry p.body
  rw [h.holds, Parts.length_body] at hle
  rw [Parts.length_file] at hlen
  omega

/-- A file is accepted as a value exactly when it is a file of it. -/
theorem accepted_exactly (crate : Crc32cCrate) (build : Build) (reader : Stream)
    (hb : reader.Benign) (hlen : reader.bytes.length < 2 ^ 63) :
    (∀ s : Saga, readSaga crate build reader = .ok s ↔
      ∃ p : Parts, p.file crate = reader.bytes ∧ p.HoldsSaga crate s) ∧
    (∀ c : KvCache, readKvCache crate build reader = .ok c ↔
      ∃ p : Parts, p.file crate = reader.bytes ∧ p.HoldsKvCache crate build c) := by
  have hlt : ∀ entry : SectionEntry, (entry.payload reader.bytes).length < 2 ^ 63 :=
    fun entry => Nat.lt_of_le_of_lt (length_payload_le entry reader.bytes) hlen
  refine ⟨fun s => ⟨fun h => ?_, ?_⟩, fun c => ⟨fun h => ?_, ?_⟩⟩
  · rcases readSaga_inv crate build reader hb (by omega) s h with ⟨header, m, c, t, hacc⟩
    rcases Parts.exists_points crate .saga sagaSectionIds _ header m c t hacc.verified with
      ⟨p, hp, ha, h1, h2, h3⟩
    rcases (decodeSagaSections_eq_ok_iff build _ _ _ (hlt c) (hlt t) s).mp hacc.sections with
      ⟨⟨reserved, hm⟩, hc, ht, hcounts, he⟩
    exact ⟨p, hp, ha, ⟨reserved, m, hm ▸ h1⟩, ⟨c, hc ▸ h2⟩, ⟨t, ht ▸ h3⟩, hcounts, he⟩
  · rintro ⟨p, hp, ha, ⟨reserved, e1, h1⟩, ⟨e2, h2⟩, ⟨e3, h3⟩, hcounts, he⟩
    rw [← hp] at hlen
    rw [Parts.readSaga_points crate p build reader hb hp.symm (by omega) ha e1 e2 e3 _ _ _ h1 h2 h3,
      decodeSagaSections_eq_ok_iff build _ _ _ (h2.length_lt _ hlen) (h3.length_lt _ hlen)]
    exact ⟨⟨reserved, rfl⟩, rfl, rfl, hcounts, he⟩
  · rcases readKvCache_inv crate build reader hb (by omega) c h with ⟨header, i, s, b, hacc⟩
    rcases Parts.exists_points crate .kvCache kvSectionIds _ header i s b hacc.verified with
      ⟨p, hp, ha, h1, h2, h3⟩
    rcases (Identity.decode_eq_ok_iff build _ _).mp hacc.identity with ⟨hname, hidden, rest, hi⟩
    have hs := (KvCacheShape.decode_eq_ok_iff _ _).mp hacc.shape
    have hblob := (Blob.decode_eq_ok_iff build _ (hlt b) _ _).mp hacc.blob
    exact ⟨p, hp, ha, ⟨hidden, rest, i, hi ▸ h1⟩, ⟨s, hs ▸ h2⟩, ⟨b, hblob ▸ h3⟩, hname, hacc.size⟩
  · rintro ⟨p, hp, ha, ⟨hidden, rest, e1, h1⟩, ⟨e2, h2⟩, ⟨e3, h3⟩, hname, hsize⟩
    rw [← hp] at hlen
    rw [Parts.readKvCache_points crate p build reader hb hp.symm (by omega) ha e1 e2 e3 _ _ _ h1 h2
      h3, decodeKvSections_eq_ok_iff build _ _ _ (h3.length_lt _ hlen)]
    exact ⟨⟨hidden, rest, rfl⟩, rfl, rfl, hname, hsize⟩

/-- The sample cache without its adapter. -/
def bareCache : KvCache := { sampleKvCache with adapterId := none }

/-- A file of it in another order, with bytes for the adapter and behind the model name. -/
def bareParts : Parts :=
  futureParts castagnoli .kvCache
    (bareCache.identity.layout ⟨List.replicate 32 0xff, List.length_replicate⟩ [1, 2, 3])
    bareCache.shape.encode (Blob.encode bareCache.kvBlob bareCache.nextLogits)

/-- A file of the sample saga in another order, with reserved bytes set. -/
def reservedParts : Parts :=
  futureParts castagnoli .saga
    (sampleSaga.metaBlock.layout ⟨List.replicate 24 0xff, List.length_replicate⟩)
    sampleSaga.container.second sampleSaga.container.third

theorem reservedParts_holds : reservedParts.HoldsSaga castagnoli sampleSaga := by
  rcases futureParts_carries castagnoli .saga
    (sampleSaga.metaBlock.layout ⟨List.replicate 24 0xff, List.length_replicate⟩)
    sampleSaga.container.second sampleSaga.container.third (by decide +kernel) with
    ⟨⟨e1, _, h1⟩, ⟨e2, _, h2⟩, ⟨e3, _, h3⟩⟩
  exact ⟨futureParts_announces castagnoli .saga _ _ _, ⟨_, e1, h1⟩, ⟨e2, h2⟩, ⟨e3, h3⟩,
    by decide, sampleSaga_encodable⟩

theorem bareParts_holds (build : Build) : bareParts.HoldsKvCache castagnoli build bareCache := by
  rcases futureParts_carries castagnoli .kvCache
    (bareCache.identity.layout ⟨List.replicate 32 0xff, List.length_replicate⟩ [1, 2, 3])
    bareCache.shape.encode (Blob.encode bareCache.kvBlob bareCache.nextLogits)
    (by decide +kernel) with ⟨⟨e1, _, h1⟩, ⟨e2, _, h2⟩, ⟨e3, _, h3⟩⟩
  refine ⟨futureParts_announces castagnoli .kvCache _ _ _, ⟨_, _, e1, h1⟩, ⟨e2, h2⟩, ⟨e3, h3⟩,
    by decide, ?_⟩
  rw [KvCacheShape.expectedBlobBytes_eq build _ (by decide)]
  rfl

/-- What is free in the two files does not matter. -/
theorem accepted_exactly_sample :
    readSaga castagnoli .debug (Stream.ofBytes (reservedParts.file castagnoli)) = .ok sampleSaga ∧
    readKvCache castagnoli .debug (Stream.ofBytes (bareParts.file castagnoli)) = .ok bareCache := by
  have hsaga : (reservedParts.file castagnoli).length < 2 ^ 63 := by decide +kernel
  have hkv : (bareParts.file castagnoli).length < 2 ^ 63 := by decide +kernel
  exact ⟨((accepted_exactly castagnoli .debug (Stream.ofBytes (reservedParts.file castagnoli))
      (Stream.benign_ofBytes _) hsaga).1 sampleSaga).mpr ⟨reservedParts, rfl, reservedParts_holds⟩,
    ((accepted_exactly castagnoli .debug (Stream.ofBytes (bareParts.file castagnoli))
      (Stream.benign_ofBytes _) hkv).2 bareCache).mpr ⟨bareParts, rfl, bareParts_holds .debug⟩⟩

end SkegHull
