import SkegHull.Parts
import SkegHull.Saga.RoundTrip
import SkegHull.KvCache.RoundTrip

/-!
# Forward Compatibility

Today's reader on tomorrow's file. A later writer may set flags and reserved
bytes, add sections of its own, and put everything in another order with gaps in
between. As long as it keeps the version, and the file has one section for each of
the three ids with the payload that belongs there, today's reader returns the
value that the payloads encode.

The header is `Parts.Announces`: magic, format, version, the number of entries and
the table offset are as they have to be, and the other fields and the reserved
bytes are anything. Each of the three sections is `Parts.Carries`: one entry of the
table has the id, and it points at the payload, wherever that is. Nothing at all is said
about the entries with other ids. The table is raw bytes here, so entry flags and
the four spare bytes of an entry are free as well.

## Main definitions

* `Parts.Carries`: One section carries this payload.
* `Saga.RoundTrips`, `KvCache.RoundTrips`: The value survives being written.

## Theorems

* `forward_compatible`: The reader returns the value the payloads encode.
-/

namespace SkegHull

open Lib

/-- The saga can be written, and reads back. -/
def Saga.RoundTrips (crate : Crc32cCrate) (build : Build) (s : Saga) : Prop :=
  (writeSaga crate build s (Stream.ofBytes [])).1 = .ok () ∧
  readSaga crate build (Stream.ofBytes (writeSaga crate build s (Stream.ofBytes [])).2.bytes)
    = .ok s

/-- The cache can be written, and reads back. -/
def KvCache.RoundTrips (crate : Crc32cCrate) (build : Build) (c : KvCache) : Prop :=
  (writeKvCache crate build c (Stream.ofBytes [])).1 = .ok () ∧
  readKvCache crate build
    (Stream.ofBytes (writeKvCache crate build c (Stream.ofBytes [])).2.bytes) = .ok c

section

variable (crate : Crc32cCrate) (build : Build)

/-- What a saga that round-trips is decoded from. -/
theorem Saga.RoundTrips.decodes (s : Saga) (hf : s.container.Fits) (h : s.RoundTrips crate build) :
    decodeSagaSections build s.container.first s.container.second s.container.third = .ok s := by
  rcases h with ⟨hwrite, hread⟩
  have he := encodable_of_writeSaga crate build s _ hwrite
  rw [← readSaga_image crate build s.container rfl hf
    (Stream.ofBytes (writeSaga crate build s (Stream.ofBytes [])).2.bytes)
    (Stream.benign_ofBytes _) (by rw [writeSaga_eq crate build s _ he hf rfl]; rfl)]
  exact hread

/-- What a cache that round-trips is decoded from. -/
theorem KvCache.RoundTrips.decodes (c : KvCache) (hf : c.container.Fits)
    (h : c.RoundTrips crate build) :
    decodeKvSections build c.container.first c.container.second c.container.third = .ok c := by
  rcases h with ⟨hwrite, hread⟩
  have hs := shortName_of_writeKvCache crate build c _ hwrite
  rw [← readKvCache_image crate build c.container rfl hf
    (Stream.ofBytes (writeKvCache crate build c (Stream.ofBytes [])).2.bytes)
    (Stream.benign_ofBytes _) (by rw [writeKvCache_eq crate build c _ hs hf rfl]; rfl)]
  exact hread

end

/-- The file has exactly one section with this id, and its payload is this. -/
def Parts.Carries (crate : Crc32cCrate) (p : Parts) (typeId : UInt16) (payload : Bytes) : Prop :=
  ∃ entry, p.entries.filter (fun e => e.typeId = typeId) = [entry] ∧
    p.Points crate typeId payload entry

/-- Whatever a later writer adds, moves or sets, a file that announces version 1
    of a format and carries the encoded payloads of a value reads as that
    value. -/
theorem forward_compatible (crate : Crc32cCrate) (build : Build) (p : Parts)
    (hlen : (p.file crate).length < 2 ^ 64) (reader : Stream) (hb : reader.Benign)
    (hr : reader.bytes = p.file crate) :
    (∀ (s : Saga) (metaBlock : Bytes), s.container.Fits → s.RoundTrips crate build →
      p.Announces .saga →
      -- The reserved bytes of the meta block are free.
      metaBlock.length = 64 → metaBlock.take 40 = s.container.first.take 40 →
      p.Carries crate 1 metaBlock → p.Carries crate 2 s.container.second →
      p.Carries crate 3 s.container.third →
      readSaga crate build reader = .ok s) ∧
    (∀ c : KvCache, c.container.Fits → c.RoundTrips crate build →
      p.Announces .kvCache →
      p.Carries crate 1 c.container.first → p.Carries crate 2 c.container.second →
      p.Carries crate 3 c.container.third →
      readKvCache crate build reader = .ok c) := by
  constructor
  · intro s metaBlock hf hs ha h64 h40 h1 h2 h3
    rcases h1 with ⟨e1, _, h1⟩
    rcases h2 with ⟨e2, _, h2⟩
    rcases h3 with ⟨e3, _, h3⟩
    have hmeta : SagaMeta.decode metaBlock = SagaMeta.decode s.container.first :=
      SagaMeta.decode_congr _ _ s.metaBlock.length_encode h64 h40
    rw [Parts.readSaga_points crate p build reader hb hr hlen ha e1 e2 e3 _ _ _ h1 h2 h3,
      decodeSagaSections, hmeta]
    exact hs.decodes crate build s hf
  · intro c hf hc ha h1 h2 h3
    rcases h1 with ⟨e1, _, h1⟩
    rcases h2 with ⟨e2, _, h2⟩
    rcases h3 with ⟨e3, _, h3⟩
    rw [Parts.readKvCache_points crate p build reader hb hr hlen ha e1 e2 e3 _ _ _ h1 h2 h3]
    exact hc.decodes crate build c hf

/-! ### A file from the future -/

/-- A header with all the free fields set. -/
def futureHead (format : FormatId) : Octets 64 where
  val := magic.val ++ (toLe format.asU16 ++ (toLe (1 : UInt16) ++ (toLe (0xffffffff : UInt32) ++
    (toLe (-1 : Int64) ++ (toLe (0 : UInt64) ++ (toLe (4 : UInt32) ++
      (toLe Header.sectionTableOffset ++ List.replicate 24 0xff)))))))
  property := by simp

/-- The header is good for any table of four entries. -/
theorem futureHead_announces (p : Parts) (format : FormatId) (hhead : p.head = futureHead format)
    (htable : p.table.length = 4) : p.Announces format := by
  refine ⟨?_, ?_, ?_, ?_, ?_⟩
  · simp [hhead, futureHead, cut_append_exact]
  · simp [hhead, futureHead, cut_append_exact, cut_append_right]
  · simp [hhead, futureHead, cut_append_exact, cut_append_right]
  · rw [Parts.Counted, htable, hhead]
    simp only [futureHead, cut_append_exact, cut_append_right, Header.length_magic, length_toLe,
      width_uint16, width_uint32, width_uint64, width_int64, Nat.reduceLeDiff, Nat.reduceSub,
      le_refl, Nat.sub_self, fromLe_toLe]
    rfl
  · simp [hhead, futureHead, cut_append_exact, cut_append_right]

/-- A file of four sections in another order, the first of them unknown and out of
    range, with gaps between the payloads. -/
def futureParts (crate : Crc32cCrate) (format : FormatId) (first second third : Bytes) : Parts where
  head := futureHead format
  table := [
    ⟨_, (⟨99, 0xffff, 0xffffffffffffffff, 7, 0⟩ : SectionEntry).length_bytes⟩,
    ⟨_, (⟨3, 1, UInt64.ofNat 177, UInt64.ofNat third.length,
      crate.crc32c third⟩ : SectionEntry).length_bytes⟩,
    ⟨_, (⟨1, 2, UInt64.ofNat (177 + third.length), UInt64.ofNat first.length,
      crate.crc32c first⟩ : SectionEntry).length_bytes⟩,
    ⟨_, (⟨2, 3, UInt64.ofNat (178 + third.length + first.length), UInt64.ofNat second.length,
      crate.crc32c second⟩ : SectionEntry).length_bytes⟩]
  area := 0xaa :: (third ++ (first ++ (0xbb :: second)))

section

variable (crate : Crc32cCrate) (format : FormatId) (first second third : Bytes)

theorem futureParts_announces :
    (futureParts crate format first second third).Announces format :=
  futureHead_announces _ _ rfl rfl

theorem futureParts_carries (hlen : 200 + first.length + second.length + third.length < 2 ^ 64) :
    (futureParts crate format first second third).Carries crate 1 first ∧
    (futureParts crate format first second third).Carries crate 2 second ∧
    (futureParts crate format first second third).Carries crate 3 third := by
  have hentries : (futureParts crate format first second third).entries = [
      ⟨99, 0xffff, 0xffffffffffffffff, 7, 0⟩,
      ⟨3, 1, UInt64.ofNat 177, UInt64.ofNat third.length, crate.crc32c third⟩,
      ⟨1, 2, UInt64.ofNat (177 + third.length), UInt64.ofNat first.length, crate.crc32c first⟩,
      ⟨2, 3, UInt64.ofNat (178 + third.length + first.length), UInt64.ofNat second.length,
        crate.crc32c second⟩] := by
    simp only [Parts.entries, futureParts, List.map_cons, List.map_nil,
      SectionEntry.ofBytes_bytes]
  have hstart : (futureParts crate format first second third).areaStart = 176 := rfl
  have hlt : (futureParts crate format first second third).body.length < 2 ^ 64 := by
    rw [Parts.length_body, hstart]
    simp only [futureParts, List.length_cons, List.length_append]
    omega
  -- What stands in front of each payload, and what stands behind it.
  have hfirst : (futureParts crate format first second third).area
      = (0xaa :: third) ++ (first ++ (0xbb :: second)) := rfl
  have hsecond : (futureParts crate format first second third).area
      = (0xaa :: (third ++ (first ++ [0xbb]))) ++ (second ++ []) := by simp [futureParts]
  have hthird : (futureParts crate format first second third).area
      = [0xaa] ++ (third ++ (first ++ (0xbb :: second))) := rfl
  refine ⟨⟨⟨1, 2, UInt64.ofNat (177 + third.length), UInt64.ofNat first.length,
      crate.crc32c first⟩, by rw [hentries]; rfl, ?_⟩,
    ⟨⟨2, 3, UInt64.ofNat (178 + third.length + first.length), UInt64.ofNat second.length,
      crate.crc32c second⟩, by rw [hentries]; rfl, ?_⟩,
    ⟨⟨3, 1, UInt64.ofNat 177, UInt64.ofNat third.length, crate.crc32c third⟩,
      by rw [hentries]; rfl, ?_⟩⟩
  · refine Parts.points_of_area crate _ 1 first _ _ _ (177 + third.length) (by rw [hentries]; rfl)
      hfirst ?_ rfl rfl rfl hlt
    rw [hstart, List.length_cons]
    omega
  · refine Parts.points_of_area crate _ 2 second _ _ _ (178 + third.length + first.length)
      (by rw [hentries]; rfl) hsecond ?_ rfl rfl rfl hlt
    rw [hstart]
    simp only [List.length_cons, List.length_append, List.length_nil]
    omega
  · exact Parts.points_of_area crate _ 3 third _ _ _ 177 (by rw [hentries]; rfl) hthird rfl rfl rfl
      rfl hlt

theorem length_futureParts :
    ((futureParts crate format first second third).file crate).length
      = 182 + third.length + first.length + second.length := by
  rw [Parts.length_file]
  simp only [Parts.areaStart, futureParts, List.length_cons, List.length_nil, List.length_append]
  omega

end

theorem sampleSaga_roundTrips : sampleSaga.RoundTrips castagnoli .debug := by
  unfold Saga.RoundTrips
  rw [writeSaga_eq _ _ _ _ sampleSaga_encodable sampleSaga_fits rfl]
  exact ⟨rfl, readSaga_sample .debug⟩

theorem sampleKvCache_roundTrips : sampleKvCache.RoundTrips castagnoli .debug := by
  unfold KvCache.RoundTrips
  rw [writeKvCache_eq _ _ _ _ (by decide) sampleKvCache_fits rfl]
  exact ⟨rfl, readKvCache_sample .debug⟩

/-- The sample values, read from such files. The reserved bytes of the meta block
    are set as well. -/
theorem forward_compatible_sample :
    readSaga castagnoli .debug (Stream.ofBytes ((futureParts castagnoli .saga
        (sampleSaga.container.first.take 40 ++ List.replicate 24 0xff) sampleSaga.container.second
        sampleSaga.container.third).file castagnoli)) = .ok sampleSaga ∧
    readKvCache castagnoli .debug (Stream.ofBytes ((futureParts castagnoli .kvCache
        sampleKvCache.container.first sampleKvCache.container.second
        sampleKvCache.container.third).file castagnoli)) = .ok sampleKvCache := by
  have hsaga := sampleSaga_fits
  have hkv := sampleKvCache_fits
  unfold Container.Fits Container.payloadLen at hsaga hkv
  have hfirst : sampleSaga.container.first.length = 64 := sampleSaga.metaBlock.length_encode
  have h64 : (sampleSaga.container.first.take 40 ++ List.replicate 24 (0xff : UInt8)).length
      = 64 := by
    rw [List.length_append, List.length_take, hfirst, List.length_replicate]
    rfl
  have h40 : (sampleSaga.container.first.take 40 ++ List.replicate 24 (0xff : UInt8)).take 40
      = sampleSaga.container.first.take 40 := by
    rw [List.take_left']
    rw [List.length_take, hfirst]
    rfl
  rcases futureParts_carries castagnoli .saga
    (sampleSaga.container.first.take 40 ++ List.replicate 24 0xff) sampleSaga.container.second
    sampleSaga.container.third (by omega) with ⟨h1, h2, h3⟩
  rcases futureParts_carries castagnoli .kvCache sampleKvCache.container.first
    sampleKvCache.container.second sampleKvCache.container.third (by omega) with ⟨k1, k2, k3⟩
  exact ⟨(forward_compatible castagnoli .debug _ (by rw [length_futureParts]; omega) _
      (Stream.benign_ofBytes _) rfl).1 sampleSaga _ sampleSaga_fits sampleSaga_roundTrips
      (futureParts_announces castagnoli .saga _ _ _) h64 h40 h1 h2 h3,
    (forward_compatible castagnoli .debug _ (by rw [length_futureParts]; omega) _
      (Stream.benign_ofBytes _) rfl).2 sampleKvCache sampleKvCache_fits sampleKvCache_roundTrips
      (futureParts_announces castagnoli .kvCache _ _ _) k1 k2 k3⟩

end SkegHull
