import SkegHull.Saga.RoundTrip
import SkegHull.KvCache.RoundTrip

/-!
# Canonical Layout

What the writers put where. An image is a header, a table of three entries, three
payloads and a trailer, with nothing in between and nothing behind: each payload
starts where the one before it stops, the first one right after the table, and the
last one stops where the trailer begins.

A round trip does not say this. The readers go by the offsets they find, so a
writer that left gaps, or let two payloads overlap in equal bytes, or got
`body_len` wrong, would still be read back. `Canonical` is the statement about the
bytes, and `Container.canonical` is that an image has it. The two writers inherit
it through the abstract file they emit.

The writer computes its offsets before it assembles anything and compares the
lengths afterwards, in debug builds only. That those comparisons never fail is
part of the result: a debug build writes what a release build writes.

## Main definitions

* `Canonical`: The header and the three entries describe a file without gaps.

## Theorems

* `Container.canonical`: Images are canonical.
* `written_canonical`: So is what either writer writes.
-/

namespace SkegHull

open Lib

/-- The file is a header, a table of three entries with the ids of the format in
    order, their payloads back to back, and a trailer, and the header says so. -/
structure Canonical (crate : Crc32cCrate) (ids : SectionIds) (createdAt : Int64) (image : Bytes)
    (header : Header) (first second third : SectionEntry) : Prop where
  sections : header.sections = [first, second, third]
  ids : first.typeId = ids.first ∧ second.typeId = ids.second ∧ third.typeId = ids.third
  bodyLen : header.bodyLen.toNat = image.length - 68
  starts : first.offset.toNat = header.firstPayloadOffset
  joined : second.offset.toNat = first.stop ∧ third.offset.toNat = second.stop
  stops : third.stop = image.length - 4
  checksums : ∀ entry ∈ header.sections, entry.checksum = crate.crc32c (entry.payload image)
  trailer : TrailerOk crate image
  createdAt : header.createdAt = createdAt

namespace Container

variable (crate : Crc32cCrate) (ids : SectionIds) (c : Container)

/-- The entry of a payload starts and stops where the payload does. -/
theorem toNat_entry (offset length : Nat) (typeId flags : UInt16) (checksum : UInt32)
    (h : offset + length < 2 ^ 64) :
    let entry : SectionEntry :=
      ⟨typeId, flags, UInt64.ofNat offset, UInt64.ofNat length, checksum⟩
    entry.offset.toNat = offset ∧ entry.stop = offset + length := by
  have ho : (UInt64.ofNat offset).toNat = offset := toNat_ofNat64 _ (by omega)
  have hl : (UInt64.ofNat length).toNat = length := toNat_ofNat64 _ (by omega)
  exact ⟨ho, by simp only [SectionEntry.stop, ho, hl]⟩

/-- An image has the layout its header declares. -/
theorem canonical (h : c.Fits) :
    Canonical crate ids c.createdAt (c.image crate ids) (c.header crate ids)
      (c.firstEntry crate ids) (c.secondEntry crate ids) (c.thirdEntry crate ids) := by
  have hfits := h
  unfold Fits payloadLen at hfits
  have h1 : (c.firstEntry crate ids).offset.toNat = 148 ∧
      (c.firstEntry crate ids).stop = 148 + c.first.length :=
    toNat_entry 148 c.first.length _ _ _ (by omega)
  have h2 : (c.secondEntry crate ids).offset.toNat = 148 + c.first.length ∧
      (c.secondEntry crate ids).stop = 148 + c.first.length + c.second.length :=
    toNat_entry (148 + c.first.length) c.second.length _ _ _ (by omega)
  have h3 : (c.thirdEntry crate ids).offset.toNat = 148 + c.first.length + c.second.length ∧
      (c.thirdEntry crate ids).stop
        = 148 + c.first.length + c.second.length + c.third.length :=
    toNat_entry (148 + c.first.length + c.second.length) c.third.length _ _ _ (by omega)
  rcases payload_image crate ids c h with ⟨hp1, hp2, hp3⟩
  refine ⟨rfl, ⟨rfl, rfl, rfl⟩, ?_, h1.1, ⟨?_, ?_⟩, ?_, ?_, trailerOk_image crate ids c, rfl⟩
  · have hlen : (UInt64.ofNat (84 + c.payloadLen)).toNat = 84 + c.payloadLen :=
      toNat_ofNat64 _ (by unfold payloadLen; omega)
    rw [length_image, header, hlen]
    omega
  · rw [h2.1, h1.2]
  · rw [h3.1, h2.2]
  · rw [h3.2, length_image, payloadLen]
    omega
  · intro entry hentry
    simp only [header, List.mem_cons, List.not_mem_nil, or_false] at hentry
    rcases hentry with rfl | rfl | rfl
    · rw [hp1, firstEntry]
    · rw [hp2, secondEntry]
    · rw [hp3, thirdEntry]

/-- Reading the header of an image finds the header it was written with. -/
theorem read_image (build : Build) (r : Stream) (hb : r.Benign)
    (hr : r.bytes = c.image crate ids) :
    ∃ rest, Header.read build r = .ok (c.header crate ids, rest) := by
  rcases Header.read_benign build r hb with ⟨es, _, hread⟩
  have hparse : Header.parse r.bytes = .ok (c.header crate ids) := by
    rw [hr, image, parse_body]
  rw [hread, hparse]
  exact ⟨_, rfl⟩

end Container

/-- What either writer writes into an empty stream is canonical: the header reads
    back, the layout it describes has no gaps, it carries the time of the value,
    and a debug build, which compares the lengths it computed, writes the same. -/
theorem written_canonical (crate : Crc32cCrate) (build : Build) (writer : Stream)
    (hw : writer.bytes = []) :
    (∀ s : Saga, s.container.Fits → (writeSaga crate build s writer).1 = .ok () →
      writeSaga crate .debug s writer = writeSaga crate build s writer ∧
      ∀ (build' : Build) (reader : Stream), reader.Benign →
        reader.bytes = (writeSaga crate build s writer).2.bytes →
        ∃ header rest m c t, Header.read build' reader = .ok (header, rest) ∧
          Canonical crate sagaSectionIds s.builtAt reader.bytes header m c t) ∧
    (∀ c : KvCache, c.container.Fits → (writeKvCache crate build c writer).1 = .ok () →
      writeKvCache crate .debug c writer = writeKvCache crate build c writer ∧
      ∀ (build' : Build) (reader : Stream), reader.Benign →
        reader.bytes = (writeKvCache crate build c writer).2.bytes →
        ∃ header rest i s b, Header.read build' reader = .ok (header, rest) ∧
          Canonical crate kvSectionIds c.kvMeta.createdAt reader.bytes header i s b) := by
  constructor
  · intro s hf hok
    -- A writer that returns was given an encodable saga, and emits its image.
    have hwrite := fun build' => writeSaga_eq crate build' s writer
      (encodable_of_writeSaga crate build s writer hok) hf hw
    refine ⟨by rw [hwrite, hwrite], ?_⟩
    intro build' reader hb hr
    have himage : reader.bytes = s.container.image crate sagaSectionIds := by rw [hr, hwrite]
    have hcanonical := Container.canonical crate sagaSectionIds s.container hf
    rcases Container.read_image crate sagaSectionIds s.container build' reader hb himage with
      ⟨rest, hread⟩
    rw [← himage] at hcanonical
    exact ⟨_, rest, _, _, _, hread, hcanonical⟩
  · intro c hf hok
    have hwrite := fun build' => writeKvCache_eq crate build' c writer
      (shortName_of_writeKvCache crate build c writer hok) hf hw
    refine ⟨by rw [hwrite, hwrite], ?_⟩
    intro build' reader hb hr
    have himage : reader.bytes = c.container.image crate kvSectionIds := by rw [hr, hwrite]
    have hcanonical := Container.canonical crate kvSectionIds c.container hf
    rcases Container.read_image crate kvSectionIds c.container build' reader hb himage with
      ⟨rest, hread⟩
    rw [← himage] at hcanonical
    exact ⟨_, rest, _, _, _, hread, hcanonical⟩

theorem written_canonical_sample :
    (∃ header rest m c t,
      Header.read .release (Stream.ofBytes
        (writeSaga castagnoli .release sampleSaga (Stream.ofBytes [])).2.bytes)
        = .ok (header, rest) ∧
      Canonical castagnoli sagaSectionIds 7
        (writeSaga castagnoli .release sampleSaga (Stream.ofBytes [])).2.bytes header m c t) ∧
    (∃ header rest i s b,
      Header.read .release (Stream.ofBytes
        (writeKvCache castagnoli .release sampleKvCache (Stream.ofBytes [])).2.bytes)
        = .ok (header, rest) ∧
      Canonical castagnoli kvSectionIds 11
        (writeKvCache castagnoli .release sampleKvCache (Stream.ofBytes [])).2.bytes
        header i s b) := by
  have h := written_canonical castagnoli .release (Stream.ofBytes []) rfl
  have hsaga : (writeSaga castagnoli .release sampleSaga (Stream.ofBytes [])).1 = .ok () := by
    rw [writeSaga_eq _ _ _ _ sampleSaga_encodable sampleSaga_fits rfl]
  have hkv : (writeKvCache castagnoli .release sampleKvCache (Stream.ofBytes [])).1 = .ok () := by
    rw [writeKvCache_eq _ _ _ _ (by decide) sampleKvCache_fits rfl]
  exact ⟨(h.1 sampleSaga sampleSaga_fits hsaga).2 .release (Stream.ofBytes _)
      (Stream.benign_ofBytes _) rfl,
    (h.2 sampleKvCache sampleKvCache_fits hkv).2 .release (Stream.ofBytes _)
      (Stream.benign_ofBytes _) rfl⟩

end SkegHull
