import Mathlib.Data.List.Nodup
import SkegHull.KvCache.RoundTrip
import SkegHull.Saga.RoundTrip
import SkegHull.Scrub

/-!
# Scrubber and Readers

Two ways of checking one file. The readers check the trailer, the header, and
three sections cut out of the bytes in front of the trailer. The scrubber checks
the header and every section of the table, and takes the whole file for its
payload.

In one direction they agree. Whatever a reader accepts the scrubber finds in
order, provided the table has no entries the reader ignores:
`scrub_no_false_alarm`.

In the other they agree on the sections only. After a clean scrub no section
checksum can fail, but the scrubber never looks at the trailer, so a reader can
still find it wrong, and it can still find a range running into the bytes the
trailer takes up. `scrub_integrity` says that this is all that is left, and that
a written image can be cut by no more than its trailer without the scrubber
noticing. `scrub_misses_trailer` is an image with a wrong trailer that scrubs
clean.

Both readers are one loop of steps around different decoders, and
`agrees_of_steps` is the argument for that loop. A decoder's errors are about
the meaning of its bytes, so they are none of the three integrity errors.

## Main definitions

* `Agrees`: What a reader may say about the integrity of a scrubbed file.
* `ReachesTrailer`: A section the reader locates reaches into the trailer.
* `forgedTrailerFile`: A written image with its trailer altered.

## Theorems

* `agrees_of_steps`: A reader's steps on a scrubbed file.
* `image_clean_iff`: Which prefixes of an image scrub clean.
* `scrub_integrity`: What a clean scrub says about the readers.
* `scrub_no_false_alarm`: What the readers say about the scrub.
-/

namespace SkegHull

open Lib

/-- One of the sections the reader locates, the last with its id, ends inside the
    trailer or beyond. -/
def ReachesTrailer (ids : SectionIds) (all : Bytes) (header : Header) : Prop :=
  ∃ typeId sec, ids.Contains typeId ∧ lastWith typeId header.sections = some sec ∧
    all.length < sec.stop + 4

/-- What a reader may say about the integrity of a file that scrubbed clean. No
    section checksum fails. The file checksum fails exactly when the trailer is
    wrong. The file is found truncated only when it is shorter than a header and a
    trailer, or when the trailer is right and the table or a section the reader
    locates reaches into it or beyond. -/
structure Agrees {α : Type} (crate : Crc32cCrate) (ids : SectionIds) (all : Bytes) (header : Header)
    (result : Outcome Error α) : Prop where
  sectionChecksum : ∀ typeId, result ≠ .err (.sectionChecksumFailed typeId)
  fileChecksum : result = .err .fileChecksumFailed ↔ 68 ≤ all.length ∧ ¬ TrailerOk crate all
  truncated : result = .err .truncated →
    all.length < 68 ∨ (TrailerOk crate all ∧
      (all.length < header.firstPayloadOffset + 4 ∨ ReachesTrailer ids all header))

/-- The integrity errors that are left once the file is open: a section reaches
    into the trailer. -/
def LateError (ids : SectionIds) (all : Bytes) (header : Header) (e : Error) : Prop :=
  e.Semantic ∨ (e = .truncated ∧ ReachesTrailer ids all header)

/-- An error about the meaning of the bytes is one of them. -/
theorem errs_late {α : Type} (ids : SectionIds) (all : Bytes) (header : Header)
    (x : Outcome Error α) (h : x.Errs Error.Semantic) : x.Errs (LateError ids all header) :=
  Outcome.errs_mono _ _ x (fun _ he => Or.inl he) h

section Steps

variable (crate : Crc32cCrate) (build : Build) (ids : SectionIds) (all : Bytes) (header : Header)

/-- Reading a located section of a file that scrubbed clean. -/
theorem readChecked_clean (typeId : UInt16) (sec : SectionEntry) (hid : ids.Contains typeId)
    (hlast : lastWith typeId header.sections = some sec)
    (hall : ∀ s ∈ header.sections, s.Clean crate all) (h4 : 4 ≤ all.length)
    (hlen : all.length < 2 ^ 63) :
    (readChecked crate build all sec).Errs (LateError ids all header) := by
  have hclean := hall sec (mem_of_lastWith _ _ _ hlast).1
  unfold readChecked
  rw [readSection_eq _ _ _ _ h4 (by omega)]
  by_cases hov : 2 ^ 64 ≤ sec.offset.toNat + sec.length.toNat
  · rw [if_pos hov, Outcome.err_bind]
    exact (Outcome.errs_err _ _).mpr (Or.inl trivial)
  rw [if_neg hov]
  by_cases hend : all.length - 4 < sec.offset.toNat + sec.length.toNat
  · rw [if_pos hend, Outcome.err_bind]
    refine (Outcome.errs_err _ _).mpr (Or.inr ⟨rfl, typeId, sec, hid, hlast, ?_⟩)
    -- The range is in the file but not in front of the trailer.
    rw [SectionEntry.stop]
    omega
  · have hcrc := hclean.checksum
    unfold SectionEntry.payload at hcrc
    rw [if_neg hend, Outcome.ok_bind, failIf_of_not _ _ (not_not.mpr hcrc), Outcome.ok_bind]
    exact Outcome.errs_ok _ _

/-- A reader that opens the file, locates its sections, and then only meets
    late errors. -/
theorem agrees_of_steps {α : Type} (expected : FormatVersion)
    (hparse : Header.parse all = .ok header) (hformat : header.format = expected.format)
    (hversion : header.version = 1)
    (rest : SectionEntry × SectionEntry × SectionEntry → Outcome Error α)
    (hrest : 68 ≤ all.length → ∀ first second third,
      requireSections ids header.sections = .ok (first, second, third) →
      (rest (first, second, third)).Errs (LateError ids all header)) :
    Agrees crate ids all header (do
      let header ← openBody crate build expected all
      let entries ← requireSections ids header.sections
      rest entries) := by
  rw [openBody_of_parse crate build expected all header hparse hformat hversion]
  by_cases hlen : all.length < 68
  · rw [if_pos hlen, Outcome.err_bind]
    refine ⟨fun typeId h => ?_, ⟨fun h => ?_, fun h => ?_⟩, fun _ => Or.inl hlen⟩
    · cases h
    · cases h
    · omega
  rw [if_neg hlen]
  by_cases ht : TrailerOk crate all
  · rw [if_neg (not_not.mpr ht)]
    by_cases hend : all.length < header.firstPayloadOffset + 4
    · rw [if_pos hend, Outcome.err_bind]
      refine ⟨fun typeId h => ?_, ⟨fun h => ?_, fun h => absurd ht h.2⟩,
        fun _ => Or.inr ⟨ht, Or.inl hend⟩⟩
      · cases h
      · cases h
    · rw [if_neg hend, Outcome.ok_bind]
      -- The file is open, so only the sections are left to fail.
      have hlate : (requireSections ids header.sections >>= rest).Errs
          (LateError ids all header) := by
        refine Outcome.errs_bind _ _ _ ?_ ?_
        · exact errs_late ids all header _ (requireSections_errs _ _)
        · rintro ⟨first, second, third⟩ hsections
          exact hrest (by omega) first second third hsections
      refine ⟨fun typeId h => ?_, ⟨fun h => ?_, fun h => absurd ht h.2⟩, fun h => ?_⟩
      · rcases hlate _ h with hs | ⟨hs, _⟩
        · cases hs
        · cases hs
      · rcases hlate _ h with hs | ⟨hs, _⟩
        · cases hs
        · cases hs
      · rcases hlate _ h with hs | ⟨_, hs⟩
        · cases hs
        · exact Or.inr ⟨ht, Or.inr hs⟩
  · rw [if_pos ht, Outcome.err_bind]
    refine ⟨fun typeId h => ?_, ⟨fun _ => ⟨by omega, ht⟩, fun _ => rfl⟩, fun h => ?_⟩
    · cases h
    · cases h

end Steps

section Readers

variable (crate : Crc32cCrate) (build : Build) (r : Stream) (header : Header)

/-- The saga reader on a file that scrubbed clean. -/
theorem readSaga_agrees (hb : r.Benign) (hlen : r.bytes.length < 2 ^ 63)
    (hparse : Header.parse r.bytes = .ok header) (hformat : header.format = .saga)
    (hversion : header.version = 1) (hclean : ∀ s ∈ header.sections, s.Clean crate r.bytes) :
    Agrees crate sagaSectionIds r.bytes header (readSaga crate build r) := by
  unfold readSaga sagaOfSections
  rw [slurp_benign r hb, Outcome.ok_bind]
  refine agrees_of_steps crate build sagaSectionIds r.bytes header sagaV1 hparse hformat hversion
    _ ?_
  intro h68 m c t hsections
  rcases (requireSections_eq_ok_iff _ _ _ _ _).mp hsections with ⟨hm, hc, ht⟩
  have hread := fun typeId sec hid hlast => readChecked_clean crate build sagaSectionIds r.bytes
    header typeId sec hid hlast hclean (by omega) hlen
  refine Outcome.errs_bind _ _ _ (hread _ m (Or.inl rfl) hm) fun mb _ => ?_
  refine Outcome.errs_bind _ _ _ (errs_late _ _ _ _ (SagaMeta.decode_errs mb)) fun sagaMeta _ => ?_
  refine Outcome.errs_bind _ _ _ (hread _ c (Or.inr (Or.inl rfl)) hc) fun cb _ => ?_
  refine Outcome.errs_bind _ _ _ (errs_late _ _ _ _ (Centroid.decode_errs _ _ _ _))
    fun centroids _ => ?_
  refine Outcome.errs_bind _ _ _ (hread _ t (Or.inr (Or.inr rfl)) ht) fun tb htb => ?_
  -- The tag decoder counts on a section of a machine size.
  have hpayload := ((readChecked_eq_ok_iff crate build r.bytes t tb (by omega) (by omega)).mp htb).2
  have hle : tb.length < 2 ^ 63 := by
    rw [hpayload]
    exact lt_of_le_of_lt (length_payload_le t r.bytes) hlen
  refine Outcome.errs_bind _ _ _ (errs_late _ _ _ _ (Tags.decode_errs _ _ hle)) fun tags _ => ?_
  exact Outcome.errs_ok _ _

/-- The KV cache reader on a file that scrubbed clean. -/
theorem readKvCache_agrees (hb : r.Benign) (hlen : r.bytes.length < 2 ^ 63)
    (hparse : Header.parse r.bytes = .ok header) (hformat : header.format = .kvCache)
    (hversion : header.version = 1) (hclean : ∀ s ∈ header.sections, s.Clean crate r.bytes) :
    Agrees crate kvSectionIds r.bytes header (readKvCache crate build r) := by
  unfold readKvCache kvCacheOfSections
  rw [slurp_benign r hb, Outcome.ok_bind]
  refine agrees_of_steps crate build kvSectionIds r.bytes header kvCacheV1 hparse hformat hversion
    _ ?_
  intro h68 i s b hsections
  rcases (requireSections_eq_ok_iff _ _ _ _ _).mp hsections with ⟨hi, hs, hbl⟩
  have hread := fun typeId sec hid hlast => readChecked_clean crate build kvSectionIds r.bytes
    header typeId sec hid hlast hclean (by omega) hlen
  refine Outcome.errs_bind _ _ _ (hread _ i (Or.inl rfl) hi) fun ib _ => ?_
  refine Outcome.errs_bind _ _ _ (errs_late _ _ _ _ (Identity.decode_errs build ib))
    fun identity _ => ?_
  refine Outcome.errs_bind _ _ _ (hread _ s (Or.inr (Or.inl rfl)) hs) fun sb _ => ?_
  refine Outcome.errs_bind _ _ _ (errs_late _ _ _ _ (KvCacheShape.decode_errs sb)) fun shape _ => ?_
  refine Outcome.errs_bind _ _ _ (hread _ b (Or.inr (Or.inr rfl)) hbl) fun bb hbb => ?_
  -- The blob decoder counts on a section of a machine size.
  have hpayload := ((readChecked_eq_ok_iff crate build r.bytes b bb (by omega) (by omega)).mp hbb).2
  have hle : bb.length < 2 ^ 63 := by
    rw [hpayload]
    exact lt_of_le_of_lt (length_payload_le b r.bytes) hlen
  refine Outcome.errs_bind _ _ _ (errs_late _ _ _ _ (Blob.decode_errs build bb hle)) ?_
  rintro ⟨kv, logits⟩ _
  refine Outcome.errs_bind _ _ _ (KvCacheShape.expectedBlobBytes_errs _ build shape)
    fun expected _ => ?_
  refine Outcome.errs_bind _ _ _ (errs_failIf _ _ _ fun _ => Or.inl trivial) fun _ _ => ?_
  exact Outcome.errs_ok _ _

end Readers

/-! ### Written images -/

section Images

variable (crate : Crc32cCrate) (build : Build) (ids : SectionIds) (c : Container)

/-- An entry that points into the body of an image is clean in every file that
    starts with the body. -/
theorem clean_of_holds (entry : SectionEntry) (payload tail : Bytes) (hf : c.Fits)
    (h : c.Holds crate ids entry payload) : entry.Clean crate (c.body crate ids ++ tail) := by
  have hinside := h.inside
  have hstop := entry.offset_le_stop
  rw [Container.length_body] at hinside
  unfold Container.Fits at hf
  refine ⟨by omega, Or.inr ?_, ?_⟩
  · rw [List.length_append, Container.length_body]
    omega
  · rw [h.found, h.checksum]

/-- Everything in front of the trailer parses and verifies, whatever follows. -/
theorem body_clean (tail : Bytes) (hf : c.Fits) :
    Header.parse (c.body crate ids ++ tail) = .ok (c.header crate ids) ∧
      ∀ s ∈ (c.header crate ids).sections, s.Clean crate (c.body crate ids ++ tail) := by
  constructor
  · exact Container.parse_body crate ids c tail
  · intro s hs
    change s ∈ [c.firstEntry crate ids, c.secondEntry crate ids, c.thirdEntry crate ids] at hs
    simp only [List.mem_cons, List.not_mem_nil, or_false] at hs
    rcases hs with rfl | rfl | rfl
    · exact clean_of_holds crate ids c _ _ tail hf (Container.holds_first crate ids c hf)
    · exact clean_of_holds crate ids c _ _ tail hf (Container.holds_second crate ids c hf)
    · exact clean_of_holds crate ids c _ _ tail hf (Container.holds_third crate ids c hf)

/-- A prefix of an image scrubs clean exactly when it lacks nothing but bytes of
    the trailer. -/
theorem image_clean_iff (hl : crate.Lawful) (hf : c.Fits) (hthird : c.third ≠ []) (path : Bytes)
    (n : Nat) (file : Stream) (hs : file.Short) (hfile : file.bytes = (c.image crate ids).take n)
    (report : ScrubReport) (hrun : scrubFile crate build path (.ok file) = .ok report) :
    report.isClean = true ↔ (c.image crate ids).length - 4 ≤ n := by
  have hlength := Container.length_image crate ids c
  constructor
  · intro hclean
    rcases scrubFile_of_clean crate build hl path file hs.benign report hrun hclean with
      ⟨header, hparse, hall⟩
    have himage : Header.parse (c.image crate ids) = .ok (c.header crate ids) :=
      (body_clean crate ids c (toLe (crate.crc32c (c.body crate ids))) hf).1
    rw [hfile, Header.parse_take _ _ n himage] at hparse
    by_cases hn : (c.header crate ids).firstPayloadOffset ≤ n
    · rw [if_pos hn, Outcome.ok.injEq] at hparse
      rw [← hparse] at hall
      -- The third section reaches up to the trailer and is not empty.
      have hlast := (hall (c.thirdEntry crate ids) (by
        change _ ∈ [_, _, _]
        simp only [List.mem_cons, true_or, or_true])).inside
      have hpos : 0 < c.third.length := List.length_pos_iff.mpr hthird
      unfold Container.Fits Container.payloadLen at hf
      unfold Container.payloadLen at hlength
      have hoffset : (c.thirdEntry crate ids).offset.toNat
          = 148 + c.first.length + c.second.length := toNat_ofNat64 _ (by omega)
      have hlen : (c.thirdEntry crate ids).length.toNat = c.third.length :=
        toNat_ofNat64 _ (by omega)
      rw [SectionEntry.stop, hoffset, hlen, hfile, List.length_take, hlength] at hlast
      omega
    · rw [if_neg hn] at hparse
      cases hparse
  · intro hn
    rw [hlength] at hn
    -- What is left of the image is its body and the front of its trailer.
    have hprefix : ∃ tail, file.bytes = c.body crate ids ++ tail := by
      refine ⟨(toLe (crate.crc32c (c.body crate ids))).take (n - (c.body crate ids).length), ?_⟩
      rw [hfile, Container.image, List.take_append, List.take_of_length_le (by
        rw [Container.length_body]
        omega)]
    rcases hprefix with ⟨tail, htail⟩
    rcases body_clean crate ids c tail hf with ⟨hparse, hall⟩
    rw [← htail] at hparse hall
    rw [scrubFile_short crate build hl path file hs _ hparse hall, Outcome.ok.injEq] at hrun
    rw [← hrun]
    exact isClean_cleanReport path _

end Images

/-! ### The two directions -/

/-- After a clean scrub, a file of either format at version one fails to read for
    no integrity reason but its trailer and ranges that reach into it, and a
    written image scrubs clean only as long as nothing but its trailer is
    cut. -/
theorem scrub_integrity (crate : Crc32cCrate) (hl : crate.Lawful) (build : Build) (path : Bytes) :
    (∀ (file reader : Stream) (report : ScrubReport) (header : Header), file.Benign →
      reader.Benign → reader.bytes = file.bytes → file.bytes.length < 2 ^ 63 →
      scrubFile crate build path (.ok file) = .ok report → report.isClean = true →
      Header.parse file.bytes = .ok header → header.version = 1 →
      (header.format = .saga →
        Agrees crate sagaSectionIds file.bytes header (readSaga crate build reader)) ∧
      (header.format = .kvCache →
        Agrees crate kvSectionIds file.bytes header (readKvCache crate build reader))) ∧
    (∀ (s : Saga) (image : Bytes), s.Encodable → s.container.Fits →
      sagaImage crate build s = .ok image → ∀ (n : Nat) (file : Stream) (report : ScrubReport),
      file.Short → file.bytes = image.take n →
      scrubFile crate build path (.ok file) = .ok report →
      (report.isClean = true ↔ image.length - 4 ≤ n)) ∧
    (∀ (c : KvCache) (image : Bytes), c.kvMeta.ShortName → c.container.Fits →
      kvCacheImage crate build c = .ok image → ∀ (n : Nat) (file : Stream) (report : ScrubReport),
      file.Short → file.bytes = image.take n →
      scrubFile crate build path (.ok file) = .ok report →
      (report.isClean = true ↔ image.length - 4 ≤ n)) := by
  refine ⟨?_, ?_, ?_⟩
  · intro file reader report header hfile hreader hbytes hlen hrun hclean hparse hversion
    rcases scrubFile_of_clean crate build hl path file hfile report hrun hclean with
      ⟨header', hparse', hall⟩
    -- The scrubber and the readers parse the same header.
    have hheader : header' = header := Outcome.ok.inj (hparse'.symm.trans hparse)
    rw [hheader] at hall
    rw [← hbytes] at hlen hparse hall ⊢
    exact ⟨fun hformat => readSaga_agrees crate build reader header hreader hlen hparse hformat
        hversion hall,
      fun hformat => readKvCache_agrees crate build reader header hreader hlen hparse hformat
        hversion hall⟩
  · intro s image he hf himage n file report hs hfile hrun
    rw [sagaImage_eq crate build s he hf, Outcome.ok.injEq] at himage
    rw [← himage] at hfile ⊢
    refine image_clean_iff crate build sagaSectionIds s.container hl hf ?_ path n file hs hfile
      report hrun
    -- The tag section holds at least its count.
    intro hnil
    have hlength := congrArg List.length hnil
    simp only [Saga.container, List.length_append, length_toLe, width_uint32, List.length_nil]
      at hlength
    omega
  · intro c image hname hf himage n file report hs hfile hrun
    rw [kvCacheImage_eq crate build c hname hf, Outcome.ok.injEq] at himage
    rw [← himage] at hfile ⊢
    refine image_clean_iff crate build kvSectionIds c.container hl hf ?_ path n file hs hfile
      report hrun
    intro hnil
    -- The blob section holds at least its presence byte and a length.
    have hlength := congrArg List.length hnil
    simp only [KvCache.container, Blob.length_encode, List.length_nil] at hlength
    omega

/-- The file a sample saga is written to. -/
def sampleSagaFile : Bytes := sampleSaga.container.image castagnoli sagaSectionIds

theorem scrub_integrity_sample :
    Agrees castagnoli sagaSectionIds sampleSagaFile
      (sampleSaga.container.header castagnoli sagaSectionIds)
      (readSaga castagnoli .release (Stream.ofBytes sampleSagaFile)) := by
  rcases body_clean castagnoli sagaSectionIds sampleSaga.container _ sampleSaga_fits with
    ⟨hparse, hall⟩
  have hlen := Container.length_image_lt castagnoli sagaSectionIds _ sampleSaga_fits
  have hrun := scrubFile_short castagnoli .release castagnoli_lawful []
    (Stream.ofBytes sampleSagaFile) (Stream.short_ofBytes _) _ hparse hall
  exact ((scrub_integrity castagnoli castagnoli_lawful .release []).1
    (Stream.ofBytes sampleSagaFile) (Stream.ofBytes sampleSagaFile) _ _ (Stream.benign_ofBytes _)
    (Stream.benign_ofBytes _) rfl hlen hrun (isClean_cleanReport _ _) hparse rfl).1 rfl

/-- The same file with its trailer altered. -/
def forgedTrailerFile : Bytes :=
  sampleSaga.container.body castagnoli sagaSectionIds ++
    toLe (castagnoli.crc32c (sampleSaga.container.body castagnoli sagaSectionIds) + 1)

/-- The scrubber finds nothing wrong with it, and the reader refuses it. -/
theorem scrub_misses_trailer :
    (∃ report, scrubFile castagnoli .release [] (.ok (Stream.ofBytes forgedTrailerFile))
        = .ok report ∧ report.isClean = true ∧ report.format = some .saga) ∧
    readSaga castagnoli .release (Stream.ofBytes forgedTrailerFile) = .err .fileChecksumFailed := by
  rcases body_clean castagnoli sagaSectionIds sampleSaga.container
    (toLe (castagnoli.crc32c (sampleSaga.container.body castagnoli sagaSectionIds) + 1))
    sampleSaga_fits with ⟨hparse, hall⟩
  have hrun := scrubFile_short castagnoli .release castagnoli_lawful []
    (Stream.ofBytes forgedTrailerFile) (Stream.short_ofBytes _) _ hparse hall
  refine ⟨⟨_, hrun, isClean_cleanReport _ _, rfl⟩, ?_⟩
  have hsize : 152 + sampleSaga.container.payloadLen < 2 ^ 63 := sampleSaga_fits
  have hlength : forgedTrailerFile.length = 152 + sampleSaga.container.payloadLen := by
    rw [forgedTrailerFile, List.length_append, Container.length_body, length_toLe, width_uint32]
    omega
  have hagrees := readSaga_agrees castagnoli .release (Stream.ofBytes forgedTrailerFile) _
    (Stream.benign_ofBytes _) (by change forgedTrailerFile.length < 2 ^ 63; omega) hparse rfl rfl
    hall
  refine hagrees.fileChecksum.mpr ⟨by change 68 ≤ forgedTrailerFile.length; omega, fun ht => ?_⟩
  -- A checksum differs from its successor.
  have heq := congrArg UInt32.toNat ((trailerOk_append_iff castagnoli _ _).mp ht)
  rw [UInt32.toNat_add] at heq
  have hone : (1 : UInt32).toNat = 1 := rfl
  omega

/-- An intact section is clean. -/
theorem clean_of_intact (crate : Crc32cCrate) (entry : SectionEntry) (all : Bytes)
    (hlen : all.length < 2 ^ 63) (h : entry.Intact crate all) : entry.Clean crate all := by
  have hinside := h.inside
  have hstop := entry.offset_le_stop
  exact ⟨by omega, Or.inr (by omega), h.checksum⟩

/-- When the table has the three ids once each, the three sections the reader
    verifies are all there is. -/
theorem clean_of_verified (crate : Crc32cCrate) (expected : FormatVersion) (ids : SectionIds)
    (all : Bytes) (header : Header) (first second third : SectionEntry) (hlen : all.length < 2 ^ 63)
    (hv : Verified crate expected ids all header first second third)
    (hids : (header.sections.map SectionEntry.typeId).Perm [ids.first, ids.second, ids.third]) :
    ∀ s ∈ header.sections, s.Clean crate all := by
  rcases ids.distinct with ⟨h12, h13, h23⟩
  -- Entries with equal ids are equal, so each entry is one the reader located.
  have hnodup : (header.sections.map SectionEntry.typeId).Nodup := by
    rw [hids.nodup_iff]
    simp only [List.nodup_cons, List.mem_cons, List.not_mem_nil, or_false, h12, h13, h23,
      not_false_eq_true, and_self, List.nodup_nil]
  rcases requireSections_mem _ _ _ _ _ hv.opened.sections with
    ⟨⟨hf, hfid⟩, ⟨hs, hsid⟩, ⟨ht, htid⟩⟩
  intro s hmem
  have hid : s.typeId ∈ [ids.first, ids.second, ids.third] :=
    hids.mem_iff.mp (List.mem_map_of_mem hmem)
  simp only [List.mem_cons, List.not_mem_nil, or_false] at hid
  rcases hid with hid | hid | hid
  · rw [List.inj_on_of_nodup_map hnodup hmem hf (hid.trans hfid.symm)]
    exact clean_of_intact crate first all hlen hv.first
  · rw [List.inj_on_of_nodup_map hnodup hmem hs (hid.trans hsid.symm)]
    exact clean_of_intact crate second all hlen hv.second
  · rw [List.inj_on_of_nodup_map hnodup hmem ht (hid.trans htid.symm)]
    exact clean_of_intact crate third all hlen hv.third

/-- A file that a reader accepts and whose table holds the three ids once each
    scrubs clean, however the reads are split, with one finding per entry in
    table order. -/
theorem scrub_no_false_alarm (crate : Crc32cCrate) (hl : crate.Lawful) (build build' : Build)
    (path : Bytes) (file : Stream) (hs : file.Short) (hlen : file.bytes.length < 2 ^ 63)
    (header : Header) (hparse : Header.parse file.bytes = .ok header)
    (hids : (header.sections.map SectionEntry.typeId).Perm [1, 2, 3])
    (haccepted : (∃ s, readSaga crate build (Stream.ofBytes file.bytes) = .ok s) ∨
      ∃ c, readKvCache crate build (Stream.ofBytes file.bytes) = .ok c) :
    ∃ report, scrubFile crate build' path (.ok file) = .ok report ∧ report.isClean = true ∧
      report.findings = header.sections.map okFinding ∧ reportToResult report = .ok () := by
  have hclean : ∀ s ∈ header.sections, s.Clean crate file.bytes := by
    have hsame : ∀ expected ids header' first second third,
        Verified crate expected ids file.bytes header' first second third → header' = header := by
      intro expected ids header' first second third hv
      -- The reader parses without the trailer, which the table does not need.
      have hwhole := Header.parse_append _ (file.bytes.drop (file.bytes.length - 4)) header'
        hv.opened.parsed
      rw [bodyOf, List.take_append_drop] at hwhole
      exact Outcome.ok.inj (hwhole.symm.trans hparse)
    rcases haccepted with ⟨s, hread⟩ | ⟨c, hread⟩
    · rcases readSaga_inv crate build _ (Stream.benign_ofBytes _) (by
        change file.bytes.length < 2 ^ 64
        omega) s hread with ⟨header', m, c, t, hacc⟩
      rw [← hsame _ _ _ _ _ _ hacc.verified] at hids ⊢
      exact clean_of_verified crate _ _ _ _ _ _ _ hlen hacc.verified hids
    · rcases readKvCache_inv crate build _ (Stream.benign_ofBytes _) (by
        change file.bytes.length < 2 ^ 64
        omega) c hread with ⟨header', i, s, b, hacc⟩
      rw [← hsame _ _ _ _ _ _ hacc.verified] at hids ⊢
      exact clean_of_verified crate _ _ _ _ _ _ _ hlen hacc.verified hids
  have hrun := scrubFile_short crate build' hl path file hs header hparse hclean
  have hok := isClean_cleanReport path header
  exact ⟨_, hrun, hok, rfl, reportToResult_of_clean _ hok⟩

/-- The sample file, read one byte at a time at first. -/
theorem scrub_no_false_alarm_sample :
    ∃ report, scrubFile castagnoli .debug [] (.ok ⟨sampleSagaFile, 0, [.short 1, .short 7]⟩)
      = .ok report ∧ report.isClean = true ∧
      report.findings
        = (sampleSaga.container.header castagnoli sagaSectionIds).sections.map okFinding ∧
      reportToResult report = .ok () := by
  have hread : readSaga castagnoli .release (Stream.ofBytes sampleSagaFile) = .ok sampleSaga :=
    readSaga_sample .release
  refine scrub_no_false_alarm castagnoli castagnoli_lawful .release .debug []
    ⟨sampleSagaFile, 0, [.short 1, .short 7]⟩ ?_
    (Container.length_image_lt castagnoli sagaSectionIds _ sampleSaga_fits) _
    (body_clean castagnoli sagaSectionIds sampleSaga.container _ sampleSaga_fits).1
    (List.Perm.refl _) (Or.inl ⟨sampleSaga, hread⟩)
  intro e he
  simp only [List.mem_cons, List.not_mem_nil, or_false] at he
  rcases he with rfl | rfl
  · exact ⟨1, rfl⟩
  · exact ⟨7, rfl⟩

end SkegHull
