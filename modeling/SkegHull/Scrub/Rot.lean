import SkegHull.Distance
import SkegHull.Scrub.Report

/-!
# Bit Rot

What a scrub finds when payloads of a clean file have rotted and its header and table
have not. A section whose payload is damaged visibly, in the sense in which CRC-32C sees
damage, is reported with the checksum that its table entry declares and another one that
was computed. A section whose payload is as it was is reported to be in order, whatever
happened elsewhere in the file. So the report points at the damage: the sections it names
are those that have rotted, and no others (`rot_localised`).

## Main definitions

* `Visible`: Damage that CRC-32C sees.
* `rotFinding`: The finding of a section that may have rotted.

## Theorems

* `crc32c_ne_of_visible`: Visible damage changes the checksum.
* `rot_localised`: The report points at the damage.
-/

namespace SkegHull

open Lib

/-- Damage that CRC-32C sees: an odd number of flipped bits, or up to three of them in
    fewer than 256 MiB, or any damage inside four consecutive bytes. -/
inductive Visible (a b : Bytes) : Prop where
  | odd (h : Odd (bitDistance a b))
  | few (hpos : 0 < bitDistance a b) (hfew : bitDistance a b < 4) (hsmall : a.length < 2 ^ 28)
  | burst (h : Burst a b)

/-- Visible damage changes the checksum. -/
theorem crc32c_ne_of_visible (crate : Crc32cCrate) (hs : crate.Standard) (a b : Bytes)
    (hlen : a.length = b.length) (h : Visible a b) : crate.crc32c b ≠ crate.crc32c a := by
  intro heq
  have hrun := run_of_crc32c_eq crate hs a b heq.symm
  rcases run_distance a b hlen hrun with ⟨heven, hfour⟩
  cases h with
  | odd h => exact Nat.not_even_iff_odd.mpr h heven
  | few hpos hfew hsmall =>
      have hne : a ≠ b := by
        rintro rfl
        rw [bitDistance, (Crc.distance_eq_zero_iff _ _ rfl).mpr rfl] at hpos
        exact absurd hpos (by decide)
      have hfour' := hfour hne hsmall
      omega
  | burst h =>
      rcases h.split with ⟨front, back, found, damaged, rfl, rfl, hfound, hdamaged, hne⟩
      simp only [symbols_append] at hrun
      -- The window is as wide as the register.
      exact hne (symbols_injective (Crc.run_burst castagnoliPoly castagnoliPoly_msb _ _ _ _ _
        (by rw [length_symbols, length_symbols, hdamaged, hfound])
        (by rw [length_symbols, hfound]) hrun)).symm

/-- A header and a table that are the same read the same. -/
theorem Header.parse_of_take (all all' : Bytes) (header : Header)
    (hparse : Header.parse all = .ok header)
    (h : all'.take header.firstPayloadOffset = all.take header.firstPayloadOffset) :
    Header.parse all' = .ok header := by
  have hfront := Header.parse_take all header header.firstPayloadOffset hparse
  rw [if_pos (le_refl _), ← h] at hfront
  rw [← List.take_append_drop header.firstPayloadOffset all']
  exact Header.parse_append _ _ header hfront

/-- The finding of a section whose payload is as it was, or has rotted. -/
def rotFinding (crate : Crc32cCrate) (all all' : Bytes) (sec : SectionEntry) : ScrubFinding :=
  if sec.payload all' = sec.payload all then okFinding sec
  else { okFinding sec with
    outcome := .checksumMismatch sec.checksum (crate.crc32c (sec.payload all')) }

/-- The payload of a section that was clean decides its finding. -/
theorem finding_of_rot (crate : Crc32cCrate) (hs : crate.Standard) (all all' : Bytes)
    (hlen : all'.length = all.length) (sec : SectionEntry) (hclean : sec.Clean crate all)
    (hrot : sec.payload all' = sec.payload all ∨ Visible (sec.payload all) (sec.payload all')) :
    sec.finding crate all' = rotFinding crate all all' sec ∧
      (sec.Clean crate all' ↔ sec.payload all' = sec.payload all) := by
  have hinside : sec.length.toNat = 0 ∨ sec.stop ≤ all'.length := by
    rw [hlen]
    exact hclean.inside
  unfold rotFinding SectionEntry.finding
  by_cases hsame : sec.payload all' = sec.payload all
  · have hstill : sec.Clean crate all' := ⟨hclean.seekable, hinside, by rw [hsame, hclean.checksum]⟩
    rw [if_pos hsame, (outcome_eq_ok_iff crate sec all').mpr hstill]
    exact ⟨rfl, fun _ => hsame, fun _ => hstill⟩
  · have hlength : (sec.payload all).length = (sec.payload all').length := by
      rw [SectionEntry.payload, SectionEntry.payload, length_cut, length_cut, hlen]
    have hcrc : crate.crc32c (sec.payload all') ≠ sec.checksum := by
      rw [← hclean.checksum]
      exact crc32c_ne_of_visible crate hs _ _ hlength (hrot.resolve_left hsame)
    have hthere : ¬ sec.Missing all' := by
      unfold SectionEntry.Missing
      omega
    rw [if_neg hsame, SectionEntry.outcome, if_pos hclean.seekable, SectionEntry.verdict,
      if_neg hthere, if_neg hcrc]
    exact ⟨rfl, fun h => absurd h.checksum hcrc, fun h => absurd h hsame⟩

/-- When the header and the table of a clean file are as they were, and the payload of
    every section is as it was or visibly damaged, scrubbing the file reports exactly the
    damaged sections, each as a checksum mismatch: `bad_count` counts them, and
    `report_to_result` names the first of them in the table. -/
theorem rot_localised (crate : Crc32cCrate) (hl : crate.Lawful) (hs : crate.Standard)
    (path all : Bytes) (header : Header) (hparse : Header.parse all = .ok header)
    (hclean : ∀ s ∈ header.sections, s.Clean crate all) (file : Stream) (hshort : file.Short)
    (hlen : file.bytes.length = all.length)
    (hfront : file.bytes.take header.firstPayloadOffset = all.take header.firstPayloadOffset)
    (hrot : ∀ s ∈ header.sections, s.payload file.bytes = s.payload all ∨
      Visible (s.payload all) (s.payload file.bytes)) :
    ∃ report, (∀ build, scrubFile crate build path (.ok file) = .ok report) ∧
      report.findings = header.sections.map (rotFinding crate all file.bytes) ∧
      report.badCount
        = header.sections.countP (fun s => s.payload file.bytes ≠ s.payload all) ∧
      reportToResult report =
        match header.sections.find? fun s => s.payload file.bytes ≠ s.payload all with
        | none => .ok ()
        | some s => .err (.sectionChecksumFailed s.typeId) := by
  have hparse' := Header.parse_of_take all file.bytes header hparse hfront
  have hfinding := fun s hmem =>
    finding_of_rot crate hs all file.bytes hlen s (hclean s hmem) (hrot s hmem)
  have hbad : ∀ s ∈ header.sections, (¬ s.Clean crate file.bytes) ↔
      s.payload file.bytes ≠ s.payload all := fun s hmem => not_congr (hfinding s hmem).2
  refine ⟨_, scrubFile_of_short crate hl path file hshort header hparse', ?_, ?_, ?_⟩
  · rw [fileReport]
    exact List.map_congr_left fun s hmem => (hfinding s hmem).1
  · rw [badCount_fileReport]
    exact List.countP_congr fun s hmem => by simpa using hbad s hmem
  · have hfind : header.sections.find? (fun s => ¬ s.Clean crate file.bytes)
        = header.sections.find? fun s => s.payload file.bytes ≠ s.payload all :=
      List.find?_congr fun s hmem => decide_eq_decide.mpr (hbad s hmem)
    rw [reportToResult_fileReport, hfind]
    cases hfirst : header.sections.find? fun s => s.payload file.bytes ≠ s.payload all with
    | none => rfl
    | some s =>
        have hmem := List.mem_of_find?_eq_some hfirst
        have hne : s.payload file.bytes ≠ s.payload all := by
          simpa using List.find?_some hfirst
        rw [Option.map_some, Option.toList_some, (hfinding s hmem).1, rotFinding, if_neg hne]
        rfl

/-- One bit of the first payload of a written saga has rotted. -/
theorem rot_localised_sample :
    ∃ report, (∀ build, scrubFile castagnoli build [0x78]
        (.ok (Stream.ofBytes (flipBit sampleSagaFile 1200))) = .ok report) ∧
      report.badCount = 1 ∧ reportToResult report = .err (.sectionChecksumFailed 1) := by
  rcases body_clean castagnoli sagaSectionIds sampleSaga.container
    (toLe (castagnoli.crc32c (sampleSaga.container.body castagnoli sagaSectionIds)))
    sampleSaga_fits with ⟨hparse, hclean⟩
  have hdecided : ∀ s ∈ (sampleSaga.container.header castagnoli sagaSectionIds).sections,
      s.payload (flipBit sampleSagaFile 1200) = s.payload sampleSagaFile ∨
      Odd (bitDistance (s.payload sampleSagaFile) (s.payload (flipBit sampleSagaFile 1200))) := by
    set_option maxRecDepth 4000 in decide +kernel
  rcases rot_localised castagnoli castagnoli_lawful (fun _ => rfl) [0x78] sampleSagaFile _ hparse
    hclean (Stream.ofBytes (flipBit sampleSagaFile 1200)) (Stream.short_ofBytes _)
    (length_flipBit _ _) (by set_option maxRecDepth 4000 in decide +kernel)
    (fun s hs => (hdecided s hs).imp id .odd) with ⟨report, hrun, _, hcount, hresult⟩
  refine ⟨report, hrun, ?_, ?_⟩
  · rw [hcount]
    set_option maxRecDepth 4000 in decide +kernel
  · rw [hresult]
    set_option maxRecDepth 4000 in decide +kernel

end SkegHull
