import SkegHull.Faults
import SkegHull.Scrub.Section

/-!
# What a Report Says

The report of a file, computed from its bytes with no loop and no schedule, and what of
it is left on a disk that fails.

`SectionEntry.finding` is the finding that the bytes decide for one entry: the seek is
refused, bytes of the range are missing, or the checksum decides. Scrubbing a file whose
reads do not fail gives these findings in table order, or the error of a header that does
not parse (`scrubFile_exact`), and what is derived from them follows: `bad_count` counts
the sections that are not clean, and `report_to_result` is the error of the first of them.

When reads do fail, a finding is the one that the bytes decide or says that a read
failed (`Judged`). So no failure makes a bad section look good, or a good one look
damaged, and what a finding says about the bytes can be believed whatever the disk did
(`scrubFile_faulty`).

## Main definitions

* `ScrubReport.badCount`: The number of findings that are not good.
* `SectionEntry.outcome`, `SectionEntry.finding`: What the bytes decide for one entry.
* `Judged`: A finding that the bytes or a failure account for.
* `fileReport`: The report of a file with this header.
* `Reported`: The report that bytes decide, whether they have a header or not.

## Theorems

* `outcome_eq_ok_iff`: A section is found in order when it is clean.
* `verifySection_judged`, `verifySections_judged`: Findings are accounted for.
* `scrubFile_faulty`: So are reports, whatever the disk does.
* `scrubFile_of_short`: The report of a file whose reads do not fail.
* `badCount_fileReport`, `isClean_fileReport`, `reportToResult_fileReport`: What that report
  comes to.
* `scrubFile_reported`, `scrubFile_exact`: The report of any file whose reads do not fail.
-/

namespace SkegHull

open Lib

/-- Number of sections that failed verification. -/
def ScrubReport.badCount (report : ScrubReport) : Nat :=
  (report.findings.filter fun f => f.outcome != .ok).length

/-- What a seek to an offset that is negative as a signed 64-bit number says. -/
def seekRefused : IoError := ⟨.invalidInput, "Invalid argument (os error 22)"⟩

/-- The outcome that the bytes of the file decide, the seek included. -/
def SectionEntry.outcome (crate : Crc32cCrate) (sec : SectionEntry) (all : Bytes) :
    ScrubOutcome :=
  if sec.offset.toNat < 2 ^ 63 then sec.verdict crate all
  else .readError s!"seek to {sec.offset}: {seekRefused.text}"

/-- The finding that the bytes of the file decide. -/
def SectionEntry.finding (crate : Crc32cCrate) (all : Bytes) (sec : SectionEntry) : ScrubFinding :=
  { okFinding sec with outcome := sec.outcome crate all }

/-- The finding is the one that the bytes decide, or it says that a read of the file
    failed. -/
def Judged (crate : Crc32cCrate) (file : Stream) (f : ScrubFinding) (sec : SectionEntry) : Prop :=
  f = sec.finding crate file.bytes ∨
    ∃ e, .fail e ∈ file.events ∧ f = { okFinding sec with outcome := .readError s!"read: {e.text}" }

/-- The report of a file with this header. -/
def fileReport (crate : Crc32cCrate) (path all : Bytes) (header : Header) : ScrubReport :=
  ⟨path, some header.format, header.sections.map (SectionEntry.finding crate all), none⟩

section

variable (crate : Crc32cCrate)

/-- A section is found in order when it is clean. -/
theorem outcome_eq_ok_iff (sec : SectionEntry) (all : Bytes) :
    sec.outcome crate all = .ok ↔ sec.Clean crate all := by
  constructor
  · intro h
    unfold SectionEntry.outcome SectionEntry.verdict at h
    split_ifs at h with hoff hmissing hcrc
    refine ⟨hoff, ?_, hcrc⟩
    unfold SectionEntry.Missing at hmissing
    omega
  · intro h
    rw [SectionEntry.outcome, if_pos h.seekable, verdict_of_clean crate sec all h]

instance (sec : SectionEntry) (all : Bytes) : Decidable (sec.Clean crate all) :=
  decidable_of_iff _ (outcome_eq_ok_iff crate sec all)

/-! ### Findings -/

/-- Verifying a section leaves the file alone, and uses up events of the script. -/
theorem verifySection_leaves (build : Build) (hl : crate.Lawful) (reader reader' : Stream)
    (sec : SectionEntry) (finding : ScrubFinding)
    (h : verifySection crate build reader sec = .ok (finding, reader')) :
    reader'.bytes = reader.bytes ∧ reader'.events <:+ reader.events := by
  unfold verifySection Stream.seek at h
  by_cases hoff : sec.offset.toNat < 2 ^ 63
  · rw [if_pos hoff] at h
    dsimp only at h
    rcases crcLoop_run crate hl sec.length (min scrubChunkBytes (max sec.length.toNat 1))
      (by unfold scrubChunkBytes; omega) sec.length.toNat
      { reader with pos := sec.offset.toNat } Crc32cBuilder.new []
      (Crc32cBuilder.fed_new crate hl) with ⟨r, hbytes, hevents, hrun⟩
    rw [hrun, Outcome.ok_bind] at h
    -- Every way out of the loop returns the reader that the loop has left behind.
    have hreader : reader' = r := by
      dsimp only at h
      split at h
      · exact (congrArg Prod.snd (Outcome.ok.inj h)).symm
      · split_ifs at h
        · exact (congrArg Prod.snd (Outcome.ok.inj h)).symm
        · exact (congrArg Prod.snd (Outcome.ok.inj h)).symm
    rw [hreader]
    exact ⟨hbytes, hevents⟩
  · rw [if_neg hoff] at h
    have hreader : reader' = reader := (congrArg Prod.snd (Outcome.ok.inj h)).symm
    rw [hreader]
    exact ⟨rfl, List.suffix_refl _⟩

/-- Whatever the reads do, the bytes or a failure account for the finding, in every
    build. -/
theorem verifySection_judged (hl : crate.Lawful) (reader : Stream) (sec : SectionEntry) :
    ∃ finding reader', (∀ build, verifySection crate build reader sec = .ok (finding, reader')) ∧
      reader'.bytes = reader.bytes ∧ reader'.events <:+ reader.events ∧
      Judged crate reader finding sec := by
  by_cases hoff : sec.offset.toNat < 2 ^ 63
  · rcases verifySection_run crate hl reader sec hoff with ⟨reader', hbytes, hrun⟩
    refine ⟨_, reader', hrun, hbytes,
      (verifySection_leaves crate .release hl reader reader' sec _ (hrun .release)).2, ?_⟩
    cases hfail : firstFailure sec.bufLen reader.events sec.length.toNat
        (sec.left reader.bytes) with
    | none =>
        refine Or.inl ?_
        rw [outcomeOr, SectionEntry.finding, SectionEntry.outcome, if_pos hoff]
    | some e => exact Or.inr ⟨e, mem_of_firstFailure _ _ _ _ e hfail, rfl⟩
  · refine ⟨sec.finding crate reader.bytes, reader, fun build => ?_, rfl, List.suffix_refl _,
      Or.inl rfl⟩
    unfold verifySection Stream.seek
    rw [if_neg hoff, SectionEntry.finding, SectionEntry.outcome, if_neg hoff]
    rfl

/-- When no read fails, the bytes account for the finding. -/
theorem Judged.of_short {crate : Crc32cCrate} {file : Stream} {f : ScrubFinding}
    {sec : SectionEntry} (h : Judged crate file f sec) (hs : file.Short) :
    f = sec.finding crate file.bytes := by
  rcases h with h | ⟨e, he, _⟩
  · exact h
  · rcases hs _ he with ⟨most, hmost⟩
    cases hmost

/-- What holds of every entry of a table holds of the whole table. -/
theorem verifySections_judged (hl : crate.Lawful) (file : Stream) (sections : List SectionEntry) :
    ∃ findings file', (∀ build, verifySections crate build file sections = .ok (findings, file')) ∧
      List.Forall₂ (Judged crate file) findings sections := by
  -- The file that is left after each section has the same bytes, and what is left of the script.
  refine Outcome.foldlM_collect _
    (fun reader : Stream => reader.bytes = file.bytes ∧ reader.events <:+ file.events) _
    (fun done reader sec hreader => ?_) sections [] file ⟨rfl, List.suffix_refl _⟩
  rcases verifySection_judged crate hl reader sec with
    ⟨finding, reader', hverify, hbytes, hevents, hjudged⟩
  refine ⟨finding, reader', fun build => ?_, ⟨hbytes.trans hreader.1, hevents.trans hreader.2⟩, ?_⟩
  · simp only [hverify build, Outcome.ok_bind]
  · rw [Judged, hreader.1] at hjudged
    rcases hjudged with h | ⟨e, he, h⟩
    · exact Or.inl h
    · exact Or.inr ⟨e, hreader.2.subset he, h⟩

/-! ### Reports -/

/-- Once the header has been read there is a finding for every entry of the table. -/
theorem scrubFile_of_read (hl : crate.Lawful) (path : Bytes) (file : Stream) (header : Header)
    (es : List ReadEvent) (hsuf : es <:+ file.events)
    (hread : Header.read .release file
      = .ok (header, ⟨file.bytes, header.firstPayloadOffset, es⟩)) :
    ∃ findings, (∀ build, scrubFile crate build path (.ok file)
        = .ok ⟨path, some header.format, findings, none⟩) ∧
      List.Forall₂ (Judged crate file) findings header.sections := by
  rcases verifySections_judged crate hl ⟨file.bytes, header.firstPayloadOffset, es⟩
    header.sections with ⟨findings, file', hverify, hall⟩
  refine ⟨findings, fun build => ?_, hall.imp fun f sec h => ?_⟩
  · unfold scrubFile
    simp only [Header.read_build build .release file, hread, hverify build, Outcome.ok_bind]
  · rcases h with h | ⟨e, he, h⟩
    · exact Or.inl h
    · exact Or.inr ⟨e, hsuf.subset he, h⟩

/-- Whatever the reads do, scrubbing an open file gives a report, the same in every build.
    If the header could be read, the report has a finding for every entry of the table,
    and the bytes or a failure account for each. If not, it has none, and says what is
    wrong with the header, or which failure it was. -/
theorem scrubFile_faulty (hl : crate.Lawful) (path : Bytes) (file : Stream) :
    ∃ report, (∀ build, scrubFile crate build path (.ok file) = .ok report) ∧ report.path = path ∧
      ((∃ header, Header.parse file.bytes = .ok header ∧ report.headerError = none ∧
          report.format = some header.format ∧
          List.Forall₂ (Judged crate file) report.findings header.sections) ∨
        ∃ e, report.headerError = some ("header: " ++ e.display) ∧ report.format = none ∧
          report.findings = [] ∧
          (Header.parse file.bytes = .err e ∨ ∃ f, file.Fails f ∧ e = ofFailure f)) := by
  -- The header is read in the same way in every build, so one case split is enough.
  have hbuilds : ∀ build, Header.read build file = Header.read .release file := fun build =>
    Header.read_build build .release file
  rcases Header.read_cases .release file with ⟨es, hsuf, hread⟩ | ⟨f, hfail, hread⟩
  · cases hparse : Header.parse file.bytes with
    | ok header =>
        rw [hparse, Outcome.ok_bind] at hread
        rcases scrubFile_of_read crate hl path file header es hsuf hread with
          ⟨findings, hrun, hall⟩
        exact ⟨_, hrun, rfl, Or.inl ⟨header, rfl, rfl, rfl, hall⟩⟩
    | err e =>
        refine ⟨⟨path, none, [], some ("header: " ++ e.display)⟩, fun build => ?_, rfl,
          Or.inr ⟨e, rfl, rfl, rfl, Or.inl rfl⟩⟩
        unfold scrubFile
        simp only [hbuilds build, hread, hparse, Outcome.err_bind]
    | panic p => exact absurd hparse (Header.parse_safe file.bytes p)
  · refine ⟨⟨path, none, [], some ("header: " ++ (ofFailure f).display)⟩, fun build => ?_, rfl,
      Or.inr ⟨_, rfl, rfl, rfl, Or.inr ⟨f, hfail, rfl⟩⟩⟩
    unfold scrubFile
    simp only [hbuilds build, hread]

end

/-- An interruption in the middle of the header of a written saga is retried, so there is a
    finding for each of its sections. -/
theorem scrubFile_faulty_sample :
    ∃ report, (∀ build, scrubFile castagnoli build [0x78]
        (.ok ⟨sampleSagaFile, 0, [.short 40, .fail interrupted]⟩) = .ok report) ∧
      report.headerError = none ∧ report.findings.length = 3 := by
  rcases scrubFile_faulty castagnoli castagnoli_lawful [0x78]
    ⟨sampleSagaFile, 0, [.short 40, .fail interrupted]⟩ with ⟨report, hrun, _, hcases⟩
  have hparse : Header.parse sampleSagaFile
      = .ok (sampleSaga.container.header castagnoli sagaSectionIds) :=
    (body_clean castagnoli sagaSectionIds sampleSaga.container _ sampleSaga_fits).1
  refine ⟨report, hrun, ?_⟩
  rcases hcases with ⟨header, hparse', hnone, _, hall⟩ | ⟨e, _, _, _, hcause | ⟨f, hfail, _⟩⟩
  · rw [hparse, Outcome.ok.injEq] at hparse'
    subst hparse'
    exact ⟨hnone, hall.length_eq⟩
  · rw [hparse] at hcause
    cases hcause
  -- The only failure of the script is one that is retried.
  · have hmem := hfail.1
    simp only [List.mem_cons, reduceCtorEq, ReadEvent.fail.injEq, List.not_mem_nil, or_false,
      false_or] at hmem
    exact absurd (congrArg IoError.kind hmem) hfail.2

section

variable (crate : Crc32cCrate)

/-- The first finding that is not good is the one that is made an error. -/
theorem findingsToResult_map (all : Bytes) (sections : List SectionEntry) :
    findingsToResult (sections.map (SectionEntry.finding crate all)) =
      findingsToResult (((sections.find? fun s => ¬ s.Clean crate all).map
        (SectionEntry.finding crate all)).toList) := by
  induction sections with
  | nil => rfl
  | cons sec sections ih =>
      by_cases hclean : sec.Clean crate all
      · have hok : (sec.finding crate all).outcome = .ok :=
          (outcome_eq_ok_iff crate sec all).mpr hclean
        rw [List.map_cons, findingsToResult, hok, List.find?_cons_of_neg (by simpa using hclean)]
        exact ih
      · have hbad : (sec.finding crate all).outcome ≠ .ok := fun h =>
          hclean ((outcome_eq_ok_iff crate sec all).mp h)
        rw [List.map_cons, List.find?_cons_of_pos (by simpa using hclean), Option.map_some,
          Option.toList_some, findingsToResult, findingsToResult]
        -- A finding that is not good ends the search.
        cases hout : (sec.finding crate all).outcome with
        | ok => exact absurd hout hbad
        | checksumMismatch expected got => rfl
        | readError reason => rfl

/-- The report that the bytes of a file decide. -/
inductive Reported (crate : Crc32cCrate) (path all : Bytes) : ScrubReport → Prop where
  | file (header : Header) (h : Header.parse all = .ok header) :
      Reported crate path all (fileReport crate path all header)
  | refused (e : Error) (h : Header.parse all = .err e) :
      Reported crate path all ⟨path, none, [], some ("header: " ++ e.display)⟩

/-- When no read fails, a file whose header parses has the report that its bytes decide. -/
theorem scrubFile_of_short (hl : crate.Lawful) (path : Bytes) (file : Stream) (hs : file.Short)
    (header : Header) (hparse : Header.parse file.bytes = .ok header) (build : Build) :
    scrubFile crate build path (.ok file) = .ok (fileReport crate path file.bytes header) := by
  rcases Header.read_cases .release file with ⟨es, hsuf, hread⟩ | ⟨f, hfail, _⟩
  · rw [hparse, Outcome.ok_bind] at hread
    rcases scrubFile_of_read crate hl path file header es hsuf hread with ⟨findings, hrun, hall⟩
    have hfindings : findings = header.sections.map (SectionEntry.finding crate file.bytes) := by
      have hexact := hall.imp fun f sec h => h.of_short hs
      exact (List.forall₂_eq_eq_eq ▸ List.forall₂_map_right_iff.mpr hexact)
    rw [hrun build, hfindings, fileReport]
  · exact absurd hfail (hs.benign.not_fails f)

/-- `bad_count` is the number of sections that are not clean. -/
theorem badCount_fileReport (path all : Bytes) (header : Header) :
    (fileReport crate path all header).badCount
      = header.sections.countP (fun s => ¬ s.Clean crate all) := by
  rw [ScrubReport.badCount, fileReport, List.filter_map, List.length_map,
    List.countP_eq_length_filter]
  congr 1
  refine List.filter_congr fun s _ => ?_
  rw [Bool.eq_iff_iff, Function.comp_apply, bne_iff_ne, decide_eq_true_iff]
  exact not_congr (outcome_eq_ok_iff crate s all)

/-- The report is clean when all sections are. -/
theorem isClean_fileReport (path all : Bytes) (header : Header) :
    (fileReport crate path all header).isClean = true ↔
      ∀ s ∈ header.sections, s.Clean crate all := by
  have hgood : ∀ s : SectionEntry, (s.finding crate all).outcome = .ok ↔ s.Clean crate all :=
    fun s => outcome_eq_ok_iff crate s all
  rw [isClean_iff, fileReport]
  simp only [true_and, List.forall_mem_map, hgood]

/-- `report_to_result` is what becomes of the first section that is not clean. -/
theorem reportToResult_fileReport (path all : Bytes) (header : Header) :
    reportToResult (fileReport crate path all header) = findingsToResult
      (((header.sections.find? fun s => ¬ s.Clean crate all).map
        (SectionEntry.finding crate all)).toList) :=
  findingsToResult_map crate all header.sections

/-- When no read fails, scrubbing gives the report that the bytes decide. -/
theorem scrubFile_reported (hl : crate.Lawful) (path : Bytes) (file : Stream) (hs : file.Short) :
    ∃ report, (∀ build, scrubFile crate build path (.ok file) = .ok report) ∧
      Reported crate path file.bytes report := by
  cases hparse : Header.parse file.bytes with
  | ok header =>
      exact ⟨_, scrubFile_of_short crate hl path file hs header hparse, .file header hparse⟩
  | err e =>
      rcases Header.read_cases .release file with ⟨es, _, hread⟩ | ⟨f, hfail, _⟩
      · refine ⟨_, fun build => ?_, .refused e hparse⟩
        unfold scrubFile
        simp only [Header.read_build build .release file, hread, hparse, Outcome.err_bind]
      · exact absurd hfail (hs.benign.not_fails f)
  | panic p => exact absurd hparse (Header.parse_safe file.bytes p)

/-- When no read fails, a file has the report that its bytes decide, in every build. If the
    header parses it has one finding for each entry, in table order. `bad_count` is the number
    of sections that are not clean, the report is clean when there are none, and
    `report_to_result` is what becomes of the first of them. If the header does not parse, there
    are no findings, and the report is the error of the header. -/
theorem scrubFile_exact (hl : crate.Lawful) (path : Bytes) (file : Stream) (hs : file.Short) :
    ∃ report, (∀ build, scrubFile crate build path (.ok file) = .ok report) ∧
      Reported crate path file.bytes report ∧
      (∀ header, Header.parse file.bytes = .ok header →
        report = fileReport crate path file.bytes header ∧
        report.badCount = header.sections.countP (fun s => ¬ s.Clean crate file.bytes) ∧
        (report.isClean = true ↔ ∀ s ∈ header.sections, s.Clean crate file.bytes) ∧
        reportToResult report = findingsToResult
          (((header.sections.find? fun s => ¬ s.Clean crate file.bytes).map
            (SectionEntry.finding crate file.bytes)).toList)) ∧
      (∀ e, Header.parse file.bytes = .err e →
        report = ⟨path, none, [], some ("header: " ++ e.display)⟩ ∧ report.badCount = 0 ∧
        report.isClean = false ∧
        reportToResult report = .err (.malformed ("header: " ++ e.display))) := by
  rcases scrubFile_reported crate hl path file hs with ⟨report, hrun, hreported⟩
  refine ⟨report, hrun, hreported, ?_⟩
  cases hreported with
  | file header hparse =>
      refine ⟨fun header' hparse' => ?_, fun e herr => ?_⟩
      · rw [hparse, Outcome.ok.injEq] at hparse'
        rw [← hparse']
        exact ⟨rfl, badCount_fileReport crate path file.bytes header,
          isClean_fileReport crate path file.bytes header,
          reportToResult_fileReport crate path file.bytes header⟩
      · rw [hparse] at herr
        cases herr
  | refused e hparse =>
      refine ⟨fun header hparse' => ?_, fun e' herr => ?_⟩
      · rw [hparse] at hparse'
        cases hparse'
      · rw [hparse, Outcome.err.injEq] at herr
        rw [← herr]
        exact ⟨rfl, rfl, rfl, rfl⟩

end

/-- The sample file with a byte of its meta block changed. -/
def spoiledSagaFile : Bytes := sampleSagaFile.set 150 0xff

/-- The meta block of it is the one section that is not in order. -/
theorem scrubFile_exact_sample :
    ∃ report, (∀ build, scrubFile castagnoli build [0x78] (.ok (Stream.ofBytes spoiledSagaFile))
        = .ok report) ∧ report.badCount = 1 ∧ report.isClean = false ∧
      reportToResult report = .err (.sectionChecksumFailed 1) := by
  have hparse : Header.parse spoiledSagaFile
      = .ok (sampleSaga.container.header castagnoli sagaSectionIds) := by
    set_option maxRecDepth 4000 in decide +kernel
  rcases scrubFile_exact castagnoli castagnoli_lawful [0x78] (Stream.ofBytes spoiledSagaFile)
    (Stream.short_ofBytes _) with ⟨report, hrun, _, hfile, _⟩
  rcases hfile _ hparse with ⟨_, hcount, hclean, hresult⟩
  refine ⟨report, hrun, ?_, ?_, ?_⟩
  · rw [hcount]
    set_option maxRecDepth 4000 in decide +kernel
  · rw [Bool.eq_false_iff, ne_eq, hclean]
    set_option maxRecDepth 4000 in decide +kernel
  · rw [hresult]
    set_option maxRecDepth 4000 in decide +kernel

end SkegHull
