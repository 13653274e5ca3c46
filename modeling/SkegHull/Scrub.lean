import SkegHull.Container
import SkegHull.Lib.Schedule

/-!
# The Scrubber

The scrubber opens a file, reads its header, and then re-reads the payload of
every table entry in pieces, feeding each piece to a streaming checksum. It does
not look at the trailer and it does not load a section into memory.

`crcLoop` is the read loop of one section. `crcLoop_run` is what it computes, for
every schedule of reads: the failure it meets first, if it meets one, and what the
bytes say otherwise. The induction is on the bytes that are still wanted, and the
invariant is that the builder has been fed exactly the bytes between the start of the
section and the current position. `crcLoop_spec` is what the rest of the scrubber
needs of it. It always stops, it never changes the file, if it returns a checksum
then that is the checksum of the whole range and the range is in the file, and if no
read fails then it does return one whenever the range is in the file.

`SectionEntry.Clean` is the predicate of an entry and a file that the loop decides.
`scrubFile_of_clean` and `scrubFile_short` are the two directions for a whole
file.

## Main definitions

* `ScrubReport`, `ScrubFinding`, `ScrubOutcome`: What a scrub reports.
* `crcLoop`, `verifySection`, `scrubFile`, `reportToResult`: The source functions.
* `SectionEntry.Clean`: The range is in the file and has the declared checksum.
* `rangeResult`, `failedOr`: What the bytes of a range say, and what a failure does to
  it.
* `LoopResult`: What the read loop has done when it stops.
* `cleanReport`: The report of a file with nothing wrong.

## Theorems

* `crcLoop_run`: What the read loop returns.
* `crcLoop_spec`: What it has done when it stops.
* `verifySection_spec`: What verifying a section decides.
* `scrubFile_returns`: Scrubbing always gives a report.
* `scrubFile_of_clean`: A clean report means every section is clean.
* `scrubFile_short`: When every section is clean, so is the report.
-/

namespace SkegHull

open Lib

/-- Size of the buffer the scrubber reads with. -/
def scrubChunkBytes : Nat := 65536

/-- Outcome for one section. -/
inductive ScrubOutcome where
  | ok
  | checksumMismatch (expected got : UInt32)
  | readError (reason : String)
  deriving DecidableEq

/-- One section's verification result. -/
structure ScrubFinding where
  typeId : UInt16
  offset : UInt64
  length : UInt64
  outcome : ScrubOutcome
  deriving DecidableEq

/-- What the scrubber found in one file. -/
structure ScrubReport where
  path : Bytes
  format : Option FormatId
  findings : List ScrubFinding
  headerError : Option String
  deriving DecidableEq

/-- Every section verified and the header was readable. -/
def ScrubReport.isClean (report : ScrubReport) : Bool :=
  report.headerError.isNone && report.findings.all fun f => f.outcome == .ok

/-- The read loop of one section: `remaining` more bytes, at most `bufLen` at a
    time. It returns the builder, or the reason it stopped. -/
def crcLoop (crate : Crc32cCrate) (build : Build) (length : UInt64) (bufLen : Nat)
    (reader : Stream) (builder : Crc32cBuilder) (remaining : Nat) :
    Outcome Empty (Except String Crc32cBuilder × Stream) :=
  if remaining = 0 then .ok (.ok builder, reader)
  else
    let want := min remaining bufLen
    match _h : reader.read want with
    | (.ok [], reader) =>
        .ok (.error s!"unexpected EOF: {remaining} of {length} bytes missing", reader)
    | (.ok (x :: got), reader) => do
        let builder := builder.update crate (x :: got)
        let remaining ← build.sub remaining (x :: got).length
        crcLoop crate build length bufLen reader builder remaining
    | (.error e, reader) => .ok (.error s!"read: {e.text}", reader)
termination_by reader.rest.length
decreasing_by
  exact (Stream.read_ok_decreases _ _ _ _ _ _h).1

/-- The finding for a section that verified. -/
def okFinding (sec : SectionEntry) : ScrubFinding :=
  ⟨sec.typeId, sec.offset, sec.length, .ok⟩

/-- Re-read one section's payload in chunks and compare its checksum. -/
def verifySection (crate : Crc32cCrate) (build : Build) (reader : Stream)
    (sec : SectionEntry) : Outcome Empty (ScrubFinding × Stream) :=
  let base := okFinding sec
  match reader.seek sec.offset.toNat with
  | .err e =>
      .ok ({ base with outcome := .readError s!"seek to {sec.offset}: {e.text}" }, reader)
  | .panic p => .panic p
  | .ok reader => do
      let bufLen := min scrubChunkBytes (max sec.length.toNat 1)
      let (result, reader) ← crcLoop crate build sec.length bufLen reader Crc32cBuilder.new
        sec.length.toNat
      match result with
      | .error reason => .ok ({ base with outcome := .readError reason }, reader)
      | .ok builder =>
          let got := builder.finalize
          if got ≠ sec.checksum then
            .ok ({ base with outcome := .checksumMismatch sec.checksum got }, reader)
          else .ok (base, reader)

/-- Verify the sections of a table in order. -/
def verifySections (crate : Crc32cCrate) (build : Build) (file : Stream)
    (sections : List SectionEntry) : Outcome Empty (List ScrubFinding × Stream) :=
  sections.foldlM (fun (findings, file) sec => do
    let (finding, file) ← verifySection crate build file sec
    .ok (findings ++ [finding], file)) ([], file)

/-- Scrub one hull file, given what opening it returned. -/
def scrubFile (crate : Crc32cCrate) (build : Build) (path : Bytes)
    (opened : Except IoError Stream) : Outcome Empty ScrubReport :=
  match opened with
  | .error e => .ok ⟨path, none, [], some s!"open: {e.text}"⟩
  | .ok file =>
      match Header.read build file with
      | .err e => .ok ⟨path, none, [], some ("header: " ++ e.display)⟩
      | .panic p => .panic p
      | .ok (header, file) => do
          let (findings, _) ← verifySections crate build file header.sections
          .ok ⟨path, some header.format, findings, none⟩

/-- The first bad finding as an error. -/
def findingsToResult : List ScrubFinding → Outcome Error Unit
  | [] => .ok ()
  | f :: fs =>
      match f.outcome with
      | .ok => findingsToResult fs
      | .checksumMismatch _ _ => .err (.sectionChecksumFailed f.typeId)
      | .readError reason => .err (.malformed s!"section type_id={f.typeId}: {reason}")

/-- Convert a scrub outcome to a typed error. -/
def reportToResult (report : ScrubReport) : Outcome Error Unit :=
  match report.headerError with
  | some msg => .err (.malformed msg)
  | none => findingsToResult report.findings

/-! ### The read loop -/

section Loop

variable (crate : Crc32cCrate) (build : Build)

/-- One turn of the loop. -/
theorem crcLoop_eq (length : UInt64) (bufLen : Nat) (reader : Stream) (builder : Crc32cBuilder)
    (n : Nat) (hn : n ≠ 0) :
    crcLoop crate build length bufLen reader builder n =
      match reader.read (min n bufLen) with
      | (.ok [], reader) => .ok (.error s!"unexpected EOF: {n} of {length} bytes missing", reader)
      | (.ok (x :: got), reader) => do
          let n ← build.sub n (x :: got).length
          crcLoop crate build length bufLen reader (builder.update crate (x :: got)) n
      | (.error e, reader) => .ok (.error s!"read: {e.text}", reader) := by
  rw [crcLoop, if_neg hn]
  dsimp only
  split
  all_goals
    rename_i heq
    simp only [heq]

/-- What the loop returns for the bytes of a range, `n` of them, when it has been fed
    `done` before. -/
def rangeResult (crate : Crc32cCrate) (length : UInt64) (done rest : Bytes) (n : Nat) :
    Except String Crc32cBuilder :=
  if n ≤ rest.length then .ok ⟨crate.crc32c (done ++ rest.take n)⟩
  else .error s!"unexpected EOF: {n - rest.length} of {length} bytes missing"

/-- What the loop returns after the failure it met, if it met one. -/
def failedOr (result : Except String Crc32cBuilder) : Option IoError → Except String Crc32cBuilder
  | none => result
  | some e => .error s!"read: {e.text}"

/-- The bytes of one turn are counted the same whenever they are taken off. -/
theorem rangeResult_drop (crate : Crc32cCrate) (length : UInt64) (done rest : Bytes) (n k : Nat)
    (hk : k ≤ n) :
    rangeResult crate length (done ++ rest.take k) (rest.drop k) (n - (rest.take k).length) =
      rangeResult crate length done rest n := by
  unfold rangeResult
  rw [List.append_assoc, take_append_take_drop rest k n hk, List.length_drop, List.length_take]
  by_cases hle : n ≤ rest.length
  · rw [if_pos (by omega), if_pos hle]
  · rw [if_neg (by omega), if_neg hle]
    rw [show n - min k rest.length - (rest.length - k) = n - rest.length by omega]

/-- The loop returns what the bytes say, or the first failure it meets. It returns the
    same in every build, so it never subtracts more than there is. -/
theorem crcLoop_run (hl : crate.Lawful) (length : UInt64) (bufLen : Nat) (hbuf : 0 < bufLen)
    (n : Nat) (reader : Stream) (builder : Crc32cBuilder) (done : Bytes)
    (hfed : builder.Fed crate done) :
    ∃ reader', reader'.bytes = reader.bytes ∧ reader'.events <:+ reader.events ∧ ∀ build,
      crcLoop crate build length bufLen reader builder n =
        .ok (failedOr (rangeResult crate length done reader.rest n)
          (firstFailure bufLen reader.events n reader.rest.length), reader') := by
  induction n using Nat.strong_induction_on generalizing reader builder done with
  | _ n ih =>
      by_cases hn : n = 0
      · subst hn
        refine ⟨reader, rfl, List.suffix_rfl, fun build => ?_⟩
        rw [crcLoop, if_pos rfl, firstFailure_zero, failedOr, rangeResult,
          if_pos (Nat.zero_le _), List.take_zero, List.append_nil, ← hfed]
      cases hread : reader.read (min n bufLen) with
      | mk outcome reader1 =>
          cases outcome with
          | error e =>
              rcases Stream.read_error _ _ _ _ hread with ⟨es, hev, hreader1⟩
              have hsuf : reader1.events <:+ reader.events := by
                rw [hreader1, hev]
                exact List.suffix_cons _ es
              refine ⟨reader1, by rw [hreader1], hsuf, fun build => ?_⟩
              rw [crcLoop_eq crate build length bufLen reader builder n hn, hread,
                Stream.firstFailure_error reader reader1 bufLen n _ _ hn e hread, failedOr]
          | ok got =>
              rcases Stream.read_ok _ _ _ _ hread with ⟨k, es, hk, hkle, hgot, hadv, hsuf⟩
              have hkpos : 0 < k := hk (by omega)
              have hbytes : reader1.bytes = reader.bytes := by
                rw [hadv]
                rfl
              have hevents : reader1.events <:+ reader.events := by
                rw [hadv]
                exact hsuf
              have hlength := congrArg List.length hgot
              rw [List.length_take] at hlength
              rw [Stream.firstFailure_read reader reader1 bufLen n got hread]
              cases got with
              | nil =>
                  -- Nothing was read although there was room, so nothing is left.
                  rw [List.length_nil] at hlength
                  refine ⟨reader1, hbytes, hevents, fun build => ?_⟩
                  rw [crcLoop_eq crate build length bufLen reader builder n hn, hread,
                    if_pos List.length_nil, failedOr, rangeResult, if_neg (by omega),
                    show n - reader.rest.length = n by omega]
              | cons x got =>
                  have hrest : reader1.rest = reader.rest.drop k := by
                    rw [hadv, hgot, Stream.rest_advance]
                  rcases ih (n - (x :: got).length) (by rw [List.length_cons]; omega) reader1 _ _
                    (Crc32cBuilder.fed_update crate hl builder done (x :: got) hfed) with
                    ⟨reader', hbytes', hevents', hrun⟩
                  have hrange := rangeResult_drop crate length done reader.rest n k (by omega)
                  rw [← hrest, ← hgot] at hrange
                  refine ⟨reader', hbytes'.trans hbytes, hevents'.trans hevents, fun build => ?_⟩
                  rw [crcLoop_eq crate build length bufLen reader builder n hn, hread]
                  dsimp only
                  -- A read returns no more than was wanted.
                  rw [sub_of_le _ _ _ (by omega), Outcome.ok_bind, hrun, hrange,
                    if_neg (by rw [List.length_cons]; omega)]

/-- What the loop has done when it stops, with `n` bytes before it: it has left the file
    alone, and a builder it returns has been fed all of them. If no read fails, it returns
    one whenever they are in the file. -/
structure LoopResult (reader : Stream) (done : Bytes) (n : Nat)
    (result : Except String Crc32cBuilder) (reader' : Stream) : Prop where
  bytes : reader'.bytes = reader.bytes
  fed : ∀ b, result = .ok b → n ≤ reader.rest.length ∧ b.Fed crate (done ++ reader.rest.take n)
  short : reader.Short → reader'.Short
  complete : reader.Short → n ≤ reader.rest.length → ∃ b, result = .ok b

/-- The loop stops, with such a result. -/
theorem crcLoop_spec (hl : crate.Lawful) (length : UInt64) (bufLen : Nat) (hbuf : 0 < bufLen)
    (n : Nat) (reader : Stream) (builder : Crc32cBuilder) (done : Bytes)
    (hfed : builder.Fed crate done) :
    ∃ result reader', crcLoop crate build length bufLen reader builder n = .ok (result, reader') ∧
      LoopResult crate reader done n result reader' := by
  rcases crcLoop_run crate hl length bufLen hbuf n reader builder done hfed with
    ⟨reader', hbytes, hsuf, hrun⟩
  refine ⟨_, reader', hrun build, hbytes, fun b hb => ?_, fun hs e he => hs e (hsuf.subset he),
    fun hs hle => ?_⟩
  · cases hfail : firstFailure bufLen reader.events n reader.rest.length with
    | some e =>
        rw [hfail] at hb
        cases hb
    | none =>
        rw [hfail, failedOr, rangeResult] at hb
        by_cases hle : n ≤ reader.rest.length
        · rw [if_pos hle] at hb
          rw [← Except.ok.inj hb]
          exact ⟨hle, rfl⟩
        · rw [if_neg hle] at hb
          cases hb
  · -- A script of short reads has no failure for the loop to meet.
    rw [firstFailure_of_short _ _ _ _ ((Stream.short_iff reader).mp hs), failedOr, rangeResult,
      if_pos hle]
    exact ⟨_, rfl⟩

end Loop

/-! ### Sections and files -/

/-- What verifying a section decides: the payload is in the file, and it has the
    checksum the entry declares. An empty payload is in every file. -/
structure SectionEntry.Clean (crate : Crc32cCrate) (sec : SectionEntry) (all : Bytes) : Prop where
  seekable : sec.offset.toNat < 2 ^ 63
  inside : sec.length.toNat = 0 ∨ sec.stop ≤ all.length
  checksum : crate.crc32c (sec.payload all) = sec.checksum

section Verify

variable (crate : Crc32cCrate) (build : Build)

/-- From the start of a section on, the bytes of its range are its payload. -/
theorem take_rest_sought (reader : Stream) (sec : SectionEntry) :
    ({ reader with pos := sec.offset.toNat } : Stream).rest.take sec.length.toNat
      = sec.payload reader.bytes := by
  rw [Stream.rest, SectionEntry.payload, cut, Nat.add_sub_cancel_left]

/-- Verifying a section never panics and leaves the file alone. A section found
    in order is clean, and if no read fails a clean section is found in
    order. -/
theorem verifySection_spec (hl : crate.Lawful) (reader : Stream) (sec : SectionEntry) :
    ∃ finding reader', verifySection crate build reader sec = .ok (finding, reader') ∧
      reader'.bytes = reader.bytes ∧
      (finding.outcome = .ok → sec.Clean crate reader.bytes) ∧
      (reader.Short → reader'.Short ∧
        (sec.Clean crate reader.bytes → finding = okFinding sec)) := by
  unfold verifySection Stream.seek
  by_cases hoff : sec.offset.toNat < 2 ^ 63
  · rw [if_pos hoff]
    dsimp only
    -- The loop counts from the seek position, the entry from the start of the file.
    have hroom : sec.length.toNat ≤
        ({ reader with pos := sec.offset.toNat } : Stream).rest.length ↔
        sec.length.toNat = 0 ∨ sec.stop ≤ reader.bytes.length := by
      simp only [Stream.rest, List.length_drop, SectionEntry.stop]
      omega
    rcases crcLoop_spec crate build hl sec.length
      (min scrubChunkBytes (max sec.length.toNat 1))
      (by unfold scrubChunkBytes; omega) sec.length.toNat
      { reader with pos := sec.offset.toNat } Crc32cBuilder.new []
      (Crc32cBuilder.fed_new crate hl) with ⟨result, reader', hrun, hresult⟩
    rw [hrun, Outcome.ok_bind]
    dsimp only
    cases result with
    | error reason =>
        refine ⟨_, reader', rfl, hresult.bytes, fun h => ?_, fun hs => ?_⟩
        · cases h
        · refine ⟨hresult.short hs, fun hclean => ?_⟩
          rcases hresult.complete hs (hroom.mpr hclean.inside) with ⟨b, hb⟩
          cases hb
    | ok builder =>
        dsimp only
        rcases hresult.fed builder rfl with ⟨hle, hfed⟩
        rw [take_rest_sought, List.nil_append] at hfed
        -- The builder was fed the payload, so it holds the checksum of the payload.
        have hgot : builder.finalize = crate.crc32c (sec.payload reader.bytes) := hfed
        by_cases hcrc : crate.crc32c (sec.payload reader.bytes) = sec.checksum
        · rw [hgot, if_neg (not_not.mpr hcrc)]
          exact ⟨_, reader', rfl, hresult.bytes, fun _ => ⟨hoff, hroom.mp hle, hcrc⟩,
            fun hs => ⟨hresult.short hs, fun _ => rfl⟩⟩
        · rw [hgot, if_pos hcrc]
          refine ⟨_, reader', rfl, hresult.bytes, fun h => ?_,
            fun hs => ⟨hresult.short hs, fun hclean => ?_⟩⟩
          · cases h
          · exact absurd hclean.checksum hcrc
  -- The seek fails, and so does the first field of the predicate.
  · rw [if_neg hoff]
    dsimp only
    refine ⟨_, reader, rfl, rfl, fun h => ?_, fun hs => ⟨hs, fun hclean => ?_⟩⟩
    · cases h
    · exact absurd hclean.seekable hoff

/-- Verifying a table: every section that is found in order is clean, and if no
    read fails a table of clean sections is found in order. -/
theorem verifySections_spec (hl : crate.Lawful) (file : Stream) (sections : List SectionEntry) :
    ∃ findings file', verifySections crate build file sections = .ok (findings, file') ∧
      ((∀ f ∈ findings, f.outcome = .ok) → ∀ s ∈ sections, s.Clean crate file.bytes) ∧
      (file.Short → (∀ s ∈ sections, s.Clean crate file.bytes) →
        findings = sections.map okFinding) := by
  -- The findings collected so far are carried along, so the induction is over all of them.
  have hloop : ∀ (sections : List SectionEntry) (done : List ScrubFinding) (reader : Stream),
      reader.bytes = file.bytes →
      ∃ findings file', sections.foldlM (fun (findings, file) sec => do
          let (finding, file) ← verifySection crate build file sec
          .ok (findings ++ [finding], file)) (done, reader)
        = (.ok (done ++ findings, file') : Outcome Empty (List ScrubFinding × Stream)) ∧
      ((∀ f ∈ findings, f.outcome = .ok) → ∀ s ∈ sections, s.Clean crate file.bytes) ∧
      (reader.Short → (∀ s ∈ sections, s.Clean crate file.bytes) →
        findings = sections.map okFinding) := by
    intro sections
    induction sections with
    | nil =>
        intro done reader _
        refine ⟨[], reader, ?_, fun _ s hs => absurd hs List.not_mem_nil, fun _ _ => rfl⟩
        rw [List.foldlM_nil, List.append_nil]
        rfl
    | cons sec sections ih =>
        intro done reader hbytes
        rcases verifySection_spec crate build hl reader sec with
          ⟨finding, reader1, hverify, hbytes1, hsound, hcomplete⟩
        rw [hbytes] at hbytes1 hsound hcomplete
        rcases ih (done ++ [finding]) reader1 hbytes1 with
          ⟨findings, file', hrun, hsounds, hcompletes⟩
        refine ⟨finding :: findings, file', ?_, fun hall s hs => ?_, fun hshort hall => ?_⟩
        · rw [List.foldlM_cons]
          simp only [hverify, Outcome.ok_bind]
          rw [hrun, List.append_assoc, List.singleton_append]
        · rcases List.mem_cons.mp hs with rfl | hs
          · exact hsound (hall finding List.mem_cons_self)
          · exact hsounds (fun f hf => hall f (List.mem_cons_of_mem _ hf)) s hs
        · rcases hcomplete hshort with ⟨hshort1, hfinding⟩
          rw [List.map_cons, hfinding (hall sec List.mem_cons_self),
            hcompletes hshort1 fun s hs => hall s (List.mem_cons_of_mem _ hs)]
  rcases hloop sections [] file rfl with ⟨findings, file', hrun, hsound, hcomplete⟩
  exact ⟨findings, file', hrun, hsound, hcomplete⟩

/-- The report of a file with nothing wrong. -/
def cleanReport (path : Bytes) (header : Header) : ScrubReport :=
  ⟨path, some header.format, header.sections.map okFinding, none⟩

theorem isClean_iff (report : ScrubReport) :
    report.isClean = true ↔
      report.headerError = none ∧ ∀ f ∈ report.findings, f.outcome = .ok := by
  simp only [ScrubReport.isClean, Bool.and_eq_true, Option.isNone_iff_eq_none, List.all_eq_true,
    beq_iff_eq]

/-- A clean report means the header parses and every section is clean. -/
theorem scrubFile_of_clean (hl : crate.Lawful) (path : Bytes) (file : Stream) (hb : file.Benign)
    (report : ScrubReport) (hrun : scrubFile crate build path (.ok file) = .ok report)
    (hclean : report.isClean = true) :
    ∃ header, Header.parse file.bytes = .ok header ∧
      ∀ s ∈ header.sections, s.Clean crate file.bytes := by
  rcases (isClean_iff report).mp hclean with ⟨hnone, hall⟩
  rcases Header.read_benign build file hb with ⟨es, _, hread⟩
  unfold scrubFile at hrun
  dsimp only at hrun
  rw [hread] at hrun
  cases hparse : Header.parse file.bytes with
  | err e =>
      rw [hparse] at hrun
      simp only [Outcome.err_bind, Outcome.ok.injEq] at hrun
      -- An unreadable header is in the report, which is then not clean.
      rw [← hrun] at hnone
      cases hnone
  | panic p =>
      rw [hparse] at hrun
      cases hrun
  | ok header =>
      rcases verifySections_spec crate build hl ⟨file.bytes, header.firstPayloadOffset, es⟩
        header.sections with ⟨findings, file', hverify, hsound, _⟩
      rw [hparse] at hrun
      simp only [Outcome.ok_bind, hverify, Outcome.ok.injEq] at hrun
      rw [← hrun] at hall
      exact ⟨header, rfl, hsound hall⟩

/-- When no read fails and every section is clean, the report is clean and has
    one finding per entry in table order. -/
theorem scrubFile_short (hl : crate.Lawful) (path : Bytes) (file : Stream) (hs : file.Short)
    (header : Header) (hparse : Header.parse file.bytes = .ok header)
    (hall : ∀ s ∈ header.sections, s.Clean crate file.bytes) :
    scrubFile crate build path (.ok file) = .ok (cleanReport path header) := by
  rcases Header.read_benign build file hs.benign with ⟨es, hsuf, hread⟩
  rcases verifySections_spec crate build hl ⟨file.bytes, header.firstPayloadOffset, es⟩
    header.sections with ⟨findings, file', hverify, _, hcomplete⟩
  -- Reading the header uses up part of the script, and the rest is short reads, too.
  have hfindings := hcomplete (fun e he => hs e (hsuf.subset he)) hall
  unfold scrubFile
  simp only [hread, hparse, Outcome.ok_bind, hverify]
  rw [hfindings, cleanReport]

/-- Scrubbing a file always gives a report, whatever opening and reading it do. -/
theorem scrubFile_returns (hl : crate.Lawful) (path : Bytes) (opened : Except IoError Stream) :
    ∃ report, scrubFile crate build path opened = .ok report := by
  cases opened with
  | error e => exact ⟨_, rfl⟩
  | ok file =>
      have hsafe := Header.read_safe build file
      unfold scrubFile
      dsimp only
      cases hread : Header.read build file with
      | err e => exact ⟨_, rfl⟩
      | panic p => exact absurd hread (hsafe p)
      | ok r =>
          rcases verifySections_spec crate build hl r.2 r.1.sections with
            ⟨findings, file', hverify, _⟩
          exact ⟨⟨path, some r.1.format, findings, none⟩, by simp only [hverify, Outcome.ok_bind]⟩

theorem isClean_cleanReport (path : Bytes) (header : Header) :
    (cleanReport path header).isClean = true := by
  refine (isClean_iff _).mpr ⟨rfl, fun f hf => ?_⟩
  rcases List.mem_map.mp hf with ⟨s, _, rfl⟩
  rfl

theorem findingsToResult_of_ok (findings : List ScrubFinding)
    (hall : ∀ f ∈ findings, f.outcome = .ok) : findingsToResult findings = .ok () := by
  induction findings with
  | nil => rfl
  | cons f fs ih =>
      rw [findingsToResult, hall f List.mem_cons_self]
      exact ih fun g hg => hall g (List.mem_cons_of_mem _ hg)

/-- A clean report converts to success. -/
theorem reportToResult_of_clean (report : ScrubReport) (h : report.isClean = true) :
    reportToResult report = .ok () := by
  rcases (isClean_iff report).mp h with ⟨hnone, hall⟩
  unfold reportToResult
  rw [hnone]
  exact findingsToResult_of_ok report.findings hall

end Verify

end SkegHull
