import SkegHull.Header.Exact
import SkegHull.Scrub.Live
import SkegHull.Scrub.Rot

/-!
# What a Pass Says

A pass over a directory that nobody writes to, on a disk in order. Then the bytes of the
files decide everything a pass says. It scrubs the regular files that start with the
magic, in the order of the listing, and what it reports of each is what scrubbing its
bytes gives, however the reads of the probe and of the scrub were cut. So a pass has
nothing to report exactly when every hull file of the directory is clean
(`sweep_exact`).

Take a directory of clean files, and let payloads rot. The damage that the reports of
the next pass name, file by file and section by section, is what has rotted, and nothing
besides (`sweep_localises`).

## Main definitions

* `regularFile`, `hullPaths`: The files of a listing, and those that a pass scrubs.
* `Still`: The files open with their content, and no read fails.
* `Rotted`: What may have happened to a clean file.
* `damage`: The bad sections that reports name.

## Theorems

* `scrubEntries_still`: Each round of a pass gives the report that the bytes decide.
* `sweep_exact`: What a pass reports.
* `sweep_localises`: A pass points at the damage.
-/

namespace SkegHull

open Lib

/-- The path of an entry, if it is one of a regular file. -/
def regularFile (dir : Bytes) (answer : Answers) : Except IoError Bytes → Option Bytes
  | .error _ => none
  | .ok name =>
      match answer (.fileType (Path.join dir name)) with
      | .ok .file => some (Path.join dir name)
      | _ => none

/-- The regular files of a listing that start with the magic. -/
def hullPaths (dir : Bytes) (answer : Answers) (content : Bytes → Bytes)
    (es : List (Except IoError Bytes)) : List Bytes :=
  (es.filterMap (regularFile dir answer)).filter fun path => magic.val <+: content path

/-- Opening the file has given its bytes, from the start, and no read fails. -/
def OpenedAs (all : Bytes) (opened : Except IoError Stream) : Prop :=
  ∃ f, opened = .ok f ∧ f.Short ∧ f.pos = 0 ∧ f.bytes = all

/-- Nobody writes, and the disk is in order: every regular file opens with its content,
    for the probe and for the scrub. -/
structure Still (content : Bytes → Bytes) (answer : Answers) : Prop where
  probed : ∀ path, answer (.fileType path) = .ok .file →
    OpenedAs (content path) (answer (.probe path))
  scrubbed : ∀ path, answer (.fileType path) = .ok .file →
    OpenedAs (content path) (answer (.scrub path))

section

variable {crate : Crc32cCrate} {path all : Bytes} {report : ScrubReport}

theorem Reported.path_eq (h : Reported crate path all report) : report.path = path := by
  cases h with
  | file header h => rfl
  | refused e h => rfl

/-- The report is clean when the file is. -/
theorem Reported.isClean_iff (h : Reported crate path all report) :
    report.isClean = true ↔ FileClean crate all := by
  cases h with
  | file header hparse =>
      rw [isClean_fileReport]
      constructor
      · intro hall
        exact ⟨header, hparse, hall⟩
      · rintro ⟨header', hparse', hall⟩
        rw [hparse, Outcome.ok.injEq] at hparse'
        rw [hparse']
        exact hall
  | refused e hparse =>
      rw [SkegHull.isClean_iff]
      constructor
      · rintro ⟨hnone, _⟩
        cases hnone
      · rintro ⟨header, hparse', _⟩
        rw [hparse] at hparse'
        cases hparse'

/-- The report of a file whose header parses. -/
theorem Reported.eq_fileReport (h : Reported crate path all report) (header : Header)
    (hparse : Header.parse all = .ok header) : report = fileReport crate path all header := by
  cases h with
  | file header' hparse' =>
      rw [hparse, Outcome.ok.injEq] at hparse'
      rw [hparse']
  | refused e hparse' =>
      rw [hparse] at hparse'
      cases hparse'

end

section

/-- Reports are clean when their files are. -/
theorem allClean_iff {crate : Crc32cCrate} {content : Bytes → Bytes} {paths : List Bytes}
    {reports : List ScrubReport}
    (h : List.Forall₂ (fun path report => Reported crate path (content path) report) paths
      reports) : AllClean reports ↔ ∀ path ∈ paths, FileClean crate (content path) := by
  induction h with
  | nil => simp only [AllClean, List.not_mem_nil, false_implies, implies_true]
  | cons hreported _ ih =>
      rw [AllClean, List.forall_mem_cons, List.forall_mem_cons, hreported.isClean_iff, ← ih,
        AllClean]

/-- The reports are of the files, in order. -/
theorem paths_of_reported {crate : Crc32cCrate} {content : Bytes → Bytes} {paths : List Bytes}
    {reports : List ScrubReport}
    (h : List.Forall₂ (fun path report => Reported crate path (content path) report) paths
      reports) : reports.map (·.path) = paths := by
  induction h with
  | nil => rfl
  | cons hreported _ ih => rw [List.map_cons, hreported.path_eq, ih]

variable (crate : Crc32cCrate) (dir : Bytes) (answer : Answers) (content : Bytes → Bytes)

/-- An entry of something other than a regular file adds nothing. -/
theorem scrubEntry_irregular (build : Build) (out : List ScrubReport)
    (entry : Except IoError Bytes) (h : regularFile dir answer entry = none) :
    scrubEntry crate build dir answer out entry = .ok out := by
  rcases entry with e | name
  · rfl
  · rw [regularFile] at h
    simp only [scrubEntry]
    cases htype : answer (.fileType (Path.join dir name)) with
    | error e => rfl
    | ok ft =>
        rw [htype] at h
        cases ft with
        | file => cases h
        | dir => rfl
        | symlink => rfl
        | other => rfl

theorem regularFile_eq_some (entry : Except IoError Bytes) (path : Bytes)
    (h : regularFile dir answer entry = some path) :
    ∃ name, entry = .ok name ∧ path = Path.join dir name ∧
      answer (.fileType path) = .ok .file := by
  rcases entry with e | name
  · cases h
  · refine ⟨name, rfl, ?_⟩
    rw [regularFile] at h
    split at h
    · rename_i htype
      cases h
      exact ⟨rfl, htype⟩
    · cases h

variable {answer content}

/-- A hull file adds the report that its bytes decide. -/
theorem scrubEntry_still (hl : crate.Lawful) (hstill : Still content answer) (name : Bytes)
    (htype : answer (.fileType (Path.join dir name)) = .ok .file)
    (hmagic : magic.val <+: content (Path.join dir name)) :
    ∃ report, (∀ build out, scrubEntry crate build dir answer out (.ok name)
        = .ok (out ++ [report])) ∧
      Reported crate (Path.join dir name) (content (Path.join dir name)) report := by
  rcases hstill.probed _ htype with ⟨f, hprobe, hs, hpos, hbytes⟩
  rcases hstill.scrubbed _ htype with ⟨file, hopen, hs', _, hbytes'⟩
  rcases scrubFile_reported crate hl (Path.join dir name) file hs' with ⟨report, hrun, hreported⟩
  rw [hbytes'] at hreported
  refine ⟨report, fun build out => ?_, hreported⟩
  refine scrubEntry_hull crate build dir answer out name report htype ?_ ?_
  · rw [hprobe, looksLikeHull_short f hs hpos, hbytes]
    exact hmagic
  · rw [hopen]
    exact hrun build

/-- The rounds of a pass: each hull file adds its report, and nothing else does. -/
theorem scrubEntries_still (hl : crate.Lawful) (hstill : Still content answer)
    (es : List (Except IoError Bytes)) :
    ∃ reports, (∀ build out, es.foldlM (scrubEntry crate build dir answer) out
        = .ok (out ++ reports)) ∧
      List.Forall₂ (fun path report => Reported crate path (content path) report)
        (hullPaths dir answer content es) reports := by
  induction es with
  | nil =>
      refine ⟨[], fun build out => ?_, .nil⟩
      rw [List.foldlM_nil, List.append_nil]
      rfl
  | cons entry es ih =>
      rcases ih with ⟨reports, hrun, hall⟩
      cases hfile : regularFile dir answer entry with
      | none =>
          refine ⟨reports, fun build out => ?_, ?_⟩
          · rw [List.foldlM_cons, scrubEntry_irregular crate dir answer build out entry hfile,
              Outcome.ok_bind, hrun]
          · rw [hullPaths, List.filterMap_cons_none hfile]
            exact hall
      | some path =>
          rcases regularFile_eq_some dir answer entry path hfile with ⟨name, rfl, rfl, htype⟩
          by_cases hmagic : magic.val <+: content (Path.join dir name)
          · rcases scrubEntry_still crate dir hl hstill name htype hmagic with
              ⟨report, hentry, hreported⟩
            refine ⟨report :: reports, fun build out => ?_, ?_⟩
            · rw [List.foldlM_cons, hentry, Outcome.ok_bind, hrun, List.append_assoc,
                List.singleton_append]
            · rw [hullPaths, List.filterMap_cons_some hfile,
                List.filter_cons_of_pos (by simpa using hmagic)]
              exact .cons hreported hall
          · refine ⟨reports, fun build out => ?_, ?_⟩
            · have hforeign : looksLikeHull (answer (.probe (Path.join dir name))) = false := by
                rcases hstill.probed _ htype with ⟨f, hprobe, hs, hpos, hbytes⟩
                rw [hprobe, ← Bool.not_eq_true, looksLikeHull_short f hs hpos, hbytes]
                exact hmagic
              rw [List.foldlM_cons,
                scrubEntry_foreign crate build dir answer out name htype hforeign,
                Outcome.ok_bind, hrun]
            · rw [hullPaths, List.filterMap_cons_some hfile,
                List.filter_cons_of_neg (by simpa using hmagic)]
              exact hall

end

/-- In a directory that nobody writes to, on a disk in order, a pass reports the regular
    files that start with the magic, in the order of the listing and in every build, each
    with the report that its bytes decide. All reports are clean exactly when all of these
    files are. -/
theorem sweep_exact (crate : Crc32cCrate) (hl : crate.Lawful) (dir : Bytes) (answer : Answers)
    (content : Bytes → Bytes) (es : List (Except IoError Bytes))
    (hlist : answer (.readDir dir) = .ok es) (hstill : Still content answer) :
    ∃ reports, (∀ build, scrubDir crate build dir answer = .ok reports) ∧
      List.Forall₂ (fun path report => Reported crate path (content path) report)
        (hullPaths dir answer content es) reports ∧
      (AllClean reports ↔
        ∀ path ∈ hullPaths dir answer content es, FileClean crate (content path)) := by
  rcases scrubEntries_still crate dir hl hstill es with ⟨reports, hrun, hall⟩
  refine ⟨reports, fun build => ?_, hall, allClean_iff hall⟩
  rw [scrubDir_listed crate build dir answer es hlist, hrun, List.nil_append]

/-- The answers of a directory with these regular files, whose reads are never short. -/
def stillAnswers (names : List Bytes) (content : Bytes → Bytes) : Answers
  | .readDir _ => .ok (names.map .ok)
  | .fileType _ => .ok .file
  | .probe path => .ok (Stream.ofBytes (content path))
  | .scrub path => .ok (Stream.ofBytes (content path))

theorem still_stillAnswers (names : List Bytes) (content : Bytes → Bytes) :
    Still content (stillAnswers names content) where
  probed _ _ := ⟨_, rfl, Stream.short_ofBytes _, rfl, rfl⟩
  scrubbed _ _ := ⟨_, rfl, Stream.short_ofBytes _, rfl, rfl⟩

/-- Two names, the first of them of a written saga. -/
def sagaBeside (other : Bytes) (path : Bytes) : Bytes :=
  if path = Path.join [0x2e] [0x78] then sampleSagaFile else other

/-- Of a saga and an empty file, a pass reports the saga. -/
theorem sweep_exact_sample :
    ∃ reports, (∀ build, scrubDir castagnoli build [0x2e]
        (stillAnswers [[0x78], [0x79]] (sagaBeside [])) = .ok reports) ∧
      AllClean reports ∧ reports.map (·.path) = [Path.join [0x2e] [0x78]] := by
  have hpaths : hullPaths [0x2e] (stillAnswers [[0x78], [0x79]] (sagaBeside [])) (sagaBeside [])
      ([[0x78], [0x79]].map .ok) = [Path.join [0x2e] [0x78]] := by
    decide +kernel
  rcases sweep_exact castagnoli castagnoli_lawful [0x2e] _ (sagaBeside []) _ rfl
    (still_stillAnswers [[0x78], [0x79]] (sagaBeside [])) with ⟨reports, hrun, hall, hclean⟩
  rw [hpaths] at hall hclean
  refine ⟨reports, hrun, hclean.mpr fun path hpath => ?_, ?_⟩
  · rw [List.mem_singleton.mp hpath]
    exact fileClean_of_validImage castagnoli sampleSagaFile sampleSagaFile_valid
  · exact paths_of_reported hall

/-! ### Rot in a directory -/

/-- What may have happened to a clean file: its length, its header and its table are as
    they were, and the payload of every section is as it was or visibly damaged. -/
structure Rotted (crate : Crc32cCrate) (before after : Bytes) (header : Header) : Prop where
  parse : Header.parse before = .ok header
  clean : ∀ s ∈ header.sections, s.Clean crate before
  length : after.length = before.length
  front : after.take header.firstPayloadOffset = before.take header.firstPayloadOffset
  rot : ∀ s ∈ header.sections,
    s.payload after = s.payload before ∨ Visible (s.payload before) (s.payload after)

/-- A rotted file still starts with the magic. -/
theorem Rotted.magic {crate : Crc32cCrate} {before after : Bytes} {header : Header}
    (h : Rotted crate before after header) : magic.val <+: after := by
  have hparse := Header.parse_of_take before after header h.parse h.front
  have hmagic := ((Header.parse_ok_iff after).mp ⟨header, hparse⟩).magic
  rw [← hmagic]
  exact List.take_prefix 8 after

/-- The bad sections that reports name, each with its file. -/
def damage (reports : List ScrubReport) : List (Bytes × ScrubFinding) :=
  reports.flatMap fun r => (r.findings.filter fun f => f.outcome != .ok).map fun f => (r.path, f)

theorem damage_cons (report : ScrubReport) (reports : List ScrubReport) :
    damage (report :: reports)
      = ((report.findings.filter fun f => f.outcome != .ok).map fun f => (report.path, f))
        ++ damage reports :=
  List.flatMap_cons

/-- The bad findings of a rotted file are those of the sections that have rotted. -/
theorem Rotted.bad_findings {crate : Crc32cCrate} {before after : Bytes} {header : Header}
    (hs : crate.Standard) (h : Rotted crate before after header) (path : Bytes) :
    (fileReport crate path after header).findings.filter (fun f => f.outcome != .ok)
      = (header.sections.filter fun s => s.payload after ≠ s.payload before).map
        (rotFinding crate before after) := by
  have hfinding := fun s hmem =>
    finding_of_rot crate hs before after h.length s (h.clean s hmem) (h.rot s hmem)
  have hmap : header.sections.map (SectionEntry.finding crate after)
      = header.sections.map (rotFinding crate before after) :=
    List.map_congr_left fun s hmem => (hfinding s hmem).1
  rw [fileReport, hmap, List.filter_map]
  congr 1
  refine List.filter_congr fun s hmem => ?_
  rw [Bool.eq_iff_iff, Function.comp_apply, bne_iff_ne, decide_eq_true_iff,
    ← (hfinding s hmem).1]
  exact not_congr ((outcome_eq_ok_iff crate s after).trans (hfinding s hmem).2)

/-- The reports of rotted files name the sections that have rotted. -/
theorem damage_of_rotted {crate : Crc32cCrate} (hs : crate.Standard)
    {before after : Bytes → Bytes} {header : Bytes → Header} {paths : List Bytes}
    {reports : List ScrubReport}
    (hall : List.Forall₂ (fun path report => Reported crate path (after path) report) paths
      reports)
    (hrot : ∀ path ∈ paths, Rotted crate (before path) (after path) (header path)) :
    damage reports = paths.flatMap fun path =>
      ((header path).sections.filter fun s =>
        s.payload (after path) ≠ s.payload (before path)).map
          fun s => (path, rotFinding crate (before path) (after path) s) := by
  induction hall with
  | nil => rfl
  | @cons path report paths reports hreported _ ih =>
      have hfile := hrot path List.mem_cons_self
      have hparse := Header.parse_of_take _ _ _ hfile.parse hfile.front
      have hreport := hreported.eq_fileReport _ hparse
      rw [damage_cons, List.flatMap_cons, ih fun p hp => hrot p (List.mem_cons_of_mem path hp),
        hreport, hfile.bad_findings hs path, List.map_map]
      rfl

/-- In a directory whose hull files were clean and have rotted, a pass reports the same
    files as before, and the damage that its reports name is what has rotted: every
    damaged section of every file, in order, as a checksum mismatch, and no other. -/
theorem sweep_localises (crate : Crc32cCrate) (hl : crate.Lawful) (hs : crate.Standard)
    (dir : Bytes) (answer : Answers) (es : List (Except IoError Bytes))
    (before after : Bytes → Bytes) (header : Bytes → Header)
    (hlist : answer (.readDir dir) = .ok es) (hstill : Still after answer)
    (hrot : ∀ path ∈ hullPaths dir answer before es,
      Rotted crate (before path) (after path) (header path))
    (hforeign : ∀ path ∈ es.filterMap (regularFile dir answer),
      ¬ magic.val <+: before path → after path = before path) :
    ∃ reports, (∀ build, scrubDir crate build dir answer = .ok reports) ∧
      reports.map (·.path) = hullPaths dir answer before es ∧
      damage reports = (hullPaths dir answer before es).flatMap fun path =>
        ((header path).sections.filter fun s =>
          s.payload (after path) ≠ s.payload (before path)).map
            fun s => (path, rotFinding crate (before path) (after path) s) := by
  -- The pass finds the same files: those that had the magic have kept it.
  have hpaths : hullPaths dir answer after es = hullPaths dir answer before es := by
    refine List.filter_congr fun path hmem => ?_
    by_cases hmagic : magic.val <+: before path
    · have hfile := hrot path (List.mem_filter.mpr ⟨hmem, by simpa using hmagic⟩)
      simp only [hmagic, hfile.magic]
    · rw [hforeign path hmem hmagic]
  rcases scrubEntries_still crate dir hl hstill es with ⟨reports, hrun, hall⟩
  rw [hpaths] at hall
  refine ⟨reports, fun build => ?_, ?_, damage_of_rotted hs hall hrot⟩
  · rw [scrubDir_listed crate build dir answer es hlist, hrun, List.nil_append]
  · exact paths_of_reported hall

/-- What becomes of a written saga when nothing has happened to it, or a bit of its first
    payload has rotted. -/
theorem rotted_sampleSaga (after : Bytes)
    (h : after = sampleSagaFile ∨ after = flipBit sampleSagaFile 1200) :
    Rotted castagnoli sampleSagaFile after
      (sampleSaga.container.header castagnoli sagaSectionIds) := by
  rcases body_clean castagnoli sagaSectionIds sampleSaga.container
    (toLe (castagnoli.crc32c (sampleSaga.container.body castagnoli sagaSectionIds)))
    sampleSaga_fits with ⟨hparse, hclean⟩
  rcases h with rfl | rfl
  · exact ⟨hparse, hclean, rfl, rfl, fun _ _ => Or.inl rfl⟩
  · have hdecided : ∀ s ∈ (sampleSaga.container.header castagnoli sagaSectionIds).sections,
        s.payload (flipBit sampleSagaFile 1200) = s.payload sampleSagaFile ∨
        Odd (bitDistance (s.payload sampleSagaFile) (s.payload (flipBit sampleSagaFile 1200))) := by
      set_option maxRecDepth 4000 in decide +kernel
    exact ⟨hparse, hclean, length_flipBit _ _, by set_option maxRecDepth 4000 in decide +kernel,
      fun s hmem => (hdecided s hmem).imp id .odd⟩

/-- A bit of the first payload of a saga has rotted, and nothing of the saga beside it. -/
theorem sweep_localises_sample :
    ∃ reports, (∀ build, scrubDir castagnoli build [0x2e]
        (stillAnswers [[0x79], [0x78]] (sagaBeside (flipBit sampleSagaFile 1200)))
          = .ok reports) ∧
      (damage reports).map (fun d => (d.1, d.2.typeId)) = [(Path.join [0x2e] [0x79], 1)] := by
  have hafter : ∀ path, sagaBeside (flipBit sampleSagaFile 1200) path = sampleSagaFile ∨
      sagaBeside (flipBit sampleSagaFile 1200) path = flipBit sampleSagaFile 1200 := by
    intro path
    unfold sagaBeside
    split
    · exact Or.inl rfl
    · exact Or.inr rfl
  have hmagic : magic.val <+: sampleSagaFile :=
    Container.magic_prefix_image castagnoli sagaSectionIds sampleSaga.container
  rcases sweep_localises castagnoli castagnoli_lawful (fun _ => rfl) [0x2e] _ _
    (fun _ => sampleSagaFile) (sagaBeside (flipBit sampleSagaFile 1200))
    (fun _ => sampleSaga.container.header castagnoli sagaSectionIds) rfl
    (still_stillAnswers [[0x79], [0x78]] (sagaBeside (flipBit sampleSagaFile 1200)))
    (fun path _ => rotted_sampleSaga _ (hafter path))
    (fun _ _ hforeign => absurd hmagic hforeign) with ⟨reports, hrun, _, hdamage⟩
  refine ⟨reports, hrun, ?_⟩
  rw [hdamage]
  set_option maxRecDepth 4000 in decide +kernel

end SkegHull
