import SkegHull.Scrub.Agreement

/-!
# One Section, One Verdict

The read loop of a section takes its bytes in whatever pieces the reads return,
and stops early when a read returns nothing or fails. `SectionEntry.verdict` is
what it should say, computed from the whole file at once, with no loop and no
schedule.

What the loop returns for every schedule is known (`crcLoop_run`): the failure it
meets first, if it meets one, and what the bytes say otherwise. Here this is carried
over to the finding of a section, in which the bytes are those of the whole file.

If no read fails, the verdict is the outcome, in any build, so no subtraction
underflows: `verifySection_exact`. An interruption is a failure like any other to
this loop, which does not retry it as the loops of the standard library do. The
outcome then depends on the schedule, unless the loop is over before it gets
there: `verifySection_interrupted_iff`.

## Main definitions

* `SectionEntry.verdict`: The outcome the bytes of the file decide.
* `sectionFinding`: The finding of a section, without the reader.
* `LoopUndisturbed`: The read loop ends before the first interruption.

## Theorems

* `verifySection_run`: What verifying a section returns.
* `verifySection_exact`: The outcome when no read fails.
* `verifySection_interrupted_iff`: When interruptions do not change the finding.
-/

namespace SkegHull

open Lib

/-- The range of the entry is not empty and runs over the end of the file. -/
def SectionEntry.Missing (sec : SectionEntry) (all : Bytes) : Prop :=
  0 < sec.length.toNat ∧ all.length < sec.stop

instance (sec : SectionEntry) (all : Bytes) : Decidable (sec.Missing all) :=
  inferInstanceAs (Decidable (_ ∧ _))

/-- The size of the buffer a section is read with. -/
def SectionEntry.bufLen (sec : SectionEntry) : Nat :=
  min scrubChunkBytes (max sec.length.toNat 1)

/-- How many bytes of the file there are from the start of the section on. -/
def SectionEntry.left (sec : SectionEntry) (all : Bytes) : Nat :=
  all.length - sec.offset.toNat

/-- The outcome that the bytes of the file decide. -/
def SectionEntry.verdict (crate : Crc32cCrate) (sec : SectionEntry) (all : Bytes) :
    ScrubOutcome :=
  if sec.Missing all then
    .readError s!"unexpected EOF: {sec.length.toNat - sec.left all} of {sec.length} bytes missing"
  else if crate.crc32c (sec.payload all) = sec.checksum then .ok
  else .checksumMismatch sec.checksum (crate.crc32c (sec.payload all))

section Run

variable (crate : Crc32cCrate)

/-- The outcome after the failure the loop met, if it met one. -/
def outcomeOr (verdict : ScrubOutcome) : Option IoError → ScrubOutcome
  | none => verdict
  | some e => .readError s!"read: {e.text}"

/-- Verifying a section that can be sought returns its verdict, or the first failure of
    the read loop, in every build. -/
theorem verifySection_run (hl : crate.Lawful) (reader : Stream) (sec : SectionEntry)
    (hoff : sec.offset.toNat < 2 ^ 63) :
    ∃ reader', reader'.bytes = reader.bytes ∧ ∀ build,
      verifySection crate build reader sec =
        .ok ({ okFinding sec with
          outcome := outcomeOr (sec.verdict crate reader.bytes) (firstFailure sec.bufLen
            reader.events sec.length.toNat (sec.left reader.bytes)) }, reader') := by
  rcases crcLoop_run crate hl sec.length sec.bufLen
    (by unfold SectionEntry.bufLen scrubChunkBytes; omega) sec.length.toNat
    { reader with pos := sec.offset.toNat } Crc32cBuilder.new []
    (Crc32cBuilder.fed_new crate hl) with ⟨reader', hbytes, _, hrun⟩
  refine ⟨reader', hbytes, fun build => ?_⟩
  have hleft : ({ reader with pos := sec.offset.toNat } : Stream).rest.length
      = sec.left reader.bytes := List.length_drop
  -- The loop counts from the seek position, the entry from the start of the file.
  have hroom : sec.length.toNat ≤ sec.left reader.bytes ↔ ¬ sec.Missing reader.bytes := by
    unfold SectionEntry.left SectionEntry.Missing SectionEntry.stop
    omega
  unfold verifySection Stream.seek
  rw [if_pos hoff]
  dsimp only
  rw [← SectionEntry.bufLen, hrun, Outcome.ok_bind, hleft]
  cases firstFailure sec.bufLen reader.events sec.length.toNat (sec.left reader.bytes) with
  | some e => rfl
  | none =>
      rw [failedOr, outcomeOr, rangeResult, SectionEntry.verdict, hleft,
        take_rest_sought]
      by_cases hmissing : sec.Missing reader.bytes
      · rw [if_neg (mt hroom.mp (not_not.mpr hmissing)), if_pos hmissing]
      · rw [if_pos (hroom.mpr hmissing), if_neg hmissing, List.nil_append]
        have hgot : (Crc32cBuilder.mk (crate.crc32c (sec.payload reader.bytes))).finalize
            = crate.crc32c (sec.payload reader.bytes) := rfl
        dsimp only
        rw [hgot]
        by_cases hcrc : crate.crc32c (sec.payload reader.bytes) = sec.checksum
        · rw [if_neg (not_not.mpr hcrc), if_pos hcrc]
          rfl
        · rw [if_pos hcrc, if_neg hcrc]

/-- Two reasons the loop never confuses: a failure, and the end of the file. -/
theorem verdict_ne_read (sec : SectionEntry) (all : Bytes) (text : String) :
    sec.verdict crate all ≠ .readError s!"read: {text}" := by
  unfold SectionEntry.verdict
  split_ifs
  · intro h
    -- The two texts differ in their first letter.
    have hfirst := congrArg (fun reason => reason.toList.head?) (ScrubOutcome.readError.inj h)
    simp only [String.toList_append, List.head?_append, toString] at hfirst
    cases hfirst
  · simp only [ne_eq, reduceCtorEq, not_false_eq_true]
  · simp only [ne_eq, reduceCtorEq, not_false_eq_true]

/-- When no read fails, verifying a section returns the same in every build: the debug
    build, which checks every subtraction, returns too. It is a read error when bytes of
    the range are missing, and otherwise the range decides by its checksum. -/
theorem verifySection_exact (hl : crate.Lawful) (reader : Stream) (hs : reader.Short)
    (sec : SectionEntry) (hoff : sec.offset.toNat < 2 ^ 63) :
    ∃ finding reader',
      (∀ build, verifySection crate build reader sec = .ok (finding, reader')) ∧
      finding = { okFinding sec with outcome := finding.outcome } ∧
      ((∃ reason, finding.outcome = .readError reason) ↔ 0 < sec.length.toNat ∧
        reader.bytes.length < sec.offset.toNat + sec.length.toNat) ∧
      (¬ (0 < sec.length.toNat ∧ reader.bytes.length < sec.offset.toNat + sec.length.toNat) →
        finding.outcome =
          if crate.crc32c (cut reader.bytes sec.offset.toNat
            (sec.offset.toNat + sec.length.toNat)) = sec.checksum then .ok
          else .checksumMismatch sec.checksum (crate.crc32c (cut reader.bytes sec.offset.toNat
            (sec.offset.toNat + sec.length.toNat)))) := by
  rcases verifySection_run crate hl reader sec hoff with ⟨reader', _, hrun⟩
  rw [firstFailure_of_short _ _ _ _ ((Stream.short_iff reader).mp hs), outcomeOr] at hrun
  refine ⟨_, reader', hrun, rfl, ?_, fun hthere => ?_⟩
  · dsimp only
    unfold SectionEntry.verdict
    by_cases hmissing : sec.Missing reader.bytes
    · rw [if_pos hmissing]
      exact ⟨fun _ => hmissing, fun _ => ⟨_, rfl⟩⟩
    · rw [if_neg hmissing]
      refine ⟨?_, fun h => absurd h hmissing⟩
      rintro ⟨reason, hreason⟩
      split_ifs at hreason
  · exact if_neg hthere

/-- A file of three bytes, read one byte at a time, against a wrong checksum. -/
theorem verifySection_exact_sample :
    ∃ finding reader',
      (∀ build, verifySection castagnoli build ⟨[1, 2, 3], 0, [.short 1]⟩ ⟨7, 0, 1, 2, 5⟩
        = .ok (finding, reader')) ∧
      finding.outcome = .checksumMismatch 5 (castagnoli.crc32c [2, 3]) := by
  rcases verifySection_exact castagnoli castagnoli_lawful ⟨[1, 2, 3], 0, [.short 1]⟩
    (fun e he => ⟨1, List.mem_singleton.mp he⟩) ⟨7, 0, 1, 2, 5⟩ (by decide) with
    ⟨finding, reader', hrun, _, _, houtcome⟩
  refine ⟨finding, reader', hrun, (houtcome (by decide)).trans (if_neg ?_)⟩
  decide +kernel

/-! ### Interruptions -/

/-- The finding of a section, without the reader it leaves behind. -/
def sectionFinding (build : Build) (reader : Stream) (sec : SectionEntry) :
    Outcome Empty ScrubFinding := do
  let (finding, _) ← verifySection crate build reader sec
  .ok finding

/-- No interruption is reached: the seek fails, there is nothing to read, there is no
    interruption, or the reads in front of the first one bring the read loop to its
    end. -/
def LoopUndisturbed (sec : SectionEntry) (reader : Stream) : Prop :=
  2 ^ 63 ≤ sec.offset.toNat ∨ sec.length.toNat = 0 ∨ (∀ e ∈ reader.events, e.isShort = true) ∨
    Through sec.bufLen sec.length.toNat (sec.left reader.bytes) reader.events

instance (sec : SectionEntry) (reader : Stream) : Decidable (LoopUndisturbed sec reader) :=
  inferInstanceAs (Decidable (_ ∨ _ ∨ _ ∨ _))

/-- A section that cannot be sought is not read, so no reader makes a difference. -/
theorem sectionFinding_seek (build : Build) (reader reader' : Stream) (sec : SectionEntry)
    (hoff : ¬ sec.offset.toNat < 2 ^ 63) :
    sectionFinding crate build reader sec = sectionFinding crate build reader' sec := by
  unfold sectionFinding verifySection Stream.seek
  rw [if_neg hoff, if_neg hoff]
  rfl

theorem sectionFinding_eq (hl : crate.Lawful) (build : Build) (reader : Stream)
    (sec : SectionEntry) (hoff : sec.offset.toNat < 2 ^ 63) :
    sectionFinding crate build reader sec = .ok { okFinding sec with
      outcome := outcomeOr (sec.verdict crate reader.bytes) (firstFailure sec.bufLen
        reader.events sec.length.toNat (sec.left reader.bytes)) } := by
  rcases verifySection_run crate hl reader sec hoff with ⟨reader', _, hrun⟩
  unfold sectionFinding
  rw [hrun, Outcome.ok_bind]

/-- On a stream whose reads are short or interrupted, a section has the same finding as
    without the interruptions exactly when none of them is reached. -/
theorem verifySection_interrupted_iff (hl : crate.Lawful) (build : Build) (reader : Stream)
    (hb : reader.Benign) (sec : SectionEntry) :
    sectionFinding crate build reader sec = sectionFinding crate build reader.uninterrupted sec ↔
      LoopUndisturbed sec reader := by
  by_cases hoff : sec.offset.toNat < 2 ^ 63
  · -- Without the interruptions the finding is the verdict.
    rw [sectionFinding_eq crate hl build reader sec hoff,
      sectionFinding_eq crate hl build reader.uninterrupted sec hoff,
      firstFailure_of_short _ reader.uninterrupted.events _ _
        ((Stream.short_iff _).mp (reader.short_uninterrupted hb))]
    rw [Stream.bytes_uninterrupted, Outcome.ok.injEq, ScrubFinding.mk.injEq]
    have hnone : firstFailure sec.bufLen reader.events sec.length.toNat
        (sec.left reader.bytes) = none ↔ LoopUndisturbed sec reader := by
      unfold LoopUndisturbed
      by_cases hlen : sec.length.toNat = 0
      · rw [hlen, firstFailure_zero]
        simp only [true_or, or_true]
      · rw [firstFailure_eq_none_iff _ (by unfold SectionEntry.bufLen scrubChunkBytes; omega)
          _ _ _ hlen]
        simp only [hlen, Nat.not_le_of_lt hoff, false_or]
    rw [← hnone]
    cases firstFailure sec.bufLen reader.events sec.length.toNat (sec.left reader.bytes) with
    | none => simp only [and_self]
    | some e =>
        simp only [true_and, reduceCtorEq, iff_false]
        exact fun h => verdict_ne_read crate sec reader.bytes e.text h.symm
  · exact ⟨fun _ => Or.inl (Nat.le_of_not_lt hoff),
      fun _ => sectionFinding_seek crate build _ _ sec hoff⟩

/-- What a read says that a signal has interrupted. -/
def interrupted : IoError := ⟨.interrupted, "Interrupted system call (os error 4)"⟩

/-- Two bytes are read, and then the loop is over. -/
theorem verifySection_interrupted_iff_sample :
    sectionFinding castagnoli .release ⟨[1, 2, 3], 0, [.short 2, .fail interrupted]⟩
        ⟨7, 0, 1, 2, 5⟩ =
      sectionFinding castagnoli .release
        (Stream.uninterrupted ⟨[1, 2, 3], 0, [.short 2, .fail interrupted]⟩) ⟨7, 0, 1, 2, 5⟩ := by
  refine (verifySection_interrupted_iff castagnoli castagnoli_lawful .release _ ?_ _).mpr
    (by decide)
  intro e he
  simp only [List.mem_cons, List.not_mem_nil, or_false] at he
  rcases he with rfl | rfl
  · exact trivial
  · rfl

/-- A clean section has a good verdict. -/
theorem verdict_of_clean (sec : SectionEntry) (all : Bytes) (h : sec.Clean crate all) :
    sec.verdict crate all = .ok := by
  have hinside := h.inside
  have hthere : ¬ sec.Missing all := by
    unfold SectionEntry.Missing
    omega
  unfold SectionEntry.verdict
  rw [if_neg hthere, if_pos h.checksum]

/-- The first section of the sample file, when its first read is interrupted: the file is in
    order, and the finding says that it cannot be read. -/
theorem interrupted_reads_as_damage :
    ∃ sec, (sampleSaga.container.header castagnoli sagaSectionIds).sections.head? = some sec ∧
      sectionFinding castagnoli .release ⟨sampleSagaFile, 0, [.fail interrupted]⟩ sec =
        .ok { okFinding sec with
          outcome := .readError "read: Interrupted system call (os error 4)" } ∧
      sectionFinding castagnoli .release
        (Stream.uninterrupted ⟨sampleSagaFile, 0, [.fail interrupted]⟩) sec =
        .ok (okFinding sec) := by
  have hclean : (sampleSaga.container.firstEntry castagnoli sagaSectionIds).Clean castagnoli
      sampleSagaFile :=
    (body_clean castagnoli sagaSectionIds sampleSaga.container _ sampleSaga_fits).2 _
      List.mem_cons_self
  have hverdict := verdict_of_clean castagnoli _ _ hclean
  refine ⟨sampleSaga.container.firstEntry castagnoli sagaSectionIds, rfl, ?_, ?_⟩
  · rw [sectionFinding_eq castagnoli castagnoli_lawful _ _ _ hclean.seekable, firstFailure,
      if_neg (by decide)]
    rfl
  · rw [sectionFinding_eq castagnoli castagnoli_lawful _ _ _ hclean.seekable,
      Stream.bytes_uninterrupted, hverdict]
    rfl

end Run

end SkegHull
