import SkegHull.Lib.Run
import SkegHull.Scrub.Agreement
import SkegHull.Scrub.Dir

/-!
# The Scrub Loop

The loop makes one pass after another, reports what each of them found, and
sleeps in between, in slices. It looks at its stop flag in three places: before
a pass, after every report, and before every slice. A pass in between is one
call, which does not look at the flag at all.

`LoopPc` is the loop as a state machine with one event for each state, and
`scrubLoop` its run when the flag is set at some moment and stays set. From that
moment on no new pass begins, so the run is the rest of what was under way. It
makes at most one more report, but it scrubs every hull file that the pass has
still before it: the loop stops at the next file boundary exactly when that is
at most one (`scrubLoop_stops_iff`). The run ends with the return of the loop, or
with the panic of its sleep counter, if that no longer fits a duration.

## Main definitions

* `LoopPc`, `LoopPc.step`: The loop, one event at a time.
* `Loop`, `scrubLoop`: A run whose flag is set at a moment.
* `LoopPc.hullLeft`: The hull files of the pass under way.
* `StopsAtBoundary`: At most one more scrub, and at most one more report.

## Theorems

* `hullLeft_step`, `reportsLeft_step`, `stepsLeft_step`: One event after the flag
  was set.
* `count_scrubs`, `count_reports`, `returns`: All of them.
* `scrubLoop_stops_iff`: When the loop stops at the next file boundary.
-/

namespace SkegHull

open Lib

/-- The length of a sleep slice, in nanoseconds. -/
def sliceNanos : Nat := 100000000

/-- The longest duration there is, in nanoseconds. -/
def durationMax : Nat := (2 ^ 64 - 1) * 1000000000 + 999999999

/-- Where the loop stands, in front of an event. -/
inductive LoopPc where
  | head
  | pass (pc : DirPc)
  | report (r : ScrubReport) (rest : List ScrubReport)
  | check (rest : List ScrubReport)
  | slice (slept : Nat)
  | sleep (slept nap : Nat)
  | returned
  | panicked (cause : Panic)

namespace LoopPc

/-- The head of the sleep loop. -/
def wait (interval slept : Nat) : LoopPc := if slept < interval then .slice slept else .head

/-- The head of the loop over the reports. -/
def reports (interval : Nat) : List ScrubReport → LoopPc
  | [] => wait interval 0
  | r :: rest => .report r rest

/-- One event of the loop: a look at the flag, a question of the pass, a report, or a
    sleep. -/
def step (crate : Crc32cCrate) (build : Build) (dir : Bytes) (interval : Nat) (stop : Bool)
    (answer : Answers) : LoopPc → LoopPc
  | .head => if stop then .returned else .pass .list
  | .pass pc =>
      match pc.next crate build dir answer with
      | .done (.ok out) => reports interval out
      | .done (.err e) => nomatch e
      | .done (.panic p) => .panicked p
      | pc' => .pass pc'
  | .report _ rest => .check rest
  | .check rest => if stop then .returned else reports interval rest
  | .slice slept =>
      if stop then .returned else .sleep slept (min sliceNanos (interval - slept))
  -- Adding up durations panics when the sum is too long for one.
  | .sleep slept _ =>
      if slept + sliceNanos ≤ durationMax then wait interval (slept + sliceNanos)
      else .panicked .overflow
  | .returned => .returned
  | .panicked p => .panicked p

/-- The loop is over: it has returned, or it has panicked, as it does when a sum of durations
    is too long for one. -/
def ended : LoopPc → Bool
  | .returned => true
  | .panicked _ => true
  | _ => false

/-- The loop is in front of a scrub. -/
def scrubs : LoopPc → Bool
  | .pass pc => pc.scrubs
  | _ => false

/-- The loop is in front of a report. -/
def isReport : LoopPc → Bool
  | .report _ _ => true
  | _ => false

/-- How many hull files the pass under way has still to scrub. -/
def hullLeft (dir : Bytes) (answer : Answers) : LoopPc → Nat
  | .pass pc => pc.hullLeft dir answer
  | _ => 0

end LoopPc

/-- The loop, and how many passes it has begun. -/
structure Loop where
  passes : Nat
  pc : LoopPc

section

variable (crate : Crc32cCrate) (build : Build) (dir : Bytes) (interval : Nat)

/-- The loop in front of an event, when the flag is set in front of event `m` and stays
    set. The answers to a pass are those of its number. -/
def scrubLoop (answers : Nat → Answers) (m : Nat) : Nat → Loop
  | 0 => ⟨0, .head⟩
  | n + 1 =>
      let l := scrubLoop answers m n
      let passes :=
        match l.pc with
        | .head => l.passes + 1
        | _ => l.passes
      ⟨passes, l.pc.step crate build dir interval (m ≤ n) (answers l.passes)⟩

/-- From the moment the flag is set until the loop is over, which it will be, at most one
    file is scrubbed, and at most one report is made. The loop may be over by the panic of a
    sum of durations, when it was asleep at that moment. -/
structure StopsAtBoundary (answers : Nat → Answers) (m : Nat) : Prop where
  scrubs : ∀ n, Nat.count
    (fun j => (scrubLoop crate build dir interval answers m (m + j)).pc.scrubs = true) n ≤ 1
  reports : ∀ n, Nat.count
    (fun j => (scrubLoop crate build dir interval answers m (m + j)).pc.isReport = true) n ≤ 1
  returns : ∃ n, (scrubLoop crate build dir interval answers m (m + n)).pc.ended = true

end

/-! ### One event -/

namespace LoopPc

/-- How many reports the loop has still to make, at most. -/
def reportsLeft : LoopPc → Nat
  | .pass _ => 1
  | .report _ _ => 1
  | _ => 0

/-- How many events the loop has still before it, at most. -/
def stepsLeft (dir : Bytes) (answer : Answers) : LoopPc → Nat
  | .pass pc => pc.stepsLeft dir answer + 3
  | .report _ _ => 2
  | .sleep _ _ => 2
  | .head => 1
  | .check _ => 1
  | .slice _ => 1
  | _ => 0

section

variable (crate : Crc32cCrate) (build : Build) (dir : Bytes) (interval : Nat) (answer : Answers)

theorem wait_cases (slept : Nat) :
    wait interval slept = .head ∨ wait interval slept = .slice slept := by
  unfold wait
  split
  · exact Or.inr rfl
  · exact Or.inl rfl

theorem reports_cases (rs : List ScrubReport) :
    reports interval rs = .head ∨ reports interval rs = .slice 0 ∨
      ∃ r rest, reports interval rs = .report r rest := by
  cases rs with
  | nil =>
      rcases wait_cases interval 0 with h | h
      · exact Or.inl h
      · exact Or.inr (Or.inl h)
  | cons r rest => exact Or.inr (Or.inr ⟨r, rest, rfl⟩)

/-- What a question does to the loop: the pass goes on, or it is over. -/
theorem step_pass (stop : Bool) (pc : DirPc) :
    ((∀ result, pc.next crate build dir answer ≠ .done result) ∧
      step crate build dir interval stop answer (.pass pc)
        = .pass (pc.next crate build dir answer)) ∨
    ∃ result, pc.next crate build dir answer = .done result ∧
      ((∃ out, step crate build dir interval stop answer (.pass pc) = reports interval out) ∨
        ∃ p, step crate build dir interval stop answer (.pass pc) = .panicked p) := by
  simp only [step]
  cases pc.next crate build dir answer with
  | done result =>
      refine Or.inr ⟨result, rfl, ?_⟩
      cases result with
      | ok out => exact Or.inl ⟨out, rfl⟩
      | err e => exact e.elim
      | panic p => exact Or.inr ⟨p, rfl⟩
  | _ =>
      refine Or.inl ⟨fun result h => ?_, rfl⟩
      cases h

theorem hullLeft_reports (rs : List ScrubReport) :
    (reports interval rs).hullLeft dir answer = 0 := by
  rcases reports_cases interval rs with h | h | ⟨r, rest, h⟩
  · rw [h]; rfl
  · rw [h]; rfl
  · rw [h]; rfl

theorem reportsLeft_le (pc : LoopPc) : pc.reportsLeft ≤ 1 := by
  cases pc with
  | pass pc => exact Nat.le_refl 1
  | report r rest => exact Nat.le_refl 1
  | _ => exact Nat.zero_le 1

theorem hullLeft_of_ended (pc : LoopPc) (h : pc.ended = true) : pc.hullLeft dir answer = 0 := by
  cases pc with
  | pass pc => cases h
  | _ => rfl

theorem reportsLeft_reports (rs : List ScrubReport) : (reports interval rs).reportsLeft ≤ 1 := by
  rcases reports_cases interval rs with h | h | ⟨r, rest, h⟩
  · rw [h]; exact Nat.zero_le 1
  · rw [h]; exact Nat.zero_le 1
  · rw [h]; exact Nat.le_refl 1

theorem stepsLeft_reports (rs : List ScrubReport) :
    (reports interval rs).stepsLeft dir answer ≤ 2 := by
  rcases reports_cases interval rs with h | h | ⟨r, rest, h⟩
  · rw [h]; exact Nat.le_succ 1
  · rw [h]; exact Nat.le_succ 1
  · rw [h]; exact Nat.le_refl 2

/-- A sleep leads to the next slice or to the next pass, unless the time is too long. -/
theorem step_sleep (stop : Bool) (slept nap : Nat) :
    step crate build dir interval stop answer (.sleep slept nap) = .head ∨
    step crate build dir interval stop answer (.sleep slept nap) = .slice (slept + sliceNanos) ∨
    step crate build dir interval stop answer (.sleep slept nap) = .panicked .overflow := by
  by_cases hfits : slept + sliceNanos ≤ durationMax
  · rw [step, if_pos hfits]
    rcases wait_cases interval (slept + sliceNanos) with h | h
    · exact Or.inl h
    · exact Or.inr (Or.inl h)
  · rw [step, if_neg hfits]
    exact Or.inr (Or.inr rfl)

/-- Every scrub takes one of the hull files that the pass has before it. -/
theorem hullLeft_step (hl : crate.Lawful) (pc : LoopPc) :
    (pc.step crate build dir interval true answer).hullLeft dir answer + pc.scrubs.toNat
      = pc.hullLeft dir answer := by
  cases pc with
  | pass pc =>
      have hnext := DirPc.hullLeft_next crate build dir answer hl pc
      rcases step_pass crate build dir interval answer true pc with
        ⟨hgoes, h⟩ | ⟨result, hdone, ⟨out, h⟩ | ⟨p, h⟩⟩
      · rw [h]
        exact hnext
      -- A pass that is over has nothing before it, and neither has the loop behind it.
      · rw [h, hullLeft_reports]
        rw [hdone] at hnext
        exact hnext
      · rw [h]
        rw [hdone] at hnext
        exact hnext
  | sleep slept nap =>
      rcases step_sleep crate build dir interval answer true slept nap with h | h | h
      · rw [h]; rfl
      · rw [h]; rfl
      · rw [h]; rfl
  | _ => rfl

/-- The loop makes no second report without looking at the flag. -/
theorem reportsLeft_step (pc : LoopPc) :
    (pc.step crate build dir interval true answer).reportsLeft + pc.isReport.toNat
      ≤ pc.reportsLeft := by
  cases pc with
  | pass pc =>
      rcases step_pass crate build dir interval answer true pc with
        ⟨hgoes, h⟩ | ⟨result, hdone, ⟨out, h⟩ | ⟨p, h⟩⟩
      · rw [h]
        exact Nat.le_refl 1
      · rw [h]
        exact reportsLeft_reports interval out
      · rw [h]
        exact Nat.zero_le 1
  | sleep slept nap =>
      rcases step_sleep crate build dir interval answer true slept nap with h | h | h
      · rw [h]; exact Nat.le_refl 0
      · rw [h]; exact Nat.le_refl 0
      · rw [h]; exact Nat.le_refl 0
  | report r rest => exact Nat.le_refl 1
  | _ => exact Nat.le_refl 0

/-- Every event brings the loop closer to its end. -/
theorem stepsLeft_step (pc : LoopPc) : pc.ended = true ∨
    (pc.step crate build dir interval true answer).stepsLeft dir answer
      < pc.stepsLeft dir answer := by
  cases pc with
  | returned => exact Or.inl rfl
  | panicked p => exact Or.inl rfl
  | pass pc =>
      refine Or.inr ?_
      rcases step_pass crate build dir interval answer true pc with
        ⟨hgoes, h⟩ | ⟨result, hdone, ⟨out, h⟩ | ⟨p, h⟩⟩
      · rw [h]
        rcases DirPc.stepsLeft_next crate build dir answer pc with ⟨result, rfl⟩ | hlt
        · exact absurd rfl (hgoes result)
        · exact Nat.add_lt_add_right hlt 3
      · rw [h]
        have hreports := stepsLeft_reports dir interval answer out
        rw [stepsLeft]
        omega
      · rw [h]
        exact Nat.succ_pos _
  | sleep slept nap =>
      refine Or.inr ?_
      rcases step_sleep crate build dir interval answer true slept nap with h | h | h
      · rw [h]; exact Nat.lt_succ_self 1
      · rw [h]; exact Nat.lt_succ_self 1
      · rw [h]; exact Nat.succ_pos 1
  | report r rest => exact Or.inr (Nat.lt_succ_self 1)
  | head => exact Or.inr Nat.one_pos
  | check rest => exact Or.inr Nat.one_pos
  | slice slept => exact Or.inr Nat.one_pos

end

end LoopPc

/-! ### The rest of a run -/

section

variable (crate : Crc32cCrate) (build : Build) (dir : Bytes) (interval : Nat)
  (answers : Nat → Answers) (m : Nat)

/-- One event after the flag was set. -/
theorem pc_scrubLoop_succ (n : Nat) :
    (scrubLoop crate build dir interval answers m (m + (n + 1))).pc
      = (scrubLoop crate build dir interval answers m (m + n)).pc.step crate build dir interval
          true (answers (scrubLoop crate build dir interval answers m (m + n)).passes) := by
  have hstop : decide (m ≤ m + n) = true := decide_eq_true (Nat.le_add_right m n)
  rw [← Nat.add_assoc, scrubLoop, hstop]

/-- No new pass begins: the pass has the answers it had, or it is over. -/
theorem passes_scrubLoop (n : Nat) :
    (scrubLoop crate build dir interval answers m (m + n)).passes
        = (scrubLoop crate build dir interval answers m m).passes ∨
      (scrubLoop crate build dir interval answers m (m + n)).pc.ended = true := by
  induction n with
  | zero => exact Or.inl rfl
  | succ n ih =>
      rw [pc_scrubLoop_succ, ← Nat.add_assoc]
      rcases ih with hsame | hended
      · rw [← hsame, scrubLoop]
        generalize scrubLoop crate build dir interval answers m (m + n) = l
        rcases l with ⟨passes, pc⟩
        cases pc with
        | head => exact Or.inr rfl
        | _ => exact Or.inl rfl
      · refine Or.inr ?_
        generalize scrubLoop crate build dir interval answers m (m + n) = l at hended
        rcases l with ⟨passes, pc⟩
        cases pc with
        | returned => rfl
        | panicked p => rfl
        | _ => cases hended

/-- So the rest of the run has the answers of one pass. -/
theorem pc_scrubLoop_rest (n : Nat) :
    (scrubLoop crate build dir interval answers m (m + (n + 1))).pc
      = (scrubLoop crate build dir interval answers m (m + n)).pc.step crate build dir interval
          true (answers (scrubLoop crate build dir interval answers m m).passes) := by
  rw [pc_scrubLoop_succ]
  rcases passes_scrubLoop crate build dir interval answers m n with hsame | hended
  · rw [hsame]
  · -- A loop that is over asks no question.
    generalize scrubLoop crate build dir interval answers m (m + n) = l at hended
    rcases l with ⟨passes, pc⟩
    cases pc with
    | returned => rfl
    | panicked p => rfl
    | _ => cases hended

theorem returns : ∃ n, (scrubLoop crate build dir interval answers m (m + n)).pc.ended = true := by
  refine exists_of_decreasing _ (fun n => (scrubLoop crate build dir interval answers m
    (m + n)).pc.stepsLeft dir (answers (scrubLoop crate build dir interval answers m m).passes))
    fun n => ?_
  rw [pc_scrubLoop_rest]
  exact LoopPc.stepsLeft_step crate build dir interval _ _

theorem count_reports (n : Nat) : Nat.count
    (fun j => (scrubLoop crate build dir interval answers m (m + j)).pc.isReport = true) n ≤ 1 := by
  have hcount := count_add_potential_le
    (fun j => (scrubLoop crate build dir interval answers m (m + j)).pc.isReport)
    (fun j => (scrubLoop crate build dir interval answers m (m + j)).pc.reportsLeft) ?_ n
  · have hbound := LoopPc.reportsLeft_le (scrubLoop crate build dir interval answers m (m + 0)).pc
    omega
  · intro j
    rw [pc_scrubLoop_rest]
    have hstep := LoopPc.reportsLeft_step crate build dir interval
      (answers (scrubLoop crate build dir interval answers m m).passes)
      (scrubLoop crate build dir interval answers m (m + j)).pc
    exact hstep

/-- From the moment the flag is set, what is left of the hull files of the pass under way
    has been scrubbed. -/
theorem count_scrubs (hl : crate.Lawful) (n : Nat) : Nat.count
    (fun j => (scrubLoop crate build dir interval answers m (m + j)).pc.scrubs = true) n
      + (scrubLoop crate build dir interval answers m (m + n)).pc.hullLeft dir
          (answers (scrubLoop crate build dir interval answers m m).passes)
      = (scrubLoop crate build dir interval answers m m).pc.hullLeft dir
          (answers (scrubLoop crate build dir interval answers m m).passes) := by
  refine count_add_potential _ (fun j => (scrubLoop crate build dir interval answers m
    (m + j)).pc.hullLeft dir (answers (scrubLoop crate build dir interval answers m m).passes))
    (fun j => ?_) n
  rw [pc_scrubLoop_rest]
  have hstep := LoopPc.hullLeft_step crate build dir interval
    (answers (scrubLoop crate build dir interval answers m m).passes) hl
    (scrubLoop crate build dir interval answers m (m + j)).pc
  exact hstep

end

/-- The loop stops at the next file boundary exactly when the pass that is under way at the
    moment the flag is set has at most one hull file before it. -/
theorem scrubLoop_stops_iff (crate : Crc32cCrate) (hl : crate.Lawful) (build : Build)
    (dir : Bytes) (interval : Nat) (answers : Nat → Answers) (m : Nat) :
    StopsAtBoundary crate build dir interval answers m ↔
      (scrubLoop crate build dir interval answers m m).pc.hullLeft dir
        (answers (scrubLoop crate build dir interval answers m m).passes) ≤ 1 := by
  have hcount := count_scrubs crate build dir interval answers m hl
  have hreturns := returns crate build dir interval answers m
  constructor
  · intro h
    rcases hreturns with ⟨n, hended⟩
    -- When the loop is over, every one of them has been scrubbed.
    have hnone := LoopPc.hullLeft_of_ended dir
      (answers (scrubLoop crate build dir interval answers m m).passes) _ hended
    have hscrubs := h.scrubs n
    have hn := hcount n
    omega
  · intro hleft
    refine ⟨fun n => ?_, count_reports crate build dir interval answers m, hreturns⟩
    have hn := hcount n
    omega

/-- A directory in which every file is the sample saga. -/
def sampleDir (names : List Bytes) : Answers
  | .readDir _ => .ok (names.map .ok)
  | .fileType _ => .ok .file
  | .probe _ => .ok (Stream.ofBytes sampleSagaFile)
  | .scrub _ => .ok (Stream.ofBytes sampleSagaFile)

theorem hullFiles_sampleDir (dir : Bytes) (names : List Bytes) :
    DirPc.hullFiles dir (sampleDir names) (names.map .ok) = names.length := by
  have hprobe := (looksLikeHull_ofBytes sampleSagaFile).mpr
    (Container.magic_prefix_image castagnoli sagaSectionIds sampleSaga.container)
  rw [DirPc.hullFiles, List.countP_map]
  exact List.countP_eq_length.mpr fun name _ => hprobe

/-- With one file in the directory, the loop stops at the next file boundary, also when the
    flag is set while the pass begins. -/
theorem scrubLoop_stops_iff_sample :
    StopsAtBoundary castagnoli .release [] 5 (fun _ => sampleDir [[0x78]]) 1 :=
  (scrubLoop_stops_iff castagnoli castagnoli_lawful .release [] 5 _ 1).mpr
    (Nat.le_of_eq (hullFiles_sampleDir [] [[0x78]]))

/-- With three files in it, they are all scrubbed. -/
theorem scrubLoop_scrubs_on : ∃ n, Nat.count (fun j => (scrubLoop castagnoli .release [] 5
    (fun _ => sampleDir [[0x78], [0x79], [0x7a]]) 1 (1 + j)).pc.scrubs = true) n = 3 ∧
    ¬ StopsAtBoundary castagnoli .release [] 5 (fun _ => sampleDir [[0x78], [0x79], [0x7a]]) 1 := by
  rcases returns castagnoli .release [] 5 (fun _ => sampleDir [[0x78], [0x79], [0x7a]]) 1 with
    ⟨n, hended⟩
  have hcount := count_scrubs castagnoli .release [] 5
    (fun _ => sampleDir [[0x78], [0x79], [0x7a]]) 1 castagnoli_lawful n
  have hfiles : (scrubLoop castagnoli .release [] 5
      (fun _ => sampleDir [[0x78], [0x79], [0x7a]]) 1 1).pc.hullLeft []
      (sampleDir [[0x78], [0x79], [0x7a]]) = 3 := hullFiles_sampleDir [] [[0x78], [0x79], [0x7a]]
  rw [LoopPc.hullLeft_of_ended _ _ _ hended, hfiles, Nat.add_zero] at hcount
  refine ⟨n, hcount, fun h => ?_⟩
  have hone := h.scrubs n
  omega

end SkegHull
