import SkegHull.Scrub.Loop
import SkegHull.Scrub.Sweep

/-!
# Pass After Pass

What the scrub loop hands to `on_report` over its whole life, when every pass has the
answers of its own moment. A pass hands over nothing while it is made, and then all that
it found, one report at a time. So at every moment the reports handed over, and those of
the pass under way that are still due, are what the passes found, one pass after another
(`Accounted`). No report is lost or made twice, and a loop that has been stopped has left
out at most the end of its last pass.

As long as the flag is not set, the loop comes back to its head after every pass, if the
slices of its sleep can be added up: a `Duration` is bounded, and adding to one that is
too long panics.

## Main definitions

* `LoopPc.handed`, `handedOver`: The reports handed over, at an event and before it.
* `LoopPc.due`: The reports of the pass under way that are still to come.
* `Loop.next`: One event of a loop that counts its passes.
* `foundBy`: What the passes found, one after another.
* `Accounted`: Every report is handed over or due.

## Theorems

* `scrubDir_returns`: Every pass returns.
* `DirPc.result_of_done`: A pass that is over returns what `scrubDir` computes.
* `Accounted.next`: Every event keeps the account.
* `Loop.runs_round`: From the head, the loop comes back to it.
* `scrubLoop_reports`: What is handed over, in every run.
-/

namespace SkegHull

open Lib

namespace LoopPc

/-- What an event hands to `on_report`. -/
def handed : LoopPc → List ScrubReport
  | .report r _ => [r]
  | _ => []

/-- The reports of the pass under way that are still to come, if the pass finds these. -/
def due (found : List ScrubReport) : LoopPc → List ScrubReport
  | .pass _ => found
  | .report r rest => r :: rest
  | .check rest => rest
  | _ => []

/-- The pass is over, so nothing is due but what it has returned. -/
theorem due_reports (interval : Nat) (found rs : List ScrubReport) :
    (reports interval rs).due found = rs := by
  cases rs with
  | nil =>
      rcases wait_cases interval 0 with h | h
      · rw [reports, h]
        rfl
      · rw [reports, h]
        rfl
  | cons r rest => rfl

theorem reports_ne_pass (interval : Nat) (rs : List ScrubReport) (q : DirPc) :
    reports interval rs ≠ .pass q := by
  rcases reports_cases interval rs with h | h | ⟨r, rest, h⟩
  · rw [h]
    exact LoopPc.noConfusion
  · rw [h]
    exact LoopPc.noConfusion
  · rw [h]
    exact LoopPc.noConfusion

end LoopPc

section

variable (crate : Crc32cCrate) (build : Build) (dir : Bytes)

/-- Every round of a pass returns. -/
theorem scrubEntry_returns (hl : crate.Lawful) (answer : Answers) (out : List ScrubReport)
    (entry : Except IoError Bytes) :
    ∃ out', scrubEntry crate build dir answer out entry = .ok out' := by
  cases hfile : regularFile dir answer entry with
  | none => exact ⟨out, scrubEntry_irregular crate dir answer build out entry hfile⟩
  | some path =>
      rcases regularFile_eq_some dir answer entry path hfile with ⟨name, rfl, rfl, htype⟩
      cases hprobe : looksLikeHull (answer (.probe (Path.join dir name))) with
      | false => exact ⟨out, scrubEntry_foreign crate build dir answer out name htype hprobe⟩
      | true =>
          rcases scrubFile_returns crate build hl (Path.join dir name)
            (answer (.scrub (Path.join dir name))) with ⟨report, hreport⟩
          exact ⟨_, scrubEntry_hull crate build dir answer out name report htype hprobe hreport⟩

/-- Every pass returns. -/
theorem scrubDir_returns (hl : crate.Lawful) (answer : Answers) :
    ∃ found, scrubDir crate build dir answer = .ok found := by
  cases hlist : answer (.readDir dir) with
  | error e => exact ⟨[], by rw [scrubDir, hlist]⟩
  | ok es =>
      rw [scrubDir_listed crate build dir answer es hlist]
      clear hlist
      generalize [] = out
      induction es generalizing out with
      | nil => exact ⟨out, rfl⟩
      | cons entry es ih =>
          rcases scrubEntry_returns crate build dir hl answer out entry with ⟨out', hentry⟩
          rw [List.foldlM_cons, hentry, Outcome.ok_bind]
          exact ih out'

/-- A pass that is over stays over. -/
theorem DirPc.iterate_done (answer : Answers) (result : Outcome Empty (List ScrubReport))
    (n : Nat) : (DirPc.next crate build dir answer)^[n] (.done result) = .done result :=
  Function.iterate_fixed rfl n

/-- A pass that is over returns what `scrubDir` computes. -/
theorem DirPc.result_of_done (answer : Answers) (n : Nat)
    (result : Outcome Empty (List ScrubReport))
    (h : (DirPc.next crate build dir answer)^[n] .list = .done result) :
    result = scrubDir crate build dir answer := by
  rcases DirPc.runs_scrubDir crate build dir answer with ⟨m, hm⟩
  -- Both are what the pass comes to in the end.
  have hlate : (DirPc.next crate build dir answer)^[m + n] .list = .done result := by
    rw [Function.iterate_add_apply, h, DirPc.iterate_done]
  rw [Nat.add_comm, Function.iterate_add_apply, hm, DirPc.iterate_done] at hlate
  exact (DirPc.done.inj hlate).symm

/-- One event of a loop that counts its passes. -/
def Loop.next (interval : Nat) (stop : Bool) (answers : Nat → Answers) (l : Loop) : Loop :=
  ⟨match l.pc with
    | .head => l.passes + 1
    | _ => l.passes,
   l.pc.step crate build dir interval stop (answers l.passes)⟩

variable (interval : Nat) (answers : Nat → Answers)

theorem scrubLoop_succ (m n : Nat) : scrubLoop crate build dir interval answers m (n + 1)
    = (scrubLoop crate build dir interval answers m n).next crate build dir interval (m ≤ n)
        answers :=
  rfl

/-- The reports handed over before an event. -/
def handedOver (m n : Nat) : List ScrubReport :=
  (List.range n).flatMap fun j => (scrubLoop crate build dir interval answers m j).pc.handed

theorem handedOver_succ (m n : Nat) : handedOver crate build dir interval answers m (n + 1)
    = handedOver crate build dir interval answers m n
      ++ (scrubLoop crate build dir interval answers m n).pc.handed := by
  rw [handedOver, List.range_succ, List.flatMap_append, List.flatMap_singleton, handedOver]

/-! ### No report is lost or made twice -/

/-- What these passes found, one after another. The first pass has the number one. -/
def foundBy (found : Nat → List ScrubReport) (passes : Nat) : List ScrubReport :=
  (List.range passes).flatMap fun k => found (k + 1)

theorem foundBy_succ (found : Nat → List ScrubReport) (passes : Nat) :
    foundBy found (passes + 1) = foundBy found passes ++ found (passes + 1) := by
  rw [foundBy, List.range_succ, List.flatMap_append, List.flatMap_singleton, foundBy]

/-- The reports handed over and those still due are what the passes found. A loop that is
    over leaves some of them out. -/
structure Accounted (found : Nat → List ScrubReport) (passes : Nat) (pc : LoopPc)
    (made : List ScrubReport) : Prop where
  begun : ∀ q, pc = .pass q → ∃ k, (DirPc.next crate build dir (answers passes))^[k] .list = q
  account : ∃ left, made ++ left = foundBy found passes ∧
    (pc.ended = false → left = pc.due (found passes))

variable {crate build dir interval answers} {found : Nat → List ScrubReport} {passes : Nat}
  {pc : LoopPc} {made : List ScrubReport}

/-- Whatever the loop has left out, it has handed over the reports in order. -/
theorem Accounted.in_order (h : Accounted crate build dir answers found passes pc made) :
    made <+: foundBy found passes := by
  rcases h.account with ⟨left, hleft, _⟩
  exact ⟨left, hleft⟩

/-- A loop that is not over has still to hand over what is due. -/
theorem Accounted.append_due (h : Accounted crate build dir answers found passes pc made)
    (hrunning : pc.ended = false) : made ++ pc.due (found passes) = foundBy found passes := by
  rcases h.account with ⟨left, hleft, hdue⟩
  rw [← hdue hrunning]
  exact hleft

/-- An event that neither begins a pass nor is one of a pass keeps the account if what was
    due is handed over or still due. -/
theorem Accounted.of_due (h : Accounted crate build dir answers found passes pc made)
    (hrunning : pc.ended = false) (pc' : LoopPc) (hpc : ∀ q, pc' ≠ .pass q)
    (hdue : pc.due (found passes) = pc.handed ++ pc'.due (found passes)) :
    Accounted crate build dir answers found passes pc' (made ++ pc.handed) where
  begun q hq := absurd hq (hpc q)
  account := by
    refine ⟨pc'.due (found passes), ?_, fun _ => rfl⟩
    rw [List.append_assoc, ← hdue]
    exact h.append_due hrunning

/-- A pass begins, or the loop is over. Nothing of the pass has been handed over. -/
theorem Accounted.head (stop : Bool)
    (h : Accounted crate build dir answers found passes .head made) :
    Accounted crate build dir answers found (passes + 1) (if stop then .returned else .pass .list)
      made := by
  have hmade : made = foundBy found passes := by
    simpa only [LoopPc.due, List.append_nil] using h.append_due rfl
  refine ⟨fun q hq => ?_, found (passes + 1), ?_, fun hrunning => ?_⟩
  · cases stop with
    | true => cases hq
    | false =>
        cases hq
        exact ⟨0, rfl⟩
  · rw [hmade, foundBy_succ]
  · cases stop with
    | true => cases hrunning
    | false => rfl

/-- A pass goes on, or it is over and its reports are due. -/
theorem Accounted.pass (hfound : scrubDir crate build dir (answers passes) = .ok (found passes))
    (stop : Bool) (q : DirPc)
    (h : Accounted crate build dir answers found passes (.pass q) made) :
    Accounted crate build dir answers found passes
      (LoopPc.step crate build dir interval stop (answers passes) (.pass q)) made := by
  rcases h.begun q rfl with ⟨k, hk⟩
  have hnext : (DirPc.next crate build dir (answers passes))^[k + 1] .list
      = q.next crate build dir (answers passes) := by
    rw [Function.iterate_succ_apply', hk]
  rcases LoopPc.step_pass crate build dir interval (answers passes) stop q with
    ⟨_, hstep⟩ | ⟨result, hdone, _⟩
  · rw [hstep]
    refine ⟨fun q' hq' => ⟨k + 1, ?_⟩, found passes, h.append_due rfl, fun _ => rfl⟩
    rw [hnext]
    exact LoopPc.pass.inj hq'
  · have hresult := DirPc.result_of_done crate build dir (answers passes) (k + 1) result
      (hnext.trans hdone)
    rw [hresult, hfound] at hdone
    have hstep : LoopPc.step crate build dir interval stop (answers passes) (.pass q)
        = LoopPc.reports interval (found passes) := by
      simp only [LoopPc.step, hdone]
    have hover := h.of_due rfl _ (LoopPc.reports_ne_pass interval (found passes))
      (LoopPc.due_reports interval (found passes) (found passes)).symm
    rw [hstep]
    simpa only [LoopPc.handed, List.append_nil] using hover

/-- Every event keeps the account. -/
theorem Accounted.next (hfound : ∀ k, scrubDir crate build dir (answers k) = .ok (found k))
    (stop : Bool) (l : Loop)
    (h : Accounted crate build dir answers found l.passes l.pc made) :
    Accounted crate build dir answers found
      (l.next crate build dir interval stop answers).passes
      (l.next crate build dir interval stop answers).pc (made ++ l.pc.handed) := by
  rcases l with ⟨passes, pc⟩
  -- What is not a report hands over nothing.
  have hnone := List.append_nil made
  cases pc with
  | head =>
      have hhead := h.head stop
      rw [← hnone] at hhead
      exact hhead
  | pass q =>
      have hpass : Accounted crate build dir answers found passes
          (LoopPc.step crate build dir interval stop (answers passes) (.pass q)) made :=
        h.pass (hfound passes) stop q
      rw [← hnone] at hpass
      exact hpass
  | report r rest => exact h.of_due rfl (.check rest) (fun _ => LoopPc.noConfusion) rfl
  | check rest =>
      cases stop with
      | true =>
          refine ⟨fun q hq => LoopPc.noConfusion hq, rest, ?_, fun hover => Bool.noConfusion hover⟩
          exact (congrArg (· ++ rest) hnone).trans (h.append_due rfl)
      | false =>
          exact h.of_due rfl _ (LoopPc.reports_ne_pass interval rest)
            (LoopPc.due_reports interval (found passes) rest).symm
  | slice slept =>
      cases stop with
      | true => exact h.of_due rfl .returned (fun _ => LoopPc.noConfusion) rfl
      | false => exact h.of_due rfl (.sleep slept _) (fun _ => LoopPc.noConfusion) rfl
  | sleep slept nap =>
      rw [Loop.next]
      rcases LoopPc.step_sleep crate build dir interval (answers passes) stop slept nap with
        hstep | hstep | hstep
      · rw [hstep]
        exact h.of_due rfl .head (fun _ => LoopPc.noConfusion) rfl
      · rw [hstep]
        exact h.of_due rfl (.slice _) (fun _ => LoopPc.noConfusion) rfl
      · rw [hstep]
        exact h.of_due rfl (.panicked .overflow) (fun _ => LoopPc.noConfusion) rfl
  | returned =>
      rw [← hnone] at h
      exact h
  | panicked p =>
      rw [← hnone] at h
      exact h

/-- So does every run. -/
theorem accounted_scrubLoop (hfound : ∀ k, scrubDir crate build dir (answers k) = .ok (found k))
    (m n : Nat) : Accounted crate build dir answers found
      (scrubLoop crate build dir interval answers m n).passes
      (scrubLoop crate build dir interval answers m n).pc
      (handedOver crate build dir interval answers m n) := by
  induction n with
  | zero => exact ⟨fun q hq => LoopPc.noConfusion hq, [], rfl, fun _ => rfl⟩
  | succ n ih =>
      rw [handedOver_succ, scrubLoop_succ]
      exact ih.next hfound (m ≤ n) _

/-! ### The loop comes back -/

/-- The number of slices that a sleep can be made of at most. -/
def slicesMax : Nat := durationMax / sliceNanos

variable (crate build dir interval answers)

/-- A pass comes to its end, and its reports are due. -/
theorem Loop.runs_pass (hfound : scrubDir crate build dir (answers passes) = .ok (found passes)) :
    ∃ n, (Loop.next crate build dir interval false answers)^[n] ⟨passes, .pass .list⟩
      = ⟨passes, LoopPc.reports interval (found passes)⟩ := by
  rcases DirPc.runs_scrubDir crate build dir (answers passes) with ⟨m, hm⟩
  rw [hfound] at hm
  generalize DirPc.list = q at hm
  induction m generalizing q with
  | zero =>
      rw [Function.iterate_zero_apply] at hm
      subst hm
      exact ⟨1, rfl⟩
  | succ m ih =>
      rw [Function.iterate_succ_apply] at hm
      rcases LoopPc.step_pass crate build dir interval (answers passes) false q with
        ⟨_, hstep⟩ | ⟨result, hdone, _⟩
      · rcases ih _ hm with ⟨n, hn⟩
        refine ⟨n + 1, ?_⟩
        rw [Function.iterate_succ_apply, Loop.next, hstep]
        exact hn
      -- A pass that is over stays over.
      · rw [hdone, DirPc.iterate_done] at hm
        rw [DirPc.done.inj hm] at hdone
        refine ⟨1, ?_⟩
        simp only [Function.iterate_one, Loop.next, LoopPc.step, hdone]

/-- All reports are handed over, and the sleep begins. -/
theorem Loop.runs_reports (rs : List ScrubReport) :
    ∃ n, (Loop.next crate build dir interval false answers)^[n]
      ⟨passes, LoopPc.reports interval rs⟩ = ⟨passes, LoopPc.wait interval 0⟩ := by
  induction rs with
  | nil => exact ⟨0, rfl⟩
  | cons r rest ih => exact iterate_trans ⟨2, rfl⟩ ih

/-- The sleep comes to its end, if its slices can be added up. -/
theorem Loop.runs_wait (hinterval : interval ≤ slicesMax * sliceNanos) (slices left : Nat)
    (hleft : interval ≤ (slices + left) * sliceNanos) :
    ∃ n, (Loop.next crate build dir interval false answers)^[n]
      ⟨passes, LoopPc.wait interval (slices * sliceNanos)⟩ = ⟨passes, .head⟩ := by
  by_cases hover : slices * sliceNanos < interval
  · cases left with
    | zero => exact absurd hover (Nat.not_lt.mpr hleft)
    | succ left =>
        have hslices : slices < slicesMax := by
          by_contra hmany
          have hle := Nat.mul_le_mul_right sliceNanos (Nat.not_lt.mp hmany)
          omega
        have hfits : slices * sliceNanos + sliceNanos ≤ durationMax := by
          have hmul := Nat.mul_le_mul_right sliceNanos (Nat.succ_le_of_lt hslices)
          have hmax : slicesMax * sliceNanos ≤ durationMax := Nat.div_mul_le_self _ _
          rw [Nat.succ_mul] at hmul
          omega
        rw [LoopPc.wait, if_pos hover]
        refine iterate_trans ⟨2, ?_⟩ (Loop.runs_wait hinterval (slices + 1) left ?_)
        · have hsleep : ∀ nap, LoopPc.step crate build dir interval false (answers passes)
              (.sleep (slices * sliceNanos) nap)
                = LoopPc.wait interval ((slices + 1) * sliceNanos) := by
            intro nap
            rw [LoopPc.step, if_pos hfits, Nat.succ_mul]
          exact congrArg (Loop.mk passes) (hsleep _)
        · rw [Nat.add_right_comm]
          exact hleft
  · rw [LoopPc.wait, if_neg hover]
    exact ⟨0, rfl⟩
  termination_by left

/-- From the head, the loop comes back to it. -/
theorem Loop.runs_round (hinterval : interval ≤ slicesMax * sliceNanos)
    (hfound : ∀ k, scrubDir crate build dir (answers k) = .ok (found k)) :
    ∃ n, (Loop.next crate build dir interval false answers)^[n] ⟨passes, .head⟩
      = ⟨passes + 1, .head⟩ := by
  refine iterate_trans ⟨1, rfl⟩ ?_
  refine iterate_trans (Loop.runs_pass crate build dir interval answers (hfound (passes + 1))) ?_
  refine iterate_trans (Loop.runs_reports crate build dir interval answers _) ?_
  have hwait : ∃ n, (Loop.next crate build dir interval false answers)^[n]
      ⟨passes + 1, LoopPc.wait interval (0 * sliceNanos)⟩ = ⟨passes + 1, .head⟩ :=
    Loop.runs_wait crate build dir interval answers hinterval 0 slicesMax
      (by rw [Nat.zero_add]; exact hinterval)
  rwa [Nat.zero_mul] at hwait

/-- Until the flag is set, the run is one of the events without it. -/
theorem scrubLoop_eq_iterate (m n : Nat) (h : n ≤ m) :
    scrubLoop crate build dir interval answers m n
      = (Loop.next crate build dir interval false answers)^[n] ⟨0, .head⟩ := by
  induction n with
  | zero => rfl
  | succ n ih =>
      have hunset : decide (m ≤ n) = false := decide_eq_false (by omega)
      rw [scrubLoop_succ, ih (by omega), hunset, Function.iterate_succ_apply']

end

/-- In every run of the loop, with answers that may be others for each pass and whenever
    the flag is set, the reports handed over are, in order, what the passes found, up to
    some point of the last one. While the loop goes on, what is missing is what the pass
    under way has still to hand over. And as long as the flag is not set, the loop makes
    any number of passes and hands over all that they found, if the slices of its sleep
    can be added up. -/
theorem scrubLoop_reports (crate : Crc32cCrate) (hl : crate.Lawful) (build : Build) (dir : Bytes)
    (interval : Nat) (answers : Nat → Answers) :
    ∃ found : Nat → List ScrubReport,
      (∀ k, scrubDir crate build dir (answers k) = .ok (found k)) ∧
      (∀ m n, handedOver crate build dir interval answers m n
        <+: foundBy found (scrubLoop crate build dir interval answers m n).passes) ∧
      (∀ m n, (scrubLoop crate build dir interval answers m n).pc.ended = false →
        handedOver crate build dir interval answers m n
            ++ (scrubLoop crate build dir interval answers m n).pc.due
              (found (scrubLoop crate build dir interval answers m n).passes)
          = foundBy found (scrubLoop crate build dir interval answers m n).passes) ∧
      (interval ≤ slicesMax * sliceNanos → ∀ passes, ∃ n, ∀ m, n ≤ m →
        handedOver crate build dir interval answers m n = foundBy found passes) := by
  choose found hfound using fun k => scrubDir_returns crate build dir hl (answers k)
  have haccount : ∀ m n, Accounted crate build dir answers found
      (scrubLoop crate build dir interval answers m n).passes
      (scrubLoop crate build dir interval answers m n).pc
      (handedOver crate build dir interval answers m n) :=
    accounted_scrubLoop hfound
  refine ⟨found, hfound, fun m n => (haccount m n).in_order,
    fun m n hrunning => (haccount m n).append_due hrunning, fun hinterval passes => ?_⟩
  have hrounds : ∃ n, (Loop.next crate build dir interval false answers)^[n] ⟨0, .head⟩
      = ⟨passes, .head⟩ := by
    induction passes with
    | zero => exact ⟨0, rfl⟩
    | succ passes ih =>
        exact iterate_trans ih (Loop.runs_round crate build dir interval answers hinterval hfound)
  rcases hrounds with ⟨n, hn⟩
  refine ⟨n, fun m hm => ?_⟩
  have hrun := (scrubLoop_eq_iterate crate build dir interval answers m n hm).trans hn
  have hmade := haccount m n
  rw [hrun] at hmade
  -- At its head the loop owes nothing.
  simpa only [LoopPc.due, List.append_nil] using hmade.append_due rfl

/-- With one file in the directory, it is reported again and again. -/
theorem scrubLoop_reports_sample : ∃ n report, report.path = Path.join [0x2e] [0x78] ∧
    handedOver castagnoli .release [0x2e] 5
      (fun _ => stillAnswers [[0x78]] fun _ => sampleSagaFile) n n = [report, report] := by
  have hlong : 5 ≤ slicesMax * sliceNanos := by decide
  rcases scrubLoop_reports castagnoli castagnoli_lawful .release [0x2e] 5
    (fun _ => stillAnswers [[0x78]] fun _ => sampleSagaFile) with ⟨found, hfound, _, _, hrounds⟩
  rcases hrounds hlong 2 with ⟨n, hn⟩
  rcases scrubEntries_still castagnoli [0x2e] castagnoli_lawful
    (still_stillAnswers [[0x78]] fun _ => sampleSagaFile) ([[0x78]].map .ok) with
    ⟨reports, hrun, hall⟩
  have hpaths : hullPaths [0x2e] (stillAnswers [[0x78]] fun _ => sampleSagaFile)
      (fun _ => sampleSagaFile) ([[0x78]].map .ok) = [Path.join [0x2e] [0x78]] := by
    decide +kernel
  rw [hpaths] at hall
  rcases List.forall₂_cons_left_iff.mp hall with ⟨report, rest, hreported, hrest, rfl⟩
  rw [List.forall₂_nil_left_iff.mp hrest] at hrun
  have hsame : ∀ k, found k = [report] := by
    intro k
    have hk := hfound k
    rw [scrubDir_listed castagnoli .release [0x2e] _ ([[0x78]].map .ok) rfl, hrun, List.nil_append,
      Outcome.ok.injEq] at hk
    exact hk.symm
  refine ⟨n, report, hreported.path_eq, ?_⟩
  rw [hn n (Nat.le_refl n), foundBy_succ, foundBy_succ, hsame, hsame]
  rfl

end SkegHull
