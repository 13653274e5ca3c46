import Mathlib.Data.List.Infix
import Mathlib.Data.List.Nodup
import Mathlib.Logic.Function.Basic
import Mathlib.Logic.Relation

/-!
# Atomic Cells

Cells that hold values, jobs that each set one cell once, and observers that each look
into one cell once. Setting and looking are single steps. This is what concurrent writers
and readers of files are to look like from the outside: a job takes effect at one moment,
an observer sees what is there at one moment, and the order of these moments is one that
everybody agrees on.

The jobs that have set their cells are listed in that order. A cell holds what the last
job on it (`Plan.last`) has written, and what it held at first when there is none. What
an observer has seen is what a cell held after some first part of the list, and that part
has every job that came before the observer began, and none that came after it looked
(`look_between`).

## Main definitions

* `Plan`: Which cell a job sets to what, and which cell an observer looks into.
* `Plan.last`, `Plan.after`: The last of some jobs on a cell, and what the cell then holds.
* `Cells`, `Cells.Step`: The cells, and one step.
* `Cells.Valid`: What every step preserves.

## Theorems

* `Plan.last_eq_none_iff`, `Plan.mem_of_last`: Which job is the last one on a cell.
* `Plan.after_eq_none_iff`: When a cell is empty.
* `valid_of_reaches`: What holds of every run.
* `commits_prefix`: What has happened stays.
* `look_between`: What an observer sees was there while it looked.
-/

namespace Lib

/-- Which cell a job sets, and to what, and which cell an observer looks into. -/
structure Plan (κ β ι ρ : Type) where
  place : ι → Option κ
  value : ι → β
  watch : ρ → Option κ

variable {κ β ι ρ : Type} [DecidableEq κ]

namespace Plan

/-- The last of these jobs that is on the cell. -/
def last (plan : Plan κ β ι ρ) (k : κ) (jobs : List ι) : Option ι :=
  jobs.reverse.find? fun i => plan.place i = some k

/-- What a cell holds after these jobs. -/
def after (plan : Plan κ β ι ρ) (init : κ → Option β) (k : κ) (jobs : List ι) : Option β :=
  (plan.last k jobs).elim (init k) fun i => some (plan.value i)

variable (plan : Plan κ β ι ρ) (init : κ → Option β) (k : κ) (jobs : List ι)

theorem last_concat (i : ι) :
    plan.last k (jobs ++ [i]) = if plan.place i = some k then some i else plan.last k jobs := by
  rw [last, List.reverse_append, List.reverse_singleton, List.singleton_append, List.find?_cons]
  by_cases hi : plan.place i = some k
  · rw [if_pos hi, decide_eq_true hi]
  · rw [if_neg hi, decide_eq_false hi]
    rfl

theorem last_eq_none_iff : plan.last k jobs = none ↔ ∀ i ∈ jobs, plan.place i ≠ some k := by
  simp only [last, List.find?_eq_none, List.mem_reverse, decide_eq_true_eq]

theorem mem_of_last (i : ι) (h : plan.last k jobs = some i) : i ∈ jobs :=
  List.mem_reverse.mp (List.mem_of_find?_eq_some h)

theorem after_concat (i : ι) : plan.after init k (jobs ++ [i])
    = if plan.place i = some k then some (plan.value i) else plan.after init k jobs := by
  rw [after, last_concat]
  by_cases hi : plan.place i = some k
  · rw [if_pos hi, if_pos hi]
    rfl
  · rw [if_neg hi, if_neg hi, after]

/-- A cell is empty when it was so and no job was on it. -/
theorem after_eq_none_iff : plan.after init k jobs = none ↔
    init k = none ∧ ∀ i ∈ jobs, plan.place i ≠ some k := by
  rw [after, ← plan.last_eq_none_iff k jobs]
  cases plan.last k jobs with
  | none => simp only [Option.elim_none, and_true]
  | some i => simp only [Option.elim_some, reduceCtorEq, and_false]

end Plan

/-- What the cells hold, the jobs that have set one, and what the observers have seen. -/
structure Cells (κ β ι ρ : Type) where
  holds : κ → Option β
  commits : List ι
  seen : ρ → Option (Option β)

namespace Cells

/-- Nothing has happened yet. -/
def start (init : κ → Option β) : Cells κ β ι ρ := ⟨init, [], fun _ => none⟩

variable [DecidableEq ρ]

/-- A job sets its cell, or an observer looks into its cell. -/
inductive Step (plan : Plan κ β ι ρ) : Cells κ β ι ρ → Cells κ β ι ρ → Prop where
  | commit {c : Cells κ β ι ρ} (i : ι) (k : κ) (hk : plan.place i = some k)
      (hi : i ∉ c.commits) :
      Step plan c ⟨Function.update c.holds k (some (plan.value i)), c.commits ++ [i], c.seen⟩
  | look {c : Cells κ β ι ρ} (r : ρ) (k : κ) (hk : plan.watch r = some k)
      (hr : c.seen r = none) :
      Step plan c ⟨c.holds, c.commits, Function.update c.seen r (some (c.holds k))⟩

/-- The cells that steps lead to. -/
def Reaches (plan : Plan κ β ι ρ) : Cells κ β ι ρ → Cells κ β ι ρ → Prop :=
  Relation.ReflTransGen (Step plan)

variable {plan : Plan κ β ι ρ} {init : κ → Option β} {a b c : Cells κ β ι ρ}

/-- What every step preserves. -/
structure Valid (plan : Plan κ β ι ρ) (init : κ → Option β) (c : Cells κ β ι ρ) : Prop where
  holds : ∀ k, c.holds k = plan.after init k c.commits
  nodup : c.commits.Nodup
  placed : ∀ i ∈ c.commits, plan.place i ≠ none

omit [DecidableEq ρ] in
theorem valid_start : Valid plan init (start init) where
  holds := fun _ => rfl
  nodup := List.nodup_nil
  placed := fun _ hi => absurd hi List.not_mem_nil

theorem valid_step (h : Valid plan init a) (hstep : Step plan a b) : Valid plan init b := by
  cases hstep with
  | commit i k hk hi =>
      refine ⟨fun k' => ?_, ?_, fun j hj => ?_⟩
      · -- The job is the last one on its cell, and on no other cell.
        by_cases hk' : k' = k
        · subst hk'
          simp only [plan.after_concat, if_pos hk, Function.update_self]
        · have hne : plan.place i ≠ some k' := fun h => hk' (Option.some.inj (h.symm.trans hk))
          simp only [plan.after_concat, if_neg hne, Function.update_of_ne hk']
          exact h.holds k'
      · rw [List.nodup_append]
        refine ⟨h.nodup, List.nodup_singleton i, fun j hj j' hj' => ?_⟩
        rw [List.mem_singleton.mp hj']
        exact fun heq => hi (heq ▸ hj)
      · rcases List.mem_append.mp hj with hj | hj
        · exact h.placed j hj
        · rw [List.mem_singleton.mp hj, hk]
          exact Option.some_ne_none k
  | look r k hk hr => exact ⟨h.holds, h.nodup, h.placed⟩

theorem valid_reaches (h : Valid plan init a) (hrun : Reaches plan a b) : Valid plan init b := by
  induction hrun with
  | refl => exact h
  | tail _ hstep ih => exact valid_step ih hstep

/-- What holds of every run. -/
theorem valid_of_reaches (hrun : Reaches plan (start init) b) : Valid plan init b :=
  valid_reaches valid_start hrun

/-- A job that has set its cell has done so for good. -/
theorem commits_prefix (hrun : Reaches plan a b) : a.commits <+: b.commits := by
  induction hrun with
  | refl => exact List.prefix_refl _
  | tail _ hstep ih =>
      cases hstep with
      | commit i k hk hi => exact ih.trans (List.prefix_append _ _)
      | look r k hk hr => exact ih

/-- What an observer has seen was in its cell after some of the jobs, all those that had set
    their cells before it began and no others than those that have done so by now. -/
theorem look_between (hvalid : Valid plan init a) (hrun : Reaches plan a b) (r : ρ)
    (v : Option β) (ha : a.seen r = none) (hb : b.seen r = some v) :
    ∃ k jobs, plan.watch r = some k ∧ a.commits <+: jobs ∧ jobs <+: b.commits ∧
      v = plan.after init k jobs := by
  induction hrun with
  | refl =>
      rw [ha] at hb
      cases hb
  | @tail c d hbefore hstep ih =>
      cases hstep with
      | commit i k hk hi =>
          rcases ih hb with ⟨k', jobs, hwatch, hfirst, hlast, hv⟩
          exact ⟨k', jobs, hwatch, hfirst, hlast.trans (List.prefix_append _ _), hv⟩
      | look r' k hk hr =>
          by_cases hr' : r = r'
          -- The observer looks now, and all that has happened so far counts.
          · subst hr'
            have hseen : v = c.holds k :=
              (Option.some.inj ((Function.update_self r _ c.seen).symm.trans hb)).symm
            refine ⟨k, c.commits, hk, commits_prefix hbefore, List.prefix_refl _, ?_⟩
            rw [hseen]
            exact (valid_reaches hvalid hbefore).holds k
          · exact ih ((Function.update_of_ne hr' _ _).symm.trans hb)

end Cells

end Lib
