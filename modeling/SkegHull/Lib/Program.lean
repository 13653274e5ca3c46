import Mathlib.Logic.Function.Basic
import Mathlib.Logic.Relation

/-!
# Programs that Share a State

A program performs operations one after another and goes on according to the
replies. Any number of them run against one shared state, in any order: a pool
steps one of its programs at a time, and keeps a log of what was performed.

`Pool.Reaches` takes the steps that a schedule may make as a parameter: all of
them, those of one program, or those that no other program overlaps.

## Main definitions

* `Program`: Operations, and a continuation for each reply.
* `Pool`: A shared state, programs, and a log.
* `Pool.step`, `Pool.run`, `Pool.Reaches`: One step, a schedule, and all of them.
* `Pool.events`: What one of the programs performed.
* `Pool.Alone`: No other program is under way.

## Theorems

* `Pool.step_eq_some_iff`: What a step does.
* `Pool.exec_of_mem`: Every reply in a log came from the shared state.
* `Pool.reaches_of_run`: A schedule that runs reaches its end.
* `Pool.reaches_of_solo`: So does a schedule of one program that is alone.
-/

namespace Lib

/-- Operations, and a continuation for each reply. -/
inductive Program {Op : Type} (Reply : Op → Type) (α : Type) where
  | ret (a : α)
  | op (o : Op) (k : Reply o → Program Reply α)

/-- An operation and the reply to it. -/
abbrev Event {Op : Type} (Reply : Op → Type) := (o : Op) × Reply o

variable {Op : Type} {Reply : Op → Type} {α β : Type}

namespace Program

/-- One program after another. -/
def bind : Program Reply α → (α → Program Reply β) → Program Reply β
  | .ret a, f => f a
  | .op o k, f => .op o fun r => (k r).bind f

instance : Monad (Program Reply) where
  pure := ret
  bind := bind

/-- The program that performs one operation. -/
def perform (o : Op) : Program Reply (Reply o) := .op o .ret

end Program

/-- A shared state, the programs that run against it, and what they performed. -/
structure Pool (σ ι : Type) {Op : Type} (Reply : Op → Type) (α : Type) where
  shared : σ
  prog : ι → Program Reply α
  log : List (ι × Event Reply)

namespace Pool

variable {σ ι χ : Type} [DecidableEq ι]

/-- The programs before any of them has run. -/
def start (s : σ) (prog : ι → Program Reply α) : Pool σ ι Reply α := ⟨s, prog, []⟩

/-- What one of the programs performed. -/
def events (w : Pool σ ι Reply α) (i : ι) : List (Event Reply) :=
  w.log.filterMap fun e => if e.1 = i then some e.2 else none

variable (exec : ι → (o : Op) → σ → χ → Option (Reply o × σ))

/-- One program performs its next operation. The choice settles what the shared
    state leaves open. -/
def step (w : Pool σ ι Reply α) (i : ι) (c : χ) : Option (Pool σ ι Reply α) :=
  match w.prog i with
  | .ret _ => none
  | .op o k =>
      match exec i o w.shared c with
      | none => none
      | some (r, s) => some ⟨s, Function.update w.prog i (k r), w.log ++ [(i, ⟨o, r⟩)]⟩

/-- A schedule of steps. -/
def run (w : Pool σ ι Reply α) : List (ι × χ) → Option (Pool σ ι Reply α)
  | [] => some w
  | (i, c) :: schedule =>
      match w.step exec i c with
      | none => none
      | some w' => w'.run schedule

/-- The pools that steps of this kind lead to. -/
def Reaches (allowed : Pool σ ι Reply α → ι → Prop) : Pool σ ι Reply α → Pool σ ι Reply α → Prop :=
  Relation.ReflTransGen fun w w' => ∃ i c, allowed w i ∧ w.step exec i c = some w'

/-- Every other program has yet to begin, or has returned. -/
def Alone (w : Pool σ ι Reply α) (i : ι) : Prop :=
  ∀ j, j ≠ i → w.events j = [] ∨ ∃ a, w.prog j = .ret a

variable {exec}

theorem step_eq_some_iff (w w' : Pool σ ι Reply α) (i : ι) (c : χ) :
    w.step exec i c = some w' ↔ ∃ o k r s, w.prog i = .op o k ∧
      exec i o w.shared c = some (r, s) ∧
      w' = ⟨s, Function.update w.prog i (k r), w.log ++ [(i, ⟨o, r⟩)]⟩ := by
  constructor
  · intro h
    cases hprog : w.prog i with
    | ret a => simp only [step, hprog, reduceCtorEq] at h
    | op o k =>
        cases hexec : exec i o w.shared c with
        | none => simp only [step, hprog, hexec, reduceCtorEq] at h
        | some rs =>
            simp only [step, hprog, hexec, Option.some.injEq] at h
            exact ⟨o, k, rs.1, rs.2, rfl, hexec, h.symm⟩
  · rintro ⟨o, k, r, s, hop, hexec, rfl⟩
    simp only [step, hop, hexec]

theorem events_append_self (w : Pool σ ι Reply α) (s : σ) (prog : ι → Program Reply α) (i : ι)
    (e : Event Reply) : (⟨s, prog, w.log ++ [(i, e)]⟩ : Pool σ ι Reply α).events i
      = w.events i ++ [e] := by
  simp only [events, List.filterMap_append, List.filterMap_cons, if_true, List.filterMap_nil]

theorem events_append_of_ne (w : Pool σ ι Reply α) (s : σ) (prog : ι → Program Reply α)
    (i j : ι) (e : Event Reply) (h : j ≠ i) :
    (⟨s, prog, w.log ++ [(i, e)]⟩ : Pool σ ι Reply α).events j = w.events j := by
  simp only [events, List.filterMap_append, List.filterMap_cons, if_neg h.symm,
    List.filterMap_nil, List.append_nil]

theorem mem_events_iff (w : Pool σ ι Reply α) (i : ι) (e : Event Reply) :
    e ∈ w.events i ↔ (i, e) ∈ w.log := by
  simp only [events, List.mem_filterMap, Option.ite_none_right_eq_some, Option.some.injEq,
    Prod.exists]
  constructor
  · rintro ⟨j, e', hmem, rfl, rfl⟩
    exact hmem
  · exact fun hmem => ⟨i, e, hmem, rfl, rfl⟩

/-- Every reply in a log came from the shared state. -/
theorem exec_of_mem {allowed : Pool σ ι Reply α → ι → Prop} {s₀ : σ} {prog : ι → Program Reply α}
    {w : Pool σ ι Reply α} (h : (start s₀ prog).Reaches exec allowed w) (i : ι) (e : Event Reply)
    (hmem : e ∈ w.events i) : ∃ s s' c, exec i e.1 s c = some (e.2, s') := by
  induction h with
  | refl => cases hmem
  | @tail u _ _ hlast ih =>
      rcases hlast with ⟨j, c, _, hstep⟩
      rcases (step_eq_some_iff _ _ j c).mp hstep with ⟨o, k, r, s, _, hexec, rfl⟩
      -- The last step added one event, to the program that took it.
      by_cases hj : i = j
      · subst hj
        rw [events_append_self] at hmem
        rcases List.mem_append.mp hmem with hmem | hmem
        · exact ih hmem
        · cases List.mem_singleton.mp hmem
          exact ⟨_, _, c, hexec⟩
      · rw [events_append_of_ne u s _ j i _ hj] at hmem
        exact ih hmem

/-- A schedule that runs reaches its end. -/
theorem reaches_of_run (schedule : List (ι × χ)) (w w' : Pool σ ι Reply α)
    (h : w.run exec schedule = some w') : w.Reaches exec (fun _ _ => True) w' := by
  induction schedule generalizing w with
  | nil =>
      rw [run, Option.some.injEq] at h
      rw [h]
      exact .refl
  | cons e schedule ih =>
      rw [run] at h
      cases hstep : w.step exec e.1 e.2 with
      | none =>
          rw [hstep] at h
          cases h
      | some u =>
          rw [hstep] at h
          exact .head ⟨e.1, e.2, trivial, hstep⟩ (ih u h)

/-- A program that is alone stays alone while it runs. -/
theorem alone_step (w w' : Pool σ ι Reply α) (i : ι) (c : χ) (h : w.Alone i)
    (hstep : w.step exec i c = some w') : w'.Alone i := by
  rcases (step_eq_some_iff w w' i c).mp hstep with ⟨o, k, r, s, _, _, rfl⟩
  intro j hj
  rw [events_append_of_ne w s _ i j _ hj]
  simp only [Function.update_of_ne hj]
  exact h j hj

/-- A schedule of one program that is alone reaches its end alone. -/
theorem reaches_of_solo (i : ι) (cs : List χ) (w w' : Pool σ ι Reply α) (halone : w.Alone i)
    (h : w.run exec (cs.map fun c => (i, c)) = some w') : w.Reaches exec Alone w' := by
  induction cs generalizing w with
  | nil =>
      rw [List.map_nil, run, Option.some.injEq] at h
      rw [h]
      exact .refl
  | cons c cs ih =>
      rw [List.map_cons, run] at h
      cases hstep : w.step exec i c with
      | none =>
          rw [hstep] at h
          cases h
      | some u =>
          rw [hstep] at h
          -- The step keeps the program alone, so the rest of the schedule is of the kind.
          exact .head ⟨i, c, halone, hstep⟩ (ih u (alone_step w u i c halone hstep) h)

end Pool

end Lib
