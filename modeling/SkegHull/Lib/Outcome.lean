import Mathlib.Algebra.Group.Nat.Defs
import Mathlib.Tactic.Common

/-!
# Outcomes with Panics

The result of a computation that can return a value, return an error, or
panic. A `Result` of the source language and a panic are different things: an
error is handed to the caller, a panic is not, and a claim that a decoder
"never panics" is a claim that the third constructor never shows up.

`Build` says which of the two meanings of machine arithmetic applies. A debug
build panics when a 64-bit sum or product overflows, a release build wraps it.
Every arithmetic step of a modelled function takes the build as a parameter, so
one definition covers both and a statement chooses.

`Safe` is the absence of a panic. `safe_bind_iff` splits it along a sequence of
steps, and that is the rule every safety proof below is driven by: a chain of
steps is safe exactly when each step is safe on what the ones before returned.

## Main definitions

* `Outcome`: A value, an error, or a panic.
* `Outcome.Safe`: The computation does not panic.
* `Outcome.IsErr`: The computation returns an error.
* `Outcome.Errs`: Every error it can return has a property.
* `failIf`, `failWith`: Return an error when a condition holds.
* `Build`: Whether overflow panics or wraps.
* `Build.add`, `Build.sub`, `Build.mul`, `divide`, `checkedAdd`: Machine
  arithmetic.
* `Build.debugAssert`: An assertion that only debug builds evaluate.

## Theorems

* `bind_eq_ok_iff`: A sequence returns a value exactly when both parts do.
* `safe_bind_iff`: A sequence is safe exactly when both parts are.
* `errs_bind`: The errors of a sequence are the errors of its parts.
* `mapM_eq_ok`, `foldlM_collect`: Loops of steps that all succeed.
* `add_of_lt`, `mul_of_lt`, `sub_of_le`: Arithmetic that fits is exact.
* `safe_add_bind_debug_iff`, `safe_mul_bind_debug_iff`, `safe_divide_bind_iff`:
  What makes a step of arithmetic safe to go on from.
-/

namespace Lib

/-- Why a computation stopped without returning. -/
inductive Panic where
  | overflow
  | divideByZero
  | sliceIndex
  | unwrap
  | assertion
  deriving DecidableEq, Repr

/-- A computation that returns a value, returns an error, or panics. -/
inductive Outcome (ε α : Type) where
  | ok (value : α)
  | err (error : ε)
  | panic (cause : Panic)
  deriving DecidableEq, Repr

namespace Outcome

variable {ε α β : Type}

/-- Run the next step on the value, if there is one. -/
def andThen (x : Outcome ε α) (f : α → Outcome ε β) : Outcome ε β :=
  match x with
  | ok a => f a
  | err e => err e
  | panic p => panic p

instance : Monad (Outcome ε) where
  pure := ok
  bind := andThen

@[simp] theorem pure_eq (a : α) : (pure a : Outcome ε α) = ok a := rfl

@[simp] theorem ok_bind (a : α) (f : α → Outcome ε β) : (ok a >>= f) = f a := rfl

@[simp] theorem err_bind (e : ε) (f : α → Outcome ε β) : (err e >>= f) = err e := rfl

@[simp] theorem panic_bind (p : Panic) (f : α → Outcome ε β) : (panic p >>= f) = panic p := rfl

instance : LawfulMonad (Outcome ε) :=
  LawfulMonad.mk' (Outcome ε)
    (by intro _ x; cases x <;> rfl)
    (by intro _ _ _ _; rfl)
    (by intro _ _ _ x _ _; cases x <;> rfl)

theorem bind_eq_ok_iff (x : Outcome ε α) (f : α → Outcome ε β) (b : β) :
    (x >>= f) = ok b ↔ ∃ a, x = ok a ∧ f a = ok b := by
  cases x with
  | ok a => simp only [ok_bind, ok.injEq, exists_eq_left']
  | err e => simp only [err_bind, reduceCtorEq, false_and, exists_false]
  | panic p => simp only [panic_bind, reduceCtorEq, false_and, exists_false]

/-- The computation does not panic. -/
def Safe (x : Outcome ε α) : Prop :=
  ∀ p, x ≠ panic p

/-- The computation returns an error. -/
def IsErr (x : Outcome ε α) : Prop :=
  ∃ e, x = err e

@[simp] theorem safe_ok (a : α) : Safe (ok a : Outcome ε α) := by
  intro p h
  cases h

@[simp] theorem safe_err (e : ε) : Safe (err e : Outcome ε α) := by
  intro p h
  cases h

@[simp] theorem not_safe_panic (p : Panic) : ¬ Safe (panic p : Outcome ε α) := by
  intro h
  exact h p rfl

@[simp] theorem isErr_err (e : ε) : IsErr (err e : Outcome ε α) := ⟨e, rfl⟩

@[simp] theorem not_isErr_ok (a : α) : ¬ IsErr (ok a : Outcome ε α) := by
  rintro ⟨e, h⟩
  cases h

/-- A sequence is safe exactly when its first step is and the second is on
    whatever the first returned. -/
theorem safe_bind_iff (x : Outcome ε α) (f : α → Outcome ε β) :
    Safe (x >>= f) ↔ Safe x ∧ ∀ a, x = ok a → Safe (f a) := by
  cases x with
  | ok a => simp only [ok_bind, safe_ok, ok.injEq, forall_eq', true_and]
  | err e => simp only [err_bind, safe_err, reduceCtorEq, false_implies, implies_true, and_self]
  | panic p => simp only [panic_bind, not_safe_panic, false_and]

theorem safe_bind (x : Outcome ε α) (f : α → Outcome ε β) (hx : Safe x)
    (hf : ∀ a, x = ok a → Safe (f a)) : Safe (x >>= f) :=
  (safe_bind_iff x f).mpr ⟨hx, hf⟩

/-- What does not panic and does not return has failed. -/
theorem isErr_of_safe (x : Outcome ε α) (hs : Safe x) (hn : ∀ a, x ≠ ok a) : IsErr x := by
  cases x with
  | ok a => exact absurd rfl (hn a)
  | err e => exact isErr_err e
  | panic p => exact absurd hs (not_safe_panic p)

/-- What a computation that does not panic returns. -/
def toExcept : (x : Outcome ε α) → Safe x → Except ε α
  | .ok a, _ => .ok a
  | .err e, _ => .error e
  | .panic p, h => (not_safe_panic p h).elim

theorem toExcept_ok (x : Outcome ε α) (h : Safe x) (a : α) (ha : x = ok a) :
    x.toExcept h = .ok a := by
  subst ha
  rfl

theorem toExcept_err (x : Outcome ε α) (h : Safe x) (e : ε) (he : x = err e) :
    x.toExcept h = .error e := by
  subst he
  rfl

/-- Continuations only have to agree on what is returned. -/
theorem bind_congr_ok (x : Outcome ε α) (f g : α → Outcome ε β)
    (h : ∀ a, x = ok a → f a = g a) : (x >>= f) = (x >>= g) := by
  cases x with
  | ok a => exact h a rfl
  | err e => rfl
  | panic p => rfl

/-- Every error the computation can return has the property. -/
def Errs (P : ε → Prop) (x : Outcome ε α) : Prop :=
  ∀ e, x = err e → P e

@[simp] theorem errs_ok (P : ε → Prop) (a : α) : Errs P (ok a : Outcome ε α) := by
  intro e h
  cases h

@[simp] theorem errs_panic (P : ε → Prop) (p : Panic) : Errs P (panic p : Outcome ε α) := by
  intro e h
  cases h

@[simp] theorem errs_err (P : ε → Prop) (e : ε) : Errs P (err e : Outcome ε α) ↔ P e := by
  unfold Errs
  simp only [err.injEq, forall_eq']

/-- The errors of a sequence are the errors of its parts. -/
theorem errs_bind (P : ε → Prop) (x : Outcome ε α) (f : α → Outcome ε β) (hx : Errs P x)
    (hf : ∀ a, x = ok a → Errs P (f a)) : Errs P (x >>= f) := by
  cases x with
  | ok a => exact hf a rfl
  | err e => exact (errs_err P e).mpr ((errs_err P e).mp hx)
  | panic p => exact errs_panic P p

theorem errs_mono (P Q : ε → Prop) (x : Outcome ε α) (h : ∀ e, P e → Q e) (hx : Errs P x) :
    Errs Q x := fun e he => h e (hx e he)

/-- A loop that collects the results of steps that all return a value. -/
theorem mapM_eq_ok (l : List α) (f : α → Outcome ε β) (g : α → β)
    (h : ∀ a ∈ l, f a = ok (g a)) : l.mapM f = ok (l.map g) := by
  induction l with
  | nil => rfl
  | cons a l ih =>
      -- The head succeeds by hypothesis, the tail by induction.
      rw [List.mapM_cons, h a List.mem_cons_self, ih fun b hb => h b (List.mem_cons_of_mem _ hb)]
      rfl

/-- A loop that collects what each step returns, and goes the same way for each `k`. -/
theorem foldlM_collect {κ σ : Type} (step : κ → List β × σ → α → Outcome ε (List β × σ))
    (P : σ → Prop) (R : β → α → Prop)
    (hstep : ∀ done s a, P s → ∃ b s', (∀ k, step k (done, s) a = ok (done ++ [b], s')) ∧
      P s' ∧ R b a)
    (as : List α) (done : List β) (s : σ) (hs : P s) :
    ∃ bs s', (∀ k, as.foldlM (step k) (done, s) = ok (done ++ bs, s')) ∧
      List.Forall₂ R bs as := by
  induction as generalizing done s with
  | nil =>
      refine ⟨[], s, fun k => ?_, .nil⟩
      rw [List.foldlM_nil, List.append_nil]
      rfl
  | cons a as ih =>
      rcases hstep done s a hs with ⟨b, s', hfirst, hs', hb⟩
      rcases ih (done ++ [b]) s' hs' with ⟨bs, s'', hrest, hall⟩
      refine ⟨b :: bs, s'', fun k => ?_, .cons hb hall⟩
      rw [List.foldlM_cons, hfirst k, ok_bind, hrest k, List.append_assoc, List.singleton_append]

end Outcome

/-- Return the error when the condition holds, carry on otherwise. -/
def failIf {ε : Type} (c : Prop) [Decidable c] (e : ε) : Outcome ε Unit :=
  if c then .err e else .ok ()

/-- Like `failIf`, for an error whose text has to be computed first. -/
def failWith {ε : Type} (c : Prop) [Decidable c] (e : Outcome ε ε) : Outcome ε Unit :=
  if c then e.andThen .err else .ok ()

section FailIf

variable {ε : Type} (c : Prop) [Decidable c] (e : ε)

@[simp] theorem failIf_eq_ok_iff (u : Unit) : failIf c e = .ok u ↔ ¬ c := by
  unfold failIf
  by_cases h : c
  · simp only [h, if_true, reduceCtorEq, not_true_eq_false]
  · simp only [h, if_false, not_false_eq_true]

theorem failIf_eq_err_iff (e' : ε) : failIf c e = .err e' ↔ c ∧ e = e' := by
  unfold failIf
  by_cases h : c
  · simp only [h, if_true, Outcome.err.injEq, true_and]
  · simp only [h, if_false, reduceCtorEq, false_and]

theorem failIf_of_not (h : ¬ c) : failIf c e = .ok () := if_neg h

theorem failIf_of (h : c) : failIf c e = .err e := if_pos h

@[simp] theorem safe_failIf : (failIf c e).Safe := by
  unfold failIf
  by_cases h : c
  · simp only [h, if_true, Outcome.safe_err]
  · simp only [h, if_false, Outcome.safe_ok]

theorem errs_failIf (P : ε → Prop) (h : c → P e) : (failIf c e).Errs P := by
  intro e' he
  -- The error is returned only when the condition holds.
  rcases (failIf_eq_err_iff c e e').mp he with ⟨hc, rfl⟩
  exact h hc

theorem errs_failWith (P : ε → Prop) (x : Outcome ε ε) (hx : x.Errs P)
    (h : ∀ e, x = .ok e → P e) : (failWith c x).Errs P := by
  unfold failWith
  by_cases hc : c
  · rw [if_pos hc]
    exact Outcome.errs_bind P x _ hx fun e he => (Outcome.errs_err P e).mpr (h e he)
  · rw [if_neg hc]
    exact Outcome.errs_ok P ()

theorem failWith_of_not (x : Outcome ε ε) (h : ¬ c) : failWith c x = .ok () := if_neg h

theorem failWith_of (h : c) : failWith c (.ok e) = .err e := if_pos h

end FailIf

/-- Which meaning overflowing arithmetic has: debug builds panic, release
    builds wrap. -/
inductive Build where
  | debug
  | release
  deriving DecidableEq, Repr

/-- A 64-bit result: exact when it fits, and otherwise a panic or the residue
    depending on the build. -/
def Build.word {ε : Type} (build : Build) (n : Nat) : Outcome ε Nat :=
  if n < 2 ^ 64 then .ok n
  else match build with
    | .debug => .panic .overflow
    | .release => .ok (n % 2 ^ 64)

/-- `a + b` on a 64-bit unsigned integer. -/
def Build.add {ε : Type} (build : Build) (a b : Nat) : Outcome ε Nat :=
  build.word (a + b)

/-- `a * b` on a 64-bit unsigned integer. -/
def Build.mul {ε : Type} (build : Build) (a b : Nat) : Outcome ε Nat :=
  build.word (a * b)

/-- `a - b` on a 64-bit unsigned integer. -/
def Build.sub {ε : Type} (build : Build) (a b : Nat) : Outcome ε Nat :=
  if b ≤ a then .ok (a - b)
  else match build with
    | .debug => .panic .overflow
    | .release => .ok (2 ^ 64 + a - b)

/-- `a / b`, which panics on a zero divisor in every build. -/
def divide {ε : Type} (a b : Nat) : Outcome ε Nat :=
  if b = 0 then .panic .divideByZero else .ok (a / b)

/-- `a.checked_add(b)`. -/
def checkedAdd (a b : Nat) : Option Nat :=
  if a + b < 2 ^ 64 then some (a + b) else none

/-- `debug_assert!`, evaluated in debug builds only. -/
def Build.debugAssert {ε : Type} (build : Build) (c : Prop) [Decidable c] : Outcome ε Unit :=
  match build with
  | .debug => if c then .ok () else .panic .assertion
  | .release => .ok ()

section Arithmetic

variable {ε : Type} (build : Build) (a b : Nat)

theorem word_of_lt (n : Nat) (h : n < 2 ^ 64) : (build.word n : Outcome ε Nat) = .ok n :=
  if_pos h

theorem add_of_lt (h : a + b < 2 ^ 64) : (build.add a b : Outcome ε Nat) = .ok (a + b) :=
  word_of_lt build _ h

theorem mul_of_lt (h : a * b < 2 ^ 64) : (build.mul a b : Outcome ε Nat) = .ok (a * b) :=
  word_of_lt build _ h

theorem sub_of_le (h : b ≤ a) : (build.sub a b : Outcome ε Nat) = .ok (a - b) :=
  if_pos h

theorem divide_of_pos (h : 0 < b) : (divide a b : Outcome ε Nat) = .ok (a / b) :=
  if_neg (by omega)

theorem debugAssert_of (c : Prop) [Decidable c] (h : c) :
    (build.debugAssert c : Outcome ε Unit) = .ok () := by
  cases build with
  | debug => exact if_pos h
  | release => rfl

/-- Arithmetic returns no errors. -/
theorem errs_word (P : ε → Prop) (n : Nat) : (build.word n : Outcome ε Nat).Errs P := by
  unfold Build.word
  by_cases h : n < 2 ^ 64
  · rw [if_pos h]
    exact Outcome.errs_ok P _
  · rw [if_neg h]
    cases build with
    | debug => exact Outcome.errs_panic P _
    | release => exact Outcome.errs_ok P _

theorem errs_add (P : ε → Prop) : (build.add a b : Outcome ε Nat).Errs P := errs_word build P _

theorem errs_mul (P : ε → Prop) : (build.mul a b : Outcome ε Nat).Errs P := errs_word build P _

theorem errs_sub (P : ε → Prop) : (build.sub a b : Outcome ε Nat).Errs P := by
  unfold Build.sub
  by_cases h : b ≤ a
  · rw [if_pos h]
    exact Outcome.errs_ok P _
  · rw [if_neg h]
    cases build with
    | debug => exact Outcome.errs_panic P _
    | release => exact Outcome.errs_ok P _

theorem errs_divide (P : ε → Prop) : (divide a b : Outcome ε Nat).Errs P := by
  unfold divide
  by_cases h : b = 0
  · rw [if_pos h]
    exact Outcome.errs_panic P _
  · rw [if_neg h]
    exact Outcome.errs_ok P _

theorem errs_debugAssert (P : ε → Prop) (c : Prop) [Decidable c] :
    (build.debugAssert c : Outcome ε Unit).Errs P := by
  unfold Build.debugAssert
  cases build with
  | debug =>
      dsimp only
      split_ifs
      · exact Outcome.errs_ok P _
      · exact Outcome.errs_panic P _
  | release => exact Outcome.errs_ok P _

/-- In a release build every word result is a value, the residue. -/
theorem word_release (n : Nat) : (Build.release.word n : Outcome ε Nat) = .ok (n % 2 ^ 64) := by
  unfold Build.word
  by_cases h : n < 2 ^ 64
  -- A number that fits is its own residue.
  · rw [if_pos h, Nat.mod_eq_of_lt h]
  · rw [if_neg h]

theorem safe_word_debug_iff (n : Nat) :
    (Build.debug.word n : Outcome ε Nat).Safe ↔ n < 2 ^ 64 := by
  unfold Build.word
  by_cases h : n < 2 ^ 64
  · simp only [h, if_true, Outcome.safe_ok]
  · simp only [h, if_false, Outcome.not_safe_panic]

theorem safe_add_debug_iff :
    (Build.debug.add a b : Outcome ε Nat).Safe ↔ a + b < 2 ^ 64 :=
  safe_word_debug_iff _

theorem safe_mul_debug_iff :
    (Build.debug.mul a b : Outcome ε Nat).Safe ↔ a * b < 2 ^ 64 :=
  safe_word_debug_iff _

/-- In a debug build a sum is safe to go on from exactly when it fits. -/
theorem safe_add_bind_debug_iff {β : Type} (f : Nat → Outcome ε β) :
    (Build.debug.add a b >>= f).Safe ↔ a + b < 2 ^ 64 ∧ (f (a + b)).Safe := by
  rw [Outcome.safe_bind_iff, safe_add_debug_iff]
  -- A sum that is safe is exact, so the rest sees `a + b`.
  refine and_congr_right fun h => ?_
  rw [add_of_lt _ _ _ h]
  simp only [Outcome.ok.injEq, forall_eq']

/-- In a debug build a product is safe to go on from exactly when it fits. -/
theorem safe_mul_bind_debug_iff {β : Type} (f : Nat → Outcome ε β) :
    (Build.debug.mul a b >>= f).Safe ↔ a * b < 2 ^ 64 ∧ (f (a * b)).Safe := by
  rw [Outcome.safe_bind_iff, safe_mul_debug_iff]
  refine and_congr_right fun h => ?_
  rw [mul_of_lt _ _ _ h]
  simp only [Outcome.ok.injEq, forall_eq']

/-- A quotient is safe to go on from exactly when the divisor is not zero. -/
theorem safe_divide_bind_iff {β : Type} (f : Nat → Outcome ε β) :
    (divide a b >>= f).Safe ↔ b ≠ 0 ∧ (f (a / b)).Safe := by
  unfold divide
  by_cases h : b = 0
  -- A zero divisor panics before the rest is reached.
  · simp only [h, if_true, Outcome.panic_bind, Outcome.not_safe_panic, ne_eq, not_true_eq_false,
      false_and]
  · simp only [h, if_false, Outcome.ok_bind, ne_eq, not_false_eq_true, true_and]

end Arithmetic

end Lib
