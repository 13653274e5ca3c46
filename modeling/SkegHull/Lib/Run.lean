import Mathlib.Data.Nat.Count

/-!
# Deterministic Runs

What a quantity that is known at every moment of a run says about the events of
the run. A potential that drops by one at every event of a kind bounds how often
they happen, and tells exactly how often if it does not drop in between. A
measure that drops until the run is over shows that it comes to an end.

## Theorems

* `count_add_potential`: The potential that is gone is the number of events.
* `count_add_potential_le`: It is a bound if more than the events uses it up.
* `exists_of_decreasing`: A measure that drops ends the run.
* `iterate_trans`: What a run leads to, and what that leads to.
-/

namespace Lib

section

variable (event : Nat → Bool) (potential : Nat → Nat)

theorem count_succ_toNat (n : Nat) : Nat.count (fun j => event j = true) (n + 1)
    = Nat.count (fun j => event j = true) n + (event n).toNat := by
  rw [Nat.count_succ]
  cases event n <;> rfl

theorem count_add_potential (h : ∀ n, potential (n + 1) + (event n).toNat = potential n) (n : Nat) :
    Nat.count (fun j => event j = true) n + potential n = potential 0 := by
  induction n with
  | zero => rw [Nat.count_zero, Nat.zero_add]
  | succ n ih =>
      rw [count_succ_toNat]
      have hn := h n
      omega

theorem count_add_potential_le (h : ∀ n, potential (n + 1) + (event n).toNat ≤ potential n)
    (n : Nat) : Nat.count (fun j => event j = true) n + potential n ≤ potential 0 := by
  induction n with
  | zero => rw [Nat.count_zero, Nat.zero_add]
  | succ n ih =>
      rw [count_succ_toNat]
      have hn := h n
      omega

end

theorem exists_of_decreasing (ended : Nat → Prop) (measure : Nat → Nat)
    (h : ∀ n, ended n ∨ measure (n + 1) < measure n) : ∃ n, ended n := by
  by_contra hnever
  rw [not_exists] at hnever
  -- While the run goes on the measure pays for every step.
  have hle : ∀ n, measure n + n ≤ measure 0 := by
    intro n
    induction n with
    | zero => exact Nat.le_refl _
    | succ n ih =>
        have hn := (h n).resolve_left (hnever n)
        omega
  have hlast := hle (measure 0 + 1)
  omega

theorem iterate_trans {α : Type} {f : α → α} {a b c : α} (hab : ∃ n, f^[n] a = b)
    (hbc : ∃ n, f^[n] b = c) : ∃ n, f^[n] a = c := by
  rcases hab with ⟨m, rfl⟩
  rcases hbc with ⟨n, rfl⟩
  exact ⟨n + m, Function.iterate_add_apply f n m a⟩

end Lib
