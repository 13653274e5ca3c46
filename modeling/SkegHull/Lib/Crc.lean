import Mathlib.Data.BitVec
import Mathlib.Logic.Function.Iterate

/-!
# Cyclic Redundancy Checks

A reflected, bit-serial CRC over a register of any width, and what it detects.

The register is shifted down one bit at a time, and the polynomial is added
whenever a one falls out. That step is linear, and when the polynomial has its
top bit set the step loses nothing: a one that falls out leaves a one at the top.
So a run over a message is injective in the register it starts from
(`run_injective`), and a message no longer than the register acts on the register
as one addition followed by that many shifts (`run_eq_shifts`). The two together
are the burst theorem: two messages that differ only inside a window no wider
than the register leave different registers behind.

A checksum that is stored complemented behind its message turns a comparison of
two numbers into a property of one string. The register after message and stored
checksum is then the same constant for every message, `residue`. This is what lets
the burst theorem cover a window that reaches into the stored checksum.

## Main definitions

* `shift`: One bit of the register.
* `feed`, `run`: One symbol, and a string of symbols.
* `word`: The register a short message spells, first symbol lowest.
* `residue`: The register after a message and its complemented checksum.

## Theorems

* `shift_xor`, `shift_injective`: The step is linear and loses nothing.
* `run_injective`: Nor does a run.
* `run_eq_shifts`: A short message is one addition.
* `run_burst`: A short burst is seen.
* `run_append_eq_residue_iff`: The stored checksum is right exactly when the
  register ends at the residue.
-/

namespace Lib

namespace Crc

section

variable {w k : Nat} (poly : BitVec w)

/-- One bit of the reflected register. -/
def shift (s : BitVec w) : BitVec w :=
  if s.getLsbD 0 then (s >>> 1) ^^^ poly else s >>> 1

/-- One symbol: it is added to the register, which then shifts past it. -/
def feed (s : BitVec w) (b : BitVec k) : BitVec w := (shift poly)^[k] (s ^^^ b.setWidth w)

/-- The register after a string of symbols. -/
def run (s : BitVec w) (bs : List (BitVec k)) : BitVec w := bs.foldl (feed poly) s

/-- The register a string of symbols spells, the first symbol lowest. -/
def word (w : Nat) : List (BitVec k) → BitVec w
  | [] => 0#w
  | b :: bs => b.setWidth w ^^^ (word w bs <<< k)

/-- The register after any message and its complemented checksum. -/
def residue : BitVec w := (shift poly)^[w] (BitVec.allOnes w)

@[simp] theorem run_nil (s : BitVec w) : run poly s ([] : List (BitVec k)) = s := rfl

@[simp] theorem run_cons (s : BitVec w) (b : BitVec k) (bs : List (BitVec k)) :
    run poly s (b :: bs) = run poly (feed poly s b) bs := rfl

theorem run_append (s : BitVec w) (as bs : List (BitVec k)) :
    run poly s (as ++ bs) = run poly (run poly s as) bs := List.foldl_append

/-- The step is linear. -/
theorem shift_xor (a b : BitVec w) : shift poly (a ^^^ b) = shift poly a ^^^ shift poly b := by
  unfold shift
  rw [BitVec.getLsbD_xor, BitVec.ushiftRight_xor_distrib]
  cases a.getLsbD 0 <;> cases b.getLsbD 0 <;> simp
  · rw [BitVec.xor_assoc]
  · rw [BitVec.xor_assoc, BitVec.xor_assoc, BitVec.xor_comm poly (b >>> 1)]
  -- Both lose a one, and the polynomial cancels.
  · rw [BitVec.xor_assoc, ← BitVec.xor_assoc poly, BitVec.xor_comm poly, BitVec.xor_assoc,
      BitVec.xor_self, BitVec.xor_zero]

/-- A register that shifts to zero is zero: what falls out leaves its mark at the
    top. -/
theorem eq_zero_of_shift (hp : poly.msb = true) (s : BitVec w) (h : shift poly s = 0#w) :
    s = 0#w := by
  unfold shift at h
  by_cases h0 : s.getLsbD 0 = true
  · rw [if_pos h0, BitVec.xor_eq_zero_iff] at h
    -- The polynomial has its top bit set, a shifted register has not.
    have htop : (s >>> 1).msb = false := by simp
    rw [h, hp] at htop
    exact absurd htop (by decide)
  · rw [if_neg h0] at h
    apply BitVec.eq_of_getLsbD_eq
    intro i hi
    rw [BitVec.getLsbD_zero]
    cases i with
    | zero => simpa using h0
    | succ i =>
        have hbit := congrArg (fun v : BitVec w => v.getLsbD i) h
        simpa [Nat.add_comm 1 i] using hbit

theorem shift_injective (hp : poly.msb = true) : Function.Injective (shift poly) := by
  intro a b hab
  rw [← BitVec.xor_eq_zero_iff] at hab ⊢
  rw [← shift_xor] at hab
  exact eq_zero_of_shift poly hp _ hab

theorem shifts_xor (n : Nat) (a b : BitVec w) :
    (shift poly)^[n] (a ^^^ b) = (shift poly)^[n] a ^^^ (shift poly)^[n] b := by
  induction n generalizing a b with
  | zero => rfl
  | succ n ih => rw [Function.iterate_succ_apply, shift_xor, ih, ← Function.iterate_succ_apply,
      ← Function.iterate_succ_apply]

theorem shifts_injective (hp : poly.msb = true) (n : Nat) :
    Function.Injective ((shift poly)^[n]) := (shift_injective poly hp).iterate n

/-- Shifting down what was shifted up gives it back, if nothing was lost at the
    top. -/
theorem shifts_shiftLeft (n : Nat) (s : BitVec w) (h : s.toNat < 2 ^ (w - n)) (hn : n ≤ w) :
    (shift poly)^[n] (s <<< n) = s := by
  induction n generalizing s with
  | zero => simp
  | succ n ih =>
      have hlow : (s <<< (n + 1)).getLsbD 0 = false := by simp
      -- One step undoes one of the shifts.
      have hstep : shift poly (s <<< (n + 1)) = s <<< n := by
        unfold shift
        rw [hlow, if_neg (by decide)]
        apply BitVec.eq_of_toNat_eq
        have hbound : s.toNat * 2 ^ (n + 1) < 2 ^ w := by
          calc s.toNat * 2 ^ (n + 1) < 2 ^ (w - (n + 1)) * 2 ^ (n + 1) :=
                Nat.mul_lt_mul_of_pos_right h (Nat.two_pow_pos _)
            _ = 2 ^ w := by rw [← Nat.pow_add, Nat.sub_add_cancel hn]
        have hpow : 2 ^ (n + 1) = 2 ^ n * 2 := Nat.pow_succ 2 n
        rw [BitVec.toNat_ushiftRight, BitVec.toNat_shiftLeft, BitVec.toNat_shiftLeft,
          Nat.shiftLeft_eq, Nat.shiftLeft_eq, Nat.mod_eq_of_lt hbound, Nat.shiftRight_eq_div_pow,
          Nat.mod_eq_of_lt (by rw [hpow, ← Nat.mul_assoc] at hbound; omega), hpow, ← Nat.mul_assoc,
          Nat.pow_one, Nat.mul_div_cancel _ (by decide)]
      rw [Function.iterate_succ_apply, hstep]
      refine ih s (lt_of_lt_of_le h ?_) (by omega)
      exact Nat.pow_le_pow_right (by decide) (by omega)

/-- A symbol, and so a run, can be undone. -/
theorem feed_injective (hp : poly.msb = true) (b : BitVec k) :
    Function.Injective (fun s => feed poly s b) := by
  intro s t h
  exact (BitVec.xor_left_inj _).mp (shifts_injective poly hp k h)

theorem run_injective (hp : poly.msb = true) (bs : List (BitVec k)) :
    Function.Injective (fun s => run poly s bs) := by
  induction bs with
  | nil =>
      intro s t h
      exact h
  | cons b bs ih =>
      intro s t h
      exact feed_injective poly hp b (ih h)

/-! ### Short messages -/

/-- A short message spells a number that leaves the rest of the register
    clear. -/
theorem word_lt (bs : List (BitVec k)) (h : k * bs.length ≤ w) :
    (word w bs).toNat < 2 ^ (k * bs.length) := by
  induction bs with
  | nil => simp [word]
  | cons b bs ih =>
      rw [List.length_cons, Nat.mul_succ] at h ⊢
      have htail := ih (by omega)
      have hhead : (b.setWidth w).toNat < 2 ^ (k * bs.length + k) := by
        rw [BitVec.toNat_setWidth]
        refine lt_of_le_of_lt (Nat.mod_le _ _) (lt_of_lt_of_le b.isLt ?_)
        exact Nat.pow_le_pow_right (by decide) (by omega)
      have hshift : (word w bs <<< k).toNat < 2 ^ (k * bs.length + k) := by
        rw [BitVec.toNat_shiftLeft, Nat.shiftLeft_eq]
        refine lt_of_le_of_lt (Nat.mod_le _ _) ?_
        rw [Nat.pow_add]
        exact Nat.mul_lt_mul_of_pos_right htail (Nat.two_pow_pos k)
      rw [word, BitVec.toNat_xor]
      exact Nat.xor_lt_two_pow hhead hshift

/-- What stands behind the first symbol of a short message can be shifted up past
    it and down again. -/
theorem shifts_word (bs : List (BitVec k)) (h : k * bs.length + k ≤ w) :
    (shift poly)^[k] (word w bs <<< k) = word w bs := by
  refine shifts_shiftLeft poly k _ (lt_of_lt_of_le (word_lt bs (by omega)) ?_) (by omega)
  exact Nat.pow_le_pow_right (by decide) (by omega)

/-- A message no longer than the register is one addition and its shifts. -/
theorem run_eq_shifts (s : BitVec w) (bs : List (BitVec k)) (h : k * bs.length ≤ w) :
    run poly s bs = (shift poly)^[k * bs.length] (s ^^^ word w bs) := by
  induction bs generalizing s with
  | nil => simp [word]
  | cons b bs ih =>
      rw [List.length_cons, Nat.mul_succ] at h ⊢
      -- The symbols behind the first are added before its shifts rather than after.
      have hfirst : feed poly s b ^^^ word w bs = (shift poly)^[k] (s ^^^ word w (b :: bs)) := by
        rw [feed, word, ← BitVec.xor_assoc, shifts_xor poly k _ (word w bs <<< k),
          shifts_word poly bs h]
      rw [run_cons, ih _ (by omega), hfirst, Function.iterate_add_apply]

/-- Short messages of one length spell different numbers. -/
theorem word_injective (as bs : List (BitVec k)) (hlen : as.length = bs.length)
    (h : k * as.length ≤ w) (heq : word w as = word w bs) : as = bs := by
  induction as generalizing bs with
  | nil => exact (List.length_eq_zero_iff.mp hlen.symm).symm
  | cons a as ih =>
      cases bs with
      | nil => exact absurd hlen (by simp)
      | cons b bs =>
          simp only [List.length_cons, Nat.add_right_cancel_iff] at hlen
          rw [List.length_cons, Nat.mul_succ] at h
          simp only [word] at heq
          -- The low bits are the first symbol.
          have hhead : a = b := by
            apply BitVec.eq_of_getLsbD_eq
            intro i hi
            have hbit := congrArg (fun v : BitVec w => v.getLsbD i) heq
            simpa [hi, show i < w by omega] using hbit
          -- The others are the rest of the message, shifted up.
          have htail : word w as <<< k = word w bs <<< k := by
            rw [hhead] at heq
            exact (BitVec.xor_right_inj _).mp heq
          have hrest := congrArg ((shift 0#w)^[k]) htail
          rw [shifts_word 0#w as h, shifts_word 0#w bs (by rw [← hlen]; exact h)] at hrest
          rw [hhead, ih bs hlen (by omega) hrest]

/-- Two messages that differ only in a window no wider than the register leave
    different registers behind. -/
theorem run_burst (hp : poly.msb = true) (s : BitVec w) (front as bs back : List (BitVec k))
    (hlen : as.length = bs.length) (hw : k * as.length ≤ w)
    (h : run poly s (front ++ (as ++ back)) = run poly s (front ++ (bs ++ back))) : as = bs := by
  simp only [run_append] at h
  -- Behind the window the two runs take the same steps.
  have hwindow := run_injective poly hp back h
  rw [run_eq_shifts poly _ as hw, run_eq_shifts poly _ bs (by rw [← hlen]; exact hw), hlen]
    at hwindow
  exact word_injective as bs hlen hw
    ((BitVec.xor_right_inj _).mp (shifts_injective poly hp _ hwindow))

/-- A checksum as wide as the register is the complement of the register exactly
    when the register ends at the residue. -/
theorem run_append_eq_residue_iff (hp : poly.msb = true) (s : BitVec w)
    (m t : List (BitVec k)) (ht : k * t.length = w) :
    run poly s (m ++ t) = residue poly ↔ word w t = ~~~ run poly s m := by
  rw [run_append, run_eq_shifts poly _ t (le_of_eq ht), residue, ht,
    (shifts_injective poly hp w).eq_iff]
  constructor
  · intro h
    rw [← BitVec.xor_allOnes, ← h, ← BitVec.xor_assoc, BitVec.xor_self, BitVec.zero_xor]
  · intro h
    rw [h, ← BitVec.xor_allOnes, ← BitVec.xor_assoc, BitVec.xor_self, BitVec.zero_xor]

end

end Crc

end Lib
