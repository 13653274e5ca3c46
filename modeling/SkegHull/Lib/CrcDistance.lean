import SkegHull.Lib.Crc
import Mathlib.Dynamics.PeriodicPts.Lemmas
import Mathlib.Algebra.Group.Nat.Even

/-!
# The Distance of a Cyclic Redundancy Check

How many bits two messages of one length must differ in before a CRC can take one
for the other.

The register is linear, so what matters is the pattern of the bits in which the two
differ: they collide exactly when the pattern, run from a register of zeros, ends
at zeros (`stream_eq_iff`). A pattern of one bit never does, since the step loses
nothing. A pattern of two bits is one bit, shifted on until the second is added to
it, so it does exactly when that many steps bring the register of one bit back to
itself: when the period of that register divides the distance of the two
(`stream_pair_eq_zero_iff`). And when the polynomial has an odd number of ones, a
step keeps the parity of the register, so a pattern of an odd number of bits never
ends at zeros (`parity_stream`). The three together give the code its distance of
four (`four_le_distance`), for messages no longer than the period.

The period is a large number, and counting up to it is out of the question. A power
of the step is known from what it does to a single register, the one whose only bit
is the highest (`blend_shifts`), so a power can be squared by one pass over the bits
of that register, and the period is reached by repeated squaring
(`square_iterate`).

## Main definitions

* `bitsOf`, `bits`: The bits of a symbol, and of a message.
* `stream`: The register after a string of bits.
* `parity`, `distance`: Of strings of bits.
* `flip`, `flips`: A message with one bit the other way, and a string of bits with several.
* `blend`, `square`: A power of the step, applied to a register and to itself.

## Theorems

* `run_eq_stream`: The register takes a message in bit by bit.
* `parity_stream`: The parity of the register is the parity of what it was fed.
* `stream_pair_eq_zero_iff`, `stream_flips_iff`: Which pairs of flipped bits go unseen.
* `four_le_distance`: Colliding messages differ in four bits at least.
* `square_iterate`: Powers of the step by repeated squaring.
-/

namespace Lib

namespace Crc

/-! ### Strings of bits -/

/-- The bits of a symbol or a register, lowest first. -/
def bitsOf {k : Nat} (b : BitVec k) : List Bool := (List.range k).map b.getLsbD

/-- The bits of a message, in the order the register takes them in. -/
def bits {k : Nat} (bs : List (BitVec k)) : List Bool := bs.flatMap bitsOf

/-- Whether the number of ones is odd. -/
def parity (l : List Bool) : Bool := l.foldr xor false

/-- The number of places in which two strings of bits differ. -/
def distance (l l' : List Bool) : Nat := (List.zipWith xor l l').count true

@[simp] theorem length_bitsOf {k : Nat} (b : BitVec k) : (bitsOf b).length = k := by
  simp [bitsOf]

@[simp] theorem getElem_bitsOf {k : Nat} (b : BitVec k) (i : Nat) (hi : i < (bitsOf b).length) :
    (bitsOf b)[i] = b.getLsbD i := by
  simp [bitsOf]

@[simp] theorem bits_nil {k : Nat} : bits ([] : List (BitVec k)) = [] := rfl

@[simp] theorem bits_cons {k : Nat} (b : BitVec k) (bs : List (BitVec k)) :
    bits (b :: bs) = bitsOf b ++ bits bs := rfl

theorem length_bits {k : Nat} (bs : List (BitVec k)) : (bits bs).length = k * bs.length := by
  induction bs with
  | nil => rfl
  | cons b bs ih =>
      rw [bits_cons, List.length_append, length_bitsOf, ih, List.length_cons, Nat.mul_succ,
        Nat.add_comm]

theorem bitsOf_injective {k : Nat} : Function.Injective (bitsOf (k := k)) := by
  intro a b h
  apply BitVec.eq_of_getLsbD_eq
  intro i hi
  have hbit := congrArg (fun l : List Bool => l[i]?) h
  simpa [bitsOf, hi] using hbit

/-- Messages with the same bits are the same. -/
theorem bits_injective {k : Nat} (as bs : List (BitVec k)) (hlen : as.length = bs.length)
    (h : bits as = bits bs) : as = bs := by
  induction as generalizing bs with
  | nil => exact (List.length_eq_zero_iff.mp hlen.symm).symm
  | cons a as ih =>
      cases bs with
      | nil => exact absurd hlen (by simp)
      | cons b bs =>
          rw [bits_cons, bits_cons] at h
          have hsplit := List.append_inj h (by rw [length_bitsOf, length_bitsOf])
          rw [bitsOf_injective hsplit.1, ih bs (Nat.succ.inj hlen) hsplit.2]

theorem bitsOf_xor {k : Nat} (a b : BitVec k) :
    bitsOf (a ^^^ b) = List.zipWith xor (bitsOf a) (bitsOf b) := by
  apply List.ext_getElem
  · simp
  · intro i hi hi'
    simp

/-! ### Parity -/

@[simp] theorem parity_nil : parity [] = false := rfl

@[simp] theorem parity_cons (b : Bool) (l : List Bool) : parity (b :: l) = xor b (parity l) := rfl

theorem parity_append (l l' : List Bool) : parity (l ++ l') = xor (parity l) (parity l') := by
  induction l with
  | nil => rw [List.nil_append, parity_nil, Bool.false_xor]
  | cons b l ih => rw [List.cons_append, parity_cons, parity_cons, ih, Bool.xor_assoc]

theorem parity_zipWith (l l' : List Bool) (hlen : l.length = l'.length) :
    parity (List.zipWith xor l l') = xor (parity l) (parity l') := by
  induction l generalizing l' with
  | nil => rw [List.length_eq_zero_iff.mp hlen.symm]; rfl
  | cons b l ih =>
      cases l' with
      | nil => exact absurd hlen (by simp)
      | cons b' l' =>
          rw [List.zipWith_cons_cons, parity_cons, parity_cons, parity_cons,
            ih l' (Nat.succ.inj hlen)]
          cases b <;> cases b' <;> cases parity l <;> cases parity l' <;> rfl

theorem parity_eq_true_iff (l : List Bool) : parity l = true ↔ Odd (l.count true) := by
  induction l with
  | nil => simp
  | cons b l ih =>
      cases b
      · rw [parity_cons, Bool.false_xor, ih, List.count_cons_of_ne (by decide)]
      · rw [parity_cons, Bool.true_xor, List.count_cons_self, Nat.odd_add_one, ← ih,
          Bool.not_eq_true', Bool.not_eq_true]

theorem parity_bitsOf_xor {k : Nat} (a b : BitVec k) :
    parity (bitsOf (a ^^^ b)) = xor (parity (bitsOf a)) (parity (bitsOf b)) := by
  rw [bitsOf_xor, parity_zipWith _ _ (by rw [length_bitsOf, length_bitsOf])]

/-! ### Where strings of bits differ -/

theorem distance_eq_zero_iff (l l' : List Bool) (hlen : l.length = l'.length) :
    distance l l' = 0 ↔ l = l' := by
  unfold distance
  induction l generalizing l' with
  | nil =>
      rw [List.length_eq_zero_iff.mp hlen.symm]
      exact ⟨fun _ => rfl, fun _ => rfl⟩
  | cons b l ih =>
      cases l' with
      | nil => exact absurd hlen (by simp)
      | cons b' l' =>
          have htail := ih l' (Nat.succ.inj hlen)
          cases b <;> cases b' <;> simp [htail]

/-- A string of zeros. -/
theorem eq_zeros (l : List Bool) (h : l.count true = 0) : l = List.replicate l.length false := by
  rw [List.eq_replicate_iff]
  refine ⟨rfl, fun b hb => ?_⟩
  cases b
  · rfl
  · exact absurd hb (List.count_eq_zero.mp h)

/-- The first one, with the zeros in front of it. -/
theorem exists_first (l : List Bool) (n : Nat) (h : l.count true = n + 1) :
    ∃ front back, l = List.replicate front false ++ true :: back ∧ back.count true = n := by
  induction l with
  | nil => exact absurd h (by simp)
  | cons b l ih =>
      cases b
      · rw [List.count_cons_of_ne (by decide)] at h
        rcases ih h with ⟨front, back, rfl, hback⟩
        exact ⟨front + 1, back, rfl, hback⟩
      · rw [List.count_cons_self] at h
        exact ⟨0, l, rfl, Nat.succ.inj h⟩

/-! ### Flipped bits -/

/-- A message with one bit the other way. -/
def flip {k : Nat} (bs : List (BitVec k)) (i : Nat) : List (BitVec k) :=
  bs.modify (i / k) (· ^^^ BitVec.twoPow k (i % k))

@[simp] theorem length_flip {k : Nat} (bs : List (BitVec k)) (i : Nat) :
    (flip bs i).length = bs.length :=
  List.length_modify ..

theorem bits_flip {k : Nat} (bs : List (BitVec k)) (i : Nat) (hk : 0 < k) :
    bits (flip bs i) = (bits bs).modify i not := by
  induction bs generalizing i with
  | nil => simp [flip]
  | cons b bs ih =>
      apply List.ext_getElem?
      intro j
      rw [List.getElem?_modify]
      by_cases hi : i < k
      · have hflip : flip (b :: bs) i = (b ^^^ BitVec.twoPow k i) :: bs := by
          rw [flip, Nat.div_eq_of_lt hi, Nat.mod_eq_of_lt hi]
          rfl
        rw [hflip, bits_cons, bits_cons, List.getElem?_append, List.getElem?_append, length_bitsOf,
          length_bitsOf]
        by_cases hj : j < k
        · rw [if_pos hj, if_pos hj, List.getElem?_eq_getElem (by simpa using hj),
            List.getElem?_eq_getElem (by simpa using hj), getElem_bitsOf, getElem_bitsOf,
            BitVec.getLsbD_xor, BitVec.getLsbD_twoPow]
          by_cases hij : i = j
          · simp [hij, hj]
          · simp [hij]
        · simp [hj, show i ≠ j by omega]
      · have hflip : flip (b :: bs) i = b :: flip bs (i - k) := by
          rw [flip, Nat.div_eq_sub_div hk (by omega), Nat.mod_eq_sub_mod (by omega)]
          rfl
        rw [hflip, bits_cons, bits_cons, List.getElem?_append, List.getElem?_append, length_bitsOf,
          ih]
        by_cases hj : j < k
        · simp [hj, show i ≠ j by omega]
        · rw [if_neg hj, if_neg hj, List.getElem?_modify]
          have hplace : i - k = j - k ↔ i = j := by omega
          simp only [hplace]

/-- A string of bits with some of them the other way. -/
def flips (l : List Bool) (places : List Nat) : List Bool :=
  places.foldr (fun i l => l.modify i not) l

@[simp] theorem length_flips (l : List Bool) (places : List Nat) :
    (flips l places).length = l.length := by
  induction places with
  | nil => rfl
  | cons i places ih => rw [flips, List.foldr_cons, List.length_modify, ← flips, ih]

/-- A place that is not flipped. -/
theorem getElem?_flips (l : List Bool) (places : List Nat) (i : Nat) (hi : i ∉ places) :
    (flips l places)[i]? = l[i]? := by
  induction places with
  | nil => rfl
  | cons p places ih =>
      rw [List.mem_cons, not_or] at hi
      rw [flips, List.foldr_cons, ← flips, List.getElem?_modify, ih hi.2]
      simp [Ne.symm hi.1]

/-- A place where two strings agreed is a place more where they differ. -/
theorem distance_modify (l l' : List Bool) (hlen : l.length = l'.length) (i : Nat)
    (hi : i < l.length) (heq : l'[i]? = l[i]?) :
    distance l (l'.modify i not) = distance l l' + 1 := by
  unfold distance
  induction l generalizing l' i with
  | nil => exact absurd hi (by simp)
  | cons b l ih =>
      cases l' with
      | nil => exact absurd hlen (by simp)
      | cons b' l' =>
          cases i with
          | zero =>
              have hb : b' = b := by simpa using heq
              subst hb
              cases b' <;> simp
          | succ i =>
              have htail := ih l' (Nat.succ.inj hlen) i (by simpa using hi) (by simpa using heq)
              rw [List.modify_succ_cons, List.zipWith_cons_cons, List.zipWith_cons_cons,
                List.count_cons, List.count_cons, htail, Nat.add_right_comm]

/-- Different places count. -/
theorem distance_flips (l : List Bool) (places : List Nat) (hnodup : places.Nodup)
    (hlt : ∀ i ∈ places, i < l.length) : distance l (flips l places) = places.length := by
  induction places with
  | nil => exact (distance_eq_zero_iff l l rfl).mpr rfl
  | cons i places ih =>
      rcases List.nodup_cons.mp hnodup with ⟨hi, hrest⟩
      rw [flips, List.foldr_cons, ← flips, distance_modify l _ (length_flips l places).symm i
        (hlt i List.mem_cons_self) (getElem?_flips l places i hi),
        ih hrest fun p hp => hlt p (List.mem_cons_of_mem _ hp), List.length_cons]

/-- Two flipped bits, as a pattern of differences. -/
theorem zipWith_flips (l : List Bool) (i j : Nat) (hij : i < j) (hj : j < l.length) :
    List.zipWith xor l ((l.modify i not).modify j not)
      = List.replicate i false ++ true ::
        (List.replicate (j - i - 1) false ++ true :: List.replicate (l.length - j - 1) false) := by
  apply List.ext_getElem
  · simp
    omega
  · intro p hp hp'
    simp only [List.getElem_zipWith, List.getElem_modify, List.getElem_append, List.getElem_cons,
      List.getElem_replicate, List.length_replicate]
    rcases Nat.lt_trichotomy p i with hlt | rfl | hgt
    · simp [hlt, show ¬ i = p by omega, show ¬ j = p by omega]
    · simp [show ¬ j = p by omega]
    · rcases Nat.lt_trichotomy p j with hlt' | rfl | hgt'
      · simp [show ¬ p < i by omega, show ¬ p - i = 0 by omega, show p - i - 1 < j - i - 1 by omega,
          show ¬ i = p by omega, show ¬ j = p by omega]
      · simp [show ¬ p < i by omega, show ¬ p - i = 0 by omega, show ¬ i = p by omega]
      · simp [show ¬ p < i by omega, show ¬ p - i = 0 by omega, show ¬ i = p by omega,
          show ¬ j = p by omega, show ¬ p - i - 1 < j - i - 1 by omega,
          show ¬ p - i - 1 - (j - i - 1) = 0 by omega]

section

variable {w k : Nat} (poly : BitVec w)

/-! ### One bit at a time -/

/-- A bit, as it is added to the register. -/
def bit (w : Nat) (b : Bool) : BitVec w := if b then 1#w else 0#w

/-- The register after a string of bits. -/
def stream (s : BitVec w) (l : List Bool) : BitVec w :=
  l.foldl (fun s b => shift poly (s ^^^ bit w b)) s

@[simp] theorem stream_nil (s : BitVec w) : stream poly s [] = s := rfl

@[simp] theorem stream_cons (s : BitVec w) (b : Bool) (l : List Bool) :
    stream poly s (b :: l) = stream poly (shift poly (s ^^^ bit w b)) l := rfl

theorem stream_append (s : BitVec w) (l l' : List Bool) :
    stream poly s (l ++ l') = stream poly (stream poly s l) l' := List.foldl_append

theorem bit_xor (a b : Bool) : bit w (xor a b) = bit w a ^^^ bit w b := by
  cases a <;> cases b <;> simp [bit]

theorem getLsbD_bit (b : Bool) (i : Nat) :
    (bit w b).getLsbD i = (decide (i < w) && (decide (i = 0) && b)) := by
  cases b
  · simp [bit]
  · by_cases hi : i = 0
    · simp [bit, hi]
    · simp [bit, hi, BitVec.getLsbD_one]

/-- The first bits of a symbol, in a register. -/
theorem stream_range (hk : k ≤ w) (s : BitVec w) (b : BitVec k) (n : Nat) (hn : n ≤ k) :
    stream poly s ((List.range n).map b.getLsbD)
      = (shift poly)^[n] (s ^^^ (b.setWidth n).setWidth w) := by
  induction n with
  | zero =>
      have hzero : (b.setWidth 0).setWidth w = 0#w := by
        apply BitVec.eq_of_getLsbD_eq
        intro i hi
        simp
      rw [hzero, BitVec.xor_zero]
      rfl
  | succ n ih =>
      -- The next bit is added at the bottom, or equally at its place before the shifts.
      have hup : (shift poly)^[n] (bit w (b.getLsbD n) <<< n) = bit w (b.getLsbD n) := by
        refine shifts_shiftLeft poly n _ ?_ (by omega)
        cases b.getLsbD n
        · simp [bit]
        · simp only [bit, if_true, BitVec.toNat_ofNat]
          rw [Nat.mod_eq_of_lt (Nat.one_lt_two_pow (by omega))]
          exact Nat.one_lt_two_pow (by omega)
      have hlow : (b.setWidth (n + 1)).setWidth w
          = (b.setWidth n).setWidth w ^^^ bit w (b.getLsbD n) <<< n := by
        apply BitVec.eq_of_getLsbD_eq
        intro i hi
        rw [BitVec.getLsbD_xor, BitVec.getLsbD_shiftLeft, getLsbD_bit]
        simp only [BitVec.getLsbD_setWidth, hi, decide_true, Bool.true_and]
        rcases Nat.lt_trichotomy i n with hlt | rfl | hgt
        · simp [hlt, Nat.lt_succ_of_lt hlt]
        · simp [show 0 < w by omega]
        · simp [show ¬ i < n + 1 by omega, show ¬ i < n by omega, show i - n ≠ 0 by omega]
      rw [List.range_succ, List.map_append, stream_append, ih (by omega), List.map_singleton,
        stream_cons, stream_nil, hlow, ← BitVec.xor_assoc, Function.iterate_succ_apply',
        shifts_xor poly n _ (bit w (b.getLsbD n) <<< n), hup]

/-- A symbol is its bits. -/
theorem feed_eq_stream (hk : k ≤ w) (s : BitVec w) (b : BitVec k) :
    feed poly s b = stream poly s (bitsOf b) := by
  rw [bitsOf, stream_range poly hk s b k (le_refl k), BitVec.setWidth_eq, feed]

/-- The register takes a message in bit by bit. -/
theorem run_eq_stream (hk : k ≤ w) (s : BitVec w) (bs : List (BitVec k)) :
    run poly s bs = stream poly s (bits bs) := by
  induction bs generalizing s with
  | nil => rfl
  | cons b bs ih => rw [run_cons, ih, feed_eq_stream poly hk, bits_cons, stream_append]

/-- Runs over two strings add up. -/
theorem stream_xor (s t : BitVec w) (l l' : List Bool) (hlen : l.length = l'.length) :
    stream poly (s ^^^ t) (List.zipWith xor l l') = stream poly s l ^^^ stream poly t l' := by
  induction l generalizing s t l' with
  | nil =>
      rw [List.length_eq_zero_iff.mp hlen.symm]
      rfl
  | cons b l ih =>
      cases l' with
      | nil => exact absurd hlen (by simp)
      | cons b' l' =>
          have hadd : s ^^^ t ^^^ (bit w b ^^^ bit w b')
              = (s ^^^ bit w b) ^^^ (t ^^^ bit w b') := by
            rw [BitVec.xor_assoc, BitVec.xor_assoc, ← BitVec.xor_assoc t, BitVec.xor_comm t,
              BitVec.xor_assoc (bit w b)]
          rw [List.zipWith_cons_cons, stream_cons, bit_xor, hadd, shift_xor,
            ih _ _ l' (Nat.succ.inj hlen), stream_cons, stream_cons]

/-- Two strings leave the same register exactly when the pattern of their differences
    ends at zeros. -/
theorem stream_eq_iff (s : BitVec w) (l l' : List Bool) (hlen : l.length = l'.length) :
    stream poly s l = stream poly s l' ↔ stream poly 0#w (List.zipWith xor l l') = 0#w := by
  have hdiff := stream_xor poly s s l l' hlen
  rw [BitVec.xor_self] at hdiff
  rw [hdiff, BitVec.xor_eq_zero_iff]

@[simp] theorem stream_zeros (s : BitVec w) (n : Nat) :
    stream poly s (List.replicate n false) = (shift poly)^[n] s := by
  induction n generalizing s with
  | zero => rfl
  | succ n ih =>
      rw [List.replicate_succ, stream_cons, ih, Function.iterate_succ_apply, bit,
        if_neg (by decide), BitVec.xor_zero]

@[simp] theorem shifts_zero (n : Nat) : (shift poly)^[n] 0#w = 0#w := by
  apply Function.iterate_fixed
  simp [shift]

/-- The register of a single one, after the zeros in front of it. -/
theorem stream_first (front : Nat) (back : List Bool) :
    stream poly 0#w (List.replicate front false ++ true :: back)
      = stream poly (shift poly 1#w) back := by
  rw [stream_append, stream_zeros, shifts_zero, stream_cons, bit, if_pos rfl, BitVec.zero_xor]

/-- Two flipped bits go unseen exactly when the steps between them are a multiple of the
    period. -/
theorem stream_pair_eq_zero_iff (hp : poly.msb = true) (front gap back : Nat) :
    stream poly 0#w (List.replicate front false ++ true ::
      (List.replicate gap false ++ true :: List.replicate back false)) = 0#w ↔
      Function.minimalPeriod (shift poly) 1#w ∣ gap + 1 := by
  rw [stream_first, stream_append, stream_zeros, ← Function.iterate_succ_apply, stream_cons,
    stream_zeros, ← Function.iterate_succ_apply, bit, if_pos rfl]
  constructor
  · intro h
    rw [← shifts_zero poly (back + 1)] at h
    exact Function.IsPeriodicPt.minimalPeriod_dvd
      (BitVec.xor_eq_zero_iff.mp (shifts_injective poly hp _ h))
  · intro h
    have hperiod : (shift poly)^[gap + 1] 1#w = 1#w :=
      Function.isPeriodicPt_iff_minimalPeriod_dvd.mpr h
    rw [hperiod, BitVec.xor_self, shifts_zero]

/-- The same, of a string of bits and two places in it. -/
theorem stream_flips_iff (hp : poly.msb = true) (s : BitVec w) (l : List Bool) (i j : Nat)
    (hij : i < j) (hj : j < l.length) :
    stream poly s ((l.modify i not).modify j not) = stream poly s l ↔
      Function.minimalPeriod (shift poly) 1#w ∣ j - i := by
  rw [eq_comm, stream_eq_iff poly s l _ (by rw [List.length_modify, List.length_modify]),
    zipWith_flips l i j hij hj, stream_pair_eq_zero_iff poly hp,
    Nat.sub_add_cancel (by omega : 1 ≤ j - i)]

/-! ### Parity of the register -/

/-- A step drops the lowest bit and, when it was a one, adds the ones of the polynomial.
    An odd number of them makes up for it. -/
theorem parity_shift (hodd : parity (bitsOf poly) = true) (s : BitVec w) :
    parity (bitsOf (shift poly s)) = parity (bitsOf s) := by
  cases w with
  | zero => rfl
  | succ v =>
      have hsplit : bitsOf s = s.getLsbD 0 :: (bitsOf (s >>> 1)).take v := by
        apply List.ext_getElem
        · simp
        · intro i hi hi'
          cases i with
          | zero => simp
          | succ i => simp [Nat.add_comm 1 i]
      -- Nothing comes in at the top.
      have hdrop : (bitsOf (s >>> 1)).drop v = [false] := by
        apply List.ext_getElem
        · simp
        · intro i hi hi'
          have hzero : i = 0 := by simpa using hi
          subst hzero
          have hbeyond : s.getLsbD (1 + v) = false := BitVec.getLsbD_of_ge s (1 + v) (by omega)
          simpa only [List.getElem_drop, Nat.add_zero, getElem_bitsOf, BitVec.getLsbD_ushiftRight,
            List.getElem_cons_zero] using hbeyond
      have hdown : parity (bitsOf (s >>> 1)) = parity ((bitsOf (s >>> 1)).take v) := by
        conv_lhs => rw [← List.take_append_drop v (bitsOf (s >>> 1)), parity_append, hdrop]
        simp
      rw [hsplit, parity_cons, ← hdown]
      unfold shift
      cases s.getLsbD 0
      · rw [if_neg (by decide), Bool.false_xor]
      · rw [if_pos rfl, parity_bitsOf_xor, hodd, Bool.true_xor, Bool.xor_true]

/-- The parity of the register is the parity of all that went into it. -/
theorem parity_stream (hodd : parity (bitsOf poly) = true) (hw : 0 < w) (s : BitVec w)
    (l : List Bool) :
    parity (bitsOf (stream poly s l)) = xor (parity (bitsOf s)) (parity l) := by
  have hbit : ∀ b, parity (bitsOf (bit w b)) = b := by
    intro b
    cases w with
    | zero => exact absurd hw (by decide)
    | succ v =>
        have hbits : bitsOf (bit (v + 1) b) = b :: List.replicate v false := by
          apply List.ext_getElem
          · simp
          · intro i hi hi'
            cases i with
            | zero => rw [getElem_bitsOf, getLsbD_bit]; simp
            | succ i => rw [getElem_bitsOf, getLsbD_bit]; simp
        have hzeros : ∀ n, parity (List.replicate n false) = false := by
          intro n
          induction n with
          | zero => rfl
          | succ n ih => rw [List.replicate_succ, parity_cons, ih, Bool.false_xor]
        rw [hbits, parity_cons, hzeros, Bool.xor_false]
  induction l generalizing s with
  | nil => rw [stream_nil, parity_nil, Bool.xor_false]
  | cons b l ih =>
      rw [stream_cons, ih, parity_shift poly hodd, parity_bitsOf_xor, hbit, parity_cons,
        Bool.xor_assoc]

/-- Messages that leave the same register differ in an even number of bits. -/
theorem even_distance (hodd : parity (bitsOf poly) = true) (hw : 0 < w) (s : BitVec w)
    (l l' : List Bool) (hlen : l.length = l'.length)
    (h : stream poly s l = stream poly s l') : Even (distance l l') := by
  have hzero := parity_stream poly hodd hw 0#w (List.zipWith xor l l')
  rw [(stream_eq_iff poly s l l' hlen).mp h] at hzero
  rw [← Nat.not_odd_iff_even, distance, ← parity_eq_true_iff]
  intro htrue
  rw [htrue] at hzero
  revert hzero
  cases parity (bitsOf 0#w) <;> decide

/-- Messages that leave the same register, and are no longer than the period, differ in
    four bits or not at all. -/
theorem four_le_distance (hp : poly.msb = true) (hodd : parity (bitsOf poly) = true)
    (s : BitVec w) (l l' : List Bool) (hlen : l.length = l'.length)
    (hshort : l.length ≤ Function.minimalPeriod (shift poly) 1#w)
    (h : stream poly s l = stream poly s l') (hne : l ≠ l') : 4 ≤ distance l l' := by
  have hw : 0 < w := by
    rcases Nat.eq_zero_or_pos w with rfl | hw
    · exact absurd hp (by simp [BitVec.msb_eq_getLsbD_last])
    · exact hw
  have heven := even_distance poly hodd hw s l l' hlen h
  have hpos : distance l l' ≠ 0 := fun hzero =>
    hne ((distance_eq_zero_iff l l' hlen).mp hzero)
  -- An even number that is neither zero nor two is four at least.
  have htwo : distance l l' ≠ 2 := by
    intro htwo
    rw [stream_eq_iff poly s l l' hlen] at h
    rcases exists_first _ 1 htwo with ⟨front, rest, hfirst, hrest⟩
    rcases exists_first _ 0 hrest with ⟨gap, back, hsecond, hback⟩
    have htotal := congrArg List.length hfirst
    rw [hsecond, eq_zeros back hback] at hfirst
    rw [hfirst, stream_pair_eq_zero_iff poly hp] at h
    have hle := Nat.le_of_dvd (Nat.succ_pos gap) h
    rw [hsecond] at htotal
    simp only [List.length_zipWith, List.length_append, List.length_cons, List.length_replicate]
      at htotal
    omega
  rcases heven with ⟨half, hhalf⟩
  omega

/-! ### The period by repeated squaring -/

/-- The registers that a register goes through, added up where a bit is set. -/
def blend : List Bool → BitVec w → BitVec w
  | [], _ => 0#w
  | b :: bs, s => (if b then s else 0#w) ^^^ blend bs (shift poly s)

/-- The power of the step that takes the highest bit to a register, applied to that
    register. -/
def square (s : BitVec w) : BitVec w := blend poly (bitsOf s).reverse s

/-- A blend is as linear as the step is. -/
theorem shifts_blend (n : Nat) (l : List Bool) (s : BitVec w) :
    (shift poly)^[n] (blend poly l s) = blend poly l ((shift poly)^[n] s) := by
  induction l generalizing s with
  | nil => exact shifts_zero poly n
  | cons b l ih =>
      rw [blend, blend, shifts_xor, ih, ← Function.iterate_succ_apply,
        Function.iterate_succ_apply']
      cases b
      · rw [if_neg (by decide), if_neg (by decide), shifts_zero]
      · rw [if_pos rfl, if_pos rfl]

/-- A single bit moves down by one place. -/
theorem shift_twoPow (j : Nat) (hj : j + 1 < w) :
    shift poly (BitVec.twoPow w (w - 1 - j)) = BitVec.twoPow w (w - 1 - (j + 1)) := by
  unfold shift
  rw [if_neg (by simp [BitVec.getLsbD_twoPow]; omega)]
  apply BitVec.eq_of_getLsbD_eq
  intro i hi
  rw [BitVec.getLsbD_ushiftRight, BitVec.getLsbD_twoPow, BitVec.getLsbD_twoPow]
  simp only [show w - 1 - j < w by omega, show w - 1 - (j + 1) < w by omega, decide_true,
    Bool.true_and]
  exact decide_eq_decide.mpr (by omega)

/-- While a single bit moves down the register, a blend spells out its own bits. -/
theorem getLsbD_blend (l : List Bool) (j : Nat) (hj : j + l.length = w) (i : Nat) :
    (blend poly l (BitVec.twoPow w (w - 1 - j))).getLsbD i = l.reverse[i]?.getD false := by
  induction l generalizing j with
  | nil => simp [blend]
  | cons b l ih =>
      rw [List.length_cons] at hj
      have hrest : (blend poly l (shift poly (BitVec.twoPow w (w - 1 - j)))).getLsbD i
          = l.reverse[i]?.getD false := by
        cases l with
        | nil => simp [blend]
        | cons b' l =>
            rw [List.length_cons] at hj
            rw [shift_twoPow poly j (by omega), ih (j + 1) (by rw [List.length_cons]; omega)]
      -- The first bit is the highest of those that are left.
      have hfirst : (if b then BitVec.twoPow w (w - 1 - j) else 0#w).getLsbD i
          = (decide (i = l.length) && b) := by
        cases b
        · simp
        · rw [if_pos rfl, BitVec.getLsbD_twoPow, Bool.and_true]
          simp only [show w - 1 - j < w by omega, decide_true, Bool.true_and]
          exact decide_eq_decide.mpr (by omega)
      rw [blend, BitVec.getLsbD_xor, hrest, hfirst, List.reverse_cons]
      rcases Nat.lt_trichotomy i l.length with hlt | rfl | hgt
      · rw [List.getElem?_append_left (by rw [List.length_reverse]; exact hlt)]
        simp [show i ≠ l.length by omega]
      · rw [List.getElem?_append_right (by rw [List.length_reverse]), List.length_reverse,
          List.getElem?_eq_none (by rw [List.length_reverse])]
        simp
      · rw [List.getElem?_eq_none (by rw [List.length_reverse]; omega),
          List.getElem?_eq_none (by simp; omega)]
        simp [show i ≠ l.length by omega]

/-- Blended from the highest bit down, a register spells itself. -/
theorem blend_top (s : BitVec w) :
    blend poly (bitsOf s).reverse (BitVec.twoPow w (w - 1)) = s := by
  apply BitVec.eq_of_getLsbD_eq
  intro i hi
  have hbit := getLsbD_blend poly (bitsOf s).reverse 0 (by simp) i
  rw [Nat.sub_zero] at hbit
  rw [hbit, List.reverse_reverse]
  simp [bitsOf, hi]

/-- A power of the step, from what it does to the highest bit. -/
theorem blend_shifts (n : Nat) (s : BitVec w) :
    blend poly (bitsOf s).reverse ((shift poly)^[n] (BitVec.twoPow w (w - 1)))
      = (shift poly)^[n] s := by
  rw [← shifts_blend, blend_top]

/-- Squaring and one more step. -/
theorem square_iterate (n : Nat) :
    (fun s => shift poly (square poly s))^[n] (BitVec.twoPow w (w - 1))
      = (shift poly)^[2 ^ n - 1] (BitVec.twoPow w (w - 1)) := by
  induction n with
  | zero => rfl
  | succ n ih =>
      have hpos := Nat.two_pow_pos n
      have htwice : Nat.succ (2 ^ n - 1 + (2 ^ n - 1)) = 2 ^ (n + 1) - 1 := by
        rw [Nat.pow_succ]
        omega
      rw [Function.iterate_succ_apply', ih, square, blend_shifts, ← Function.iterate_add_apply,
        ← Function.iterate_succ_apply' (shift poly), htwice]

end

end Crc

end Lib
