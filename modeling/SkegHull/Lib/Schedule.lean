import Mathlib.Algebra.BigOperators.Group.List.Basic
import SkegHull.Lib.Stream

/-!
# Which Read Fails First

A loop that calls `read` until it has what it wants, and gives up at the first
failure, sees only the front of the script. Whether a failure in the script is
ever reached depends on how much the reads in front of it return.

`firstFailure` answers this by following the loop: how many bytes it still wants
and how many are left. `firstFailure_eq_none_iff` answers it by a sum over the
reads in front of the failure. If the bytes are there, these reads have to
return all that is wanted. If they are not, one of these reads has to come after
the last byte, because that is the read that tells the loop about the end.

## Main definitions

* `ReadEvent.isShort`, `ReadEvent.isInterruption`: The two kinds of event of a benign
  stream.
* `Stream.uninterrupted`: The stream with the interruptions taken out of its script.
* `firstFailure`: The failure such a loop meets.
* `lead`, `reach`: The reads in front of the first failure, and how far they go.
* `Through`: They bring the loop to its end.

## Theorems

* `firstFailure_read`, `firstFailure_error`: One turn of the loop.
* `firstFailure_eq_none_iff`: When the loop meets no failure.
-/

namespace Lib

/-- The event is a short read. -/
def ReadEvent.isShort : ReadEvent → Bool
  | .short _ => true
  | .fail _ => false

/-- The event is an interruption. -/
def ReadEvent.isInterruption : ReadEvent → Bool
  | .short _ => false
  | .fail e => e.kind = .interrupted

/-- How many bytes the event can return into a buffer of `buf` bytes. -/
def ReadEvent.size (buf : Nat) : ReadEvent → Nat
  | .short most => min buf (max 1 most)
  | .fail _ => 0

/-- The reads in front of the first failure. -/
def lead (events : List ReadEvent) : List ReadEvent := events.takeWhile ReadEvent.isShort

/-- How far the events go, together. -/
def reach (buf : Nat) (events : List ReadEvent) : Nat := (events.map (ReadEvent.size buf)).sum

/-- The reads in front of the first failure bring a loop to its end that wants `n` bytes
    when `left` are left: they return all of the bytes, or one of them comes after the
    last byte. -/
def Through (buf n left : Nat) (events : List ReadEvent) : Prop :=
  if n ≤ left then n ≤ reach buf (lead events)
  else lead events ≠ [] ∧ left ≤ reach buf (lead events).dropLast

instance (buf n left : Nat) (events : List ReadEvent) : Decidable (Through buf n left events) :=
  inferInstanceAs (Decidable (if n ≤ left then n ≤ reach buf (lead events)
    else lead events ≠ [] ∧ left ≤ reach buf (lead events).dropLast))

/-- The failure that a loop meets which wants `n` bytes when `left` are left. -/
def firstFailure (buf : Nat) : List ReadEvent → Nat → Nat → Option IoError
  | [], _, _ => none
  | .fail e :: _, n, _ => if n = 0 then none else some e
  | .short most :: es, n, left =>
      let k := min (min (min n buf) (max 1 most)) left
      if k = 0 then none else firstFailure buf es (n - k) (left - k)

section Lead

variable (buf : Nat) (most : Nat) (e : IoError) (es : List ReadEvent)

@[simp] theorem lead_short : lead (.short most :: es) = .short most :: lead es := rfl

@[simp] theorem lead_fail : lead (.fail e :: es) = [] := rfl

@[simp] theorem reach_nil : reach buf [] = 0 := rfl

@[simp] theorem reach_cons (ev : ReadEvent) : reach buf (ev :: es) = ev.size buf + reach buf es :=
  List.sum_cons

end Lead

/-- A script of short reads makes no loop fail. -/
theorem firstFailure_of_short (buf : Nat) (events : List ReadEvent) (n left : Nat)
    (hs : ∀ e ∈ events, e.isShort = true) : firstFailure buf events n left = none := by
  induction events generalizing n left with
  | nil => rfl
  | cons ev es ih =>
      cases ev with
      | fail e => cases hs (.fail e) List.mem_cons_self
      | short most =>
          rw [firstFailure]
          split_ifs
          · rfl
          · exact ih _ _ fun e he => hs e (List.mem_cons_of_mem _ he)

@[simp] theorem firstFailure_zero (buf : Nat) (events : List ReadEvent) (left : Nat) :
    firstFailure buf events 0 left = none := by
  rcases events with _ | ⟨_ | _, es⟩
  · rfl
  · simp only [firstFailure, Nat.zero_min, if_true]
  · rfl

/-- One read that does not bring the loop to its end. -/
theorem through_short_iff (buf n left k most : Nat) (es : List ReadEvent)
    (hk : k = min (min (min n buf) (max 1 most)) left) (hpos : k ≠ 0) (hlt : k < n) :
    Through buf n left (.short most :: es) ↔ Through buf (n - k) (left - k) es := by
  have hsize : ReadEvent.size buf (.short most) = min buf (max 1 most) := rfl
  unfold Through
  rw [lead_short, reach_cons, hsize]
  by_cases hle : n ≤ left
  · -- The read was as long as its event allows.
    rw [if_pos hle, if_pos (by omega)]
    omega
  · rw [if_neg hle, if_neg (by omega)]
    cases hlead : lead es with
    | nil =>
        simp only [List.dropLast_singleton, reach_nil, ne_eq, not_true_eq_false, false_and,
          iff_false, not_and]
        omega
    | cons ev rest =>
        rw [List.dropLast_cons_cons, reach_cons, hsize]
        simp only [ne_eq, reduceCtorEq, not_false_eq_true, true_and]
        omega

/-- A loop with something left to read meets no failure exactly when there is none, or
    when the reads in front of it bring the loop to its end. -/
theorem firstFailure_eq_none_iff (buf : Nat) (hbuf : 0 < buf) (events : List ReadEvent)
    (n left : Nat) (hn : n ≠ 0) :
    firstFailure buf events n left = none ↔
      (∀ e ∈ events, e.isShort = true) ∨ Through buf n left events := by
  induction events generalizing n left with
  | nil => exact ⟨fun _ => Or.inl fun e he => absurd he List.not_mem_nil, fun _ => rfl⟩
  | cons ev es ih =>
      cases ev with
      | fail e =>
          -- Nothing is read in front of the failure, and something is wanted.
          have hnot : ¬ Through buf n left (.fail e :: es) := by
            unfold Through
            rw [lead_fail]
            split_ifs
            · rw [reach_nil]
              omega
            · exact fun h => h.1 rfl
          simp only [firstFailure, if_neg hn, List.forall_mem_cons, ReadEvent.isShort, hnot,
            reduceCtorEq, false_and, or_false, Bool.false_eq_true]
      | short most =>
          have hsize : ReadEvent.size buf (.short most) = min buf (max 1 most) := rfl
          have hshort : (∀ e ∈ ReadEvent.short most :: es, e.isShort = true) ↔
              ∀ e ∈ es, e.isShort = true := by
            rw [List.forall_mem_cons]
            exact and_iff_right rfl
          rw [firstFailure, hshort]
          generalize hk : min (min (min n buf) (max 1 most)) left = k
          by_cases hk0 : k = 0
          · -- The read found the end.
            have hthrough : Through buf n left (.short most :: es) := by
              unfold Through
              rw [if_neg (by omega), show left = 0 by omega]
              exact ⟨List.cons_ne_nil _ _, Nat.zero_le _⟩
            rw [if_pos hk0]
            exact ⟨fun _ => Or.inr hthrough, fun _ => rfl⟩
          rw [if_neg hk0]
          by_cases hall : k = n
          · -- The read returned all that was wanted.
            have hthrough : Through buf n left (.short most :: es) := by
              unfold Through
              rw [if_pos (by omega), lead_short, reach_cons, hsize]
              omega
            rw [hall, Nat.sub_self, firstFailure_zero]
            exact ⟨fun _ => Or.inr hthrough, fun _ => rfl⟩
          · rw [ih _ _ (by omega), through_short_iff buf n left k most es hk.symm hk0 (by omega)]

namespace Stream

/-- The stream with the interruptions taken out of its script. -/
def uninterrupted (s : Stream) : Stream :=
  { s with events := s.events.filter fun e => !e.isInterruption }

@[simp] theorem bytes_uninterrupted (s : Stream) : s.uninterrupted.bytes = s.bytes := rfl

theorem short_iff (s : Stream) : s.Short ↔ ∀ e ∈ s.events, e.isShort = true := by
  refine forall₂_congr fun e _ => ?_
  cases e with
  | short most => simp only [ReadEvent.isShort, ReadEvent.short.injEq, exists_eq']
  | fail e => simp only [ReadEvent.isShort, reduceCtorEq, exists_false, Bool.false_eq_true]

/-- Without its interruptions a benign stream has short reads only. -/
theorem short_uninterrupted (s : Stream) (hb : s.Benign) : s.uninterrupted.Short := by
  intro e he
  rcases List.mem_filter.mp he with ⟨hmem, hkeep⟩
  cases e with
  | short most => exact ⟨most, rfl⟩
  | fail e =>
      -- A failure of a benign stream is an interruption, so it was taken out.
      have hkind : e.kind = .interrupted := hb (.fail e) hmem
      simp only [ReadEvent.isInterruption, hkind, decide_true, Bool.not_true,
        Bool.false_eq_true] at hkeep

/-- One read that succeeds, on the way of such a loop. -/
theorem firstFailure_read (s s' : Stream) (buf n : Nat) (got : Bytes)
    (h : s.read (min n buf) = (.ok got, s')) :
    firstFailure buf s.events n s.rest.length =
      if got.length = 0 then none
      else firstFailure buf s'.events (n - got.length) s'.rest.length := by
  unfold read at h
  rcases s with ⟨bytes, pos, _ | ⟨ev, es⟩⟩
  · simp only [Prod.mk.injEq] at h
    rw [← h.2]
    exact (ite_self none).symm
  · cases ev with
    | short most =>
        simp only [Prod.mk.injEq, Except.ok.injEq] at h
        rcases h with ⟨rfl, rfl⟩
        -- The loop counts what the read returned, and so does the script.
        rw [rest_advance, firstFailure, List.length_take, List.length_drop]
        congr 2
        omega
    | fail e => simp only [Prod.mk.injEq, reduceCtorEq, false_and] at h

/-- A read that fails is what such a loop meets. -/
theorem firstFailure_error (s s' : Stream) (buf n want left : Nat) (hn : n ≠ 0) (e : IoError)
    (h : s.read want = (.error e, s')) : firstFailure buf s.events n left = some e := by
  rcases read_error s s' want e h with ⟨es, hev, _⟩
  rw [hev, firstFailure, if_neg hn]

end Stream

end Lib
