import SkegHull.Lib.Stream

/-!
# Streams That Refuse Writes

A `Stream` takes whatever is written to it. A buffer that grows does, a buffer of a fixed
size or a file on a full disk does not. A `Sink` is a stream with a second script, for the
calls that write. Each call of `seek`, `write` or `flush` takes an event from it and may
fail, and a `write` may take fewer bytes than it was given, or none. When the script is
over every further call succeeds, and a `write` takes everything.

However the calls go, a loop over `write` leaves the stream with a prefix of the buffer in
it, and with all of it when the loop returns `Ok`.

## Main definitions

* `CallEvent`: What one call does.
* `Sink`: A stream and the script.
* `Sink.rewind`, `Sink.write`, `Sink.flush`: The calls.
* `Sink.writeAll`: The loop over `write`.

## Theorems

* `Sink.rewind_ok`, `Sink.write_ok`, `Sink.write_error`, `Sink.flush_stream`: What one call
  does.
* `Sink.writeAll_cases`: What the loop leaves.
* `Sink.writeAll_plain`: The loop when the script is over.
-/

namespace Lib

/-- What one call does: succeed, where a `write` takes at most this many bytes, or fail. -/
inductive CallEvent where
  | pass (most : Nat)
  | fail (error : IoError)
  deriving DecidableEq, Repr

/-- A seekable stream of bytes, with a script for the calls that write. -/
structure Sink where
  stream : Stream
  calls : List CallEvent
  deriving DecidableEq, Repr

/-- A write took none of the bytes. -/
def writeZero : IoError := ⟨.other, "failed to write whole buffer"⟩

namespace Sink

/-- A stream that takes whatever is written to it. -/
def plain (s : Stream) : Sink := ⟨s, []⟩

/-- `seek(SeekFrom::Start(0))`. -/
def rewind (sink : Sink) : Except IoError Unit × Sink :=
  match sink.calls with
  | [] => (.ok (), ⟨{ sink.stream with pos := 0 }, []⟩)
  | .pass _ :: calls => (.ok (), ⟨{ sink.stream with pos := 0 }, calls⟩)
  | .fail e :: calls => (.error e, ⟨sink.stream, calls⟩)

/-- One call to `write`. A write that fails has taken nothing. -/
def write (sink : Sink) (buf : Bytes) : Except IoError Nat × Sink :=
  match sink.calls with
  | [] => (.ok buf.length, ⟨sink.stream.writeAll buf, []⟩)
  | .pass most :: calls =>
      (.ok (min most buf.length), ⟨sink.stream.writeAll (buf.take most), calls⟩)
  | .fail e :: calls => (.error e, ⟨sink.stream, calls⟩)

/-- One call to `flush`. -/
def flush (sink : Sink) : Except IoError Unit × Sink :=
  match sink.calls with
  | [] => (.ok (), sink)
  | .pass _ :: calls => (.ok (), ⟨sink.stream, calls⟩)
  | .fail e :: calls => (.error e, ⟨sink.stream, calls⟩)

theorem rewind_ok (sink sink' : Sink) (h : sink.rewind = (.ok (), sink')) :
    sink'.stream = { sink.stream with pos := 0 } := by
  unfold rewind at h
  rcases sink with ⟨stream, _ | ⟨most | e, calls⟩⟩
  · cases h
    rfl
  · cases h
    rfl
  · cases h

theorem rewind_error (sink sink' : Sink) (e : IoError) (h : sink.rewind = (.error e, sink')) :
    sink'.stream = sink.stream := by
  unfold rewind at h
  rcases sink with ⟨stream, _ | ⟨most | e, calls⟩⟩
  · cases h
  · cases h
  · cases h
    rfl

theorem flush_stream (sink : Sink) : sink.flush.2.stream = sink.stream := by
  unfold flush
  rcases sink with ⟨stream, _ | ⟨most | e, calls⟩⟩ <;> rfl

/-- A write that returned a number has taken that many bytes. -/
theorem write_ok (sink sink' : Sink) (buf : Bytes) (n : Nat)
    (h : sink.write buf = (.ok n, sink')) :
    n ≤ buf.length ∧ sink'.stream = sink.stream.writeAll (buf.take n) ∧
      sink'.calls.length ≤ sink.calls.length := by
  unfold write at h
  rcases sink with ⟨stream, _ | ⟨event, calls⟩⟩
  · simp only [Prod.mk.injEq, Except.ok.injEq] at h
    rcases h with ⟨rfl, rfl⟩
    exact ⟨le_refl _, by rw [List.take_length], le_refl _⟩
  · cases event with
    | pass most =>
        simp only [Prod.mk.injEq, Except.ok.injEq] at h
        rcases h with ⟨rfl, rfl⟩
        refine ⟨Nat.min_le_right _ _, ?_, Nat.le_succ _⟩
        rw [List.take_eq_take_min]
    | fail e => simp only [Prod.mk.injEq, reduceCtorEq, false_and] at h

/-- A write that failed did what the script said and nothing else. -/
theorem write_error (sink sink' : Sink) (buf : Bytes) (e : IoError)
    (h : sink.write buf = (.error e, sink')) :
    sink'.stream = sink.stream ∧ sink'.calls.length < sink.calls.length := by
  unfold write at h
  rcases sink with ⟨stream, _ | ⟨event, calls⟩⟩
  · simp only [Prod.mk.injEq, reduceCtorEq, false_and] at h
  · cases event with
    | pass most => simp only [Prod.mk.injEq, reduceCtorEq, false_and] at h
    | fail e' =>
        simp only [Prod.mk.injEq] at h
        rcases h with ⟨-, rfl⟩
        exact ⟨rfl, Nat.lt_succ_self _⟩

/-- `write_all`: write until the buffer is empty, retrying interruptions. -/
def writeAll (sink : Sink) (buf : Bytes) : Except IoError Unit × Sink :=
  if _hbuf : buf = [] then (.ok (), sink)
  else
    match _h : sink.write buf with
    | (.ok 0, sink') => (.error writeZero, sink')
    | (.ok (n + 1), sink') => writeAll sink' (buf.drop (n + 1))
    | (.error e, sink') =>
        if e.kind = .interrupted then writeAll sink' buf else (.error e, sink')
-- Each turn takes bytes off the buffer or uses up an event.
termination_by buf.length + sink.calls.length
decreasing_by
  · have hok := write_ok _ _ _ _ _h
    rw [List.length_drop]
    omega
  · have herr := write_error _ _ _ _ _h
    omega

/-- What the loop leaves behind is a prefix of the buffer, and all of it when it returns
    `Ok`. -/
theorem writeAll_cases (sink : Sink) (buf : Bytes)
    (hpos : sink.stream.pos ≤ sink.stream.bytes.length) :
    ∃ n ≤ buf.length, (sink.writeAll buf).2.stream = sink.stream.writeAll (buf.take n) ∧
      ((sink.writeAll buf).1 = .ok () → n = buf.length) := by
  fun_induction writeAll sink buf with
  | case1 sink =>
      refine ⟨0, le_refl _, ?_, fun _ => rfl⟩
      rw [List.take_nil, Stream.writeAll_nil _ hpos]
  | case2 sink buf hbuf sink' hw =>
      -- The write that took nothing has changed nothing.
      have hok := write_ok sink sink' buf 0 hw
      exact ⟨0, Nat.zero_le _, hok.2.1, fun h => nomatch h⟩
  | case3 sink buf hbuf taken sink' hw ih =>
      rcases write_ok sink sink' buf (taken + 1) hw with ⟨hle, hstream, _⟩
      rw [hstream] at ih
      rcases ih (Stream.pos_writeAll_le _ _) with ⟨n, hn, hafter, hall⟩
      rw [List.length_drop] at hn hall
      -- What this write took and what the others took are one prefix.
      refine ⟨taken + 1 + n, by omega, ?_, fun h => ?_⟩
      · rw [hafter, Stream.writeAll_append, ← List.take_add]
      · have hrest := hall h
        omega
  | case4 sink buf hbuf e sink' hw hk ih =>
      rw [(write_error sink sink' buf e hw).1] at ih
      exact ih hpos
  | case5 sink buf hbuf e sink' hw hk =>
      refine ⟨0, Nat.zero_le _, ?_, fun h => nomatch h⟩
      rw [List.take_zero, Stream.writeAll_nil _ hpos, (write_error sink sink' buf e hw).1]

/-- A write that took something is followed by one for the rest. -/
theorem writeAll_of_ok (sink sink' : Sink) (buf : Bytes) (n : Nat) (hbuf : buf ≠ [])
    (h : sink.write buf = (.ok (n + 1), sink')) :
    sink.writeAll buf = sink'.writeAll (buf.drop (n + 1)) := by
  rw [writeAll, dif_neg hbuf]
  split
  all_goals
    rename_i hw
    rw [h] at hw
    cases hw
  rfl

/-- A failure that is no interruption ends the loop. -/
theorem writeAll_of_error (sink sink' : Sink) (buf : Bytes) (e : IoError) (hbuf : buf ≠ [])
    (h : sink.write buf = (.error e, sink')) (hk : e.kind ≠ .interrupted) :
    sink.writeAll buf = (.error e, sink') := by
  rw [writeAll, dif_neg hbuf]
  split
  all_goals
    rename_i hw
    rw [h] at hw
    cases hw
  exact if_neg hk

/-- Without a script the loop is over after one write. -/
theorem writeAll_plain (s : Stream) (buf : Bytes) (hpos : s.pos ≤ s.bytes.length) :
    (plain s).writeAll buf = (.ok (), plain (s.writeAll buf)) := by
  cases buf with
  | nil => rw [writeAll, dif_pos rfl, Stream.writeAll_nil s hpos]
  | cons b bs =>
      have hrest : (b :: bs).drop (bs.length + 1) = [] := List.drop_length
      rw [writeAll_of_ok _ (plain (s.writeAll (b :: bs))) _ bs.length (List.cons_ne_nil b bs) rfl,
        hrest, writeAll, dif_pos rfl]

end Sink

end Lib
