import SkegHull.Lib.Bytes

/-!
# Seekable Byte Streams

A file or an in-memory cursor, as the standard library's `Read`, `Write` and
`Seek` see it: contents, a position, and a script of what the next calls to
`read` will do.

The script is what makes the model honest about I/O. A single `read` may return
fewer bytes than asked for, or fail, and callers differ in what they do about
it: `readExact` and `readToEnd` loop and retry an interruption, a hand-written
loop may not. An event of the script is consumed by each call to `read`, and
when the script is over every further call returns all it can. Since a stream is
finite this covers every schedule a terminating run can see.

A stream is `Benign` when its script holds short reads and interruptions only.
On such a stream the two loops do not depend on the script, which is
`readExact_benign` and `readToEnd_benign`: the bytes decide, and the rest of the
development can forget about schedules.

## Main definitions

* `IoError`, `IoErrorKind`: The errors of the I/O layer.
* `ReadEvent`: What one call to `read` does.
* `Stream`: Contents, position, and script.
* `Stream.seek`, `Stream.read`, `Stream.writeAll`: The primitive operations.
* `Stream.readExact`, `Stream.readToEnd`: The loops over `read`.
* `Stream.Benign`: No failure other than an interruption.
* `Stream.Short`: No failure at all.

## Theorems

* `read_ok`, `read_error`: One call to `read` returns a prefix of what is left, or
  does what the script says.
* `length_of_readExact`: A buffer that was filled is full.
* `readExact_benign`: Reading exactly `n` bytes takes the next `n`, or hits the
  end.
* `readToEnd_benign`: Reading to the end returns everything left.
-/

namespace Lib

/-- The kinds of I/O error that callers tell apart. -/
inductive IoErrorKind where
  | notFound
  | alreadyExists
  | invalidInput
  | interrupted
  | unexpectedEof
  | other
  deriving DecidableEq, Repr

/-- An I/O error: its kind and the text it displays as. -/
structure IoError where
  kind : IoErrorKind
  text : String
  deriving DecidableEq, Repr

/-- What one call to `read` does: return at most this many bytes, though at
    least one while any remain, or fail. -/
inductive ReadEvent where
  | short (most : Nat)
  | fail (error : IoError)
  deriving DecidableEq, Repr

/-- The event is a short read or an interruption. -/
def ReadEvent.Benign : ReadEvent → Prop
  | .short _ => True
  | .fail e => e.kind = .interrupted

/-- A seekable stream of bytes, with a script for the calls to `read`. -/
structure Stream where
  bytes : Bytes
  pos : Nat
  events : List ReadEvent
  deriving DecidableEq, Repr

namespace Stream

/-- A stream at its start whose reads are never short. -/
def ofBytes (b : Bytes) : Stream := ⟨b, 0, []⟩

/-- No call to `read` will fail for a reason other than an interruption. -/
def Benign (s : Stream) : Prop := ∀ e ∈ s.events, e.Benign

/-- Every call to `read` returns bytes while any remain. -/
def Short (s : Stream) : Prop := ∀ e ∈ s.events, ∃ most, e = .short most

theorem Short.benign (s : Stream) (hs : s.Short) : s.Benign := by
  intro e he
  rcases hs e he with ⟨most, rfl⟩
  exact trivial

@[simp] theorem short_ofBytes (b : Bytes) : (ofBytes b).Short := by
  intro e he
  cases he

@[simp] theorem benign_ofBytes (b : Bytes) : (ofBytes b).Benign := by
  intro e he
  cases he

/-- `seek(SeekFrom::Start(off))`. A file refuses an offset that is negative as a
    signed 64-bit number. File systems such as ext4 refuse offsets far below that,
    too. Those limits are left out: a seek below `2 ^ 63` is taken to work. -/
def seek (s : Stream) (off : Nat) : Outcome IoError Stream :=
  if off < 2 ^ 63 then .ok { s with pos := off }
  else .err ⟨.invalidInput, "Invalid argument (os error 22)"⟩

/-- `write_all` at the current position. -/
def writeAll (s : Stream) (bs : Bytes) : Stream :=
  { s with bytes := writeAt s.bytes s.pos bs, pos := s.pos + bs.length }

theorem writeAll_nil (s : Stream) (hpos : s.pos ≤ s.bytes.length) : s.writeAll [] = s := by
  simp only [writeAll, writeAt, List.length_nil, Nat.add_zero, Nat.sub_eq_zero_of_le hpos,
    List.replicate_zero, List.append_nil, List.take_append_drop]

/-- Two writes in a row are one. -/
theorem writeAll_append (s : Stream) (a b : Bytes) :
    (s.writeAll a).writeAll b = s.writeAll (a ++ b) := by
  simp only [writeAll, writeAt_writeAt, List.length_append, Nat.add_assoc]

/-- A write ends where there are bytes in front. -/
theorem pos_writeAll_le (s : Stream) (bs : Bytes) :
    (s.writeAll bs).pos ≤ (s.writeAll bs).bytes.length := by
  simp only [writeAll, writeAt, List.length_append, List.length_take, List.length_replicate]
  omega

/-- The bytes from the current position on. -/
def rest (s : Stream) : Bytes := s.bytes.drop s.pos

/-- The stream after `got` has been read and the script has moved to `es`. -/
def advance (s : Stream) (got : Bytes) (es : List ReadEvent) : Stream :=
  { s with pos := s.pos + got.length, events := es }

/-- One call to `read` with a buffer of `want` bytes. -/
def read (s : Stream) (want : Nat) : Except IoError Bytes × Stream :=
  match s.events with
  | [] =>
      let got := s.rest.take want
      (.ok got, s.advance got [])
  | .short most :: es =>
      let got := s.rest.take (min want (max 1 most))
      (.ok got, s.advance got es)
  | .fail e :: es => (.error e, { s with events := es })

/-- A read that returned bytes took some prefix of what is left, at least one
    byte of it if there was room, and used up at most one event. -/
theorem read_ok (s s' : Stream) (want : Nat) (got : Bytes) (h : s.read want = (.ok got, s')) :
    ∃ k es, (0 < want → 0 < k) ∧ k ≤ want ∧ got = s.rest.take k ∧ s' = s.advance got es ∧
      es <:+ s.events := by
  unfold read at h
  rcases s with ⟨bytes, pos, _ | ⟨ev, es⟩⟩
  -- The script is over: the read returns all it can.
  · simp only [Prod.mk.injEq, Except.ok.injEq] at h
    rcases h with ⟨rfl, rfl⟩
    exact ⟨want, [], id, le_refl _, rfl, rfl, List.suffix_refl _⟩
  · cases ev with
    | short most =>
        simp only [Prod.mk.injEq, Except.ok.injEq] at h
        rcases h with ⟨rfl, rfl⟩
        -- A short read still returns a byte, so it makes progress.
        exact ⟨min want (max 1 most), es, by omega, by omega, rfl, rfl, List.suffix_cons _ _⟩
    | fail e => simp only [Prod.mk.injEq, reduceCtorEq, false_and] at h

/-- A read that failed did what the script said and nothing else. -/
theorem read_error (s s' : Stream) (want : Nat) (e : IoError)
    (h : s.read want = (.error e, s')) :
    ∃ es, s.events = .fail e :: es ∧ s' = { s with events := es } := by
  unfold read at h
  rcases s with ⟨bytes, pos, _ | ⟨ev, es⟩⟩
  · simp only [Prod.mk.injEq, reduceCtorEq, false_and] at h
  · cases ev with
    | short most => simp only [Prod.mk.injEq, reduceCtorEq, false_and] at h
    | fail e' =>
        simp only [Prod.mk.injEq, Except.error.injEq] at h
        rcases h with ⟨rfl, rfl⟩
        exact ⟨es, rfl, rfl⟩

theorem rest_advance (s : Stream) (k : Nat) (es : List ReadEvent) :
    (s.advance (s.rest.take k) es).rest = s.rest.drop k := by
  simp only [rest, advance, List.length_take, List.length_drop]
  rw [List.drop_drop]
  -- Either `k` bytes are left, or both sides are empty.
  by_cases h : k ≤ s.bytes.length - s.pos
  · rw [Nat.min_eq_left h]
  · rw [List.drop_eq_nil_of_le (by omega), List.drop_eq_nil_of_le (by omega)]

/-- What the two loops below decrease: the bytes left and the events left. -/
theorem read_ok_decreases (s s' : Stream) (want : Nat) (x : UInt8) (got : Bytes)
    (h : s.read want = (.ok (x :: got), s')) :
    s'.rest.length < s.rest.length ∧ s'.events.length ≤ s.events.length := by
  rcases read_ok s s' want _ h with ⟨k, es, _, _, hgot, rfl, hsuf⟩
  have hlen := congrArg List.length hgot
  rw [List.length_cons, List.length_take] at hlen
  refine ⟨?_, hsuf.length_le⟩
  rw [hgot, rest_advance, List.length_drop]
  omega

theorem read_error_decreases (s s' : Stream) (want : Nat) (e : IoError)
    (h : s.read want = (.error e, s')) :
    s'.rest = s.rest ∧ s'.events.length < s.events.length := by
  rcases read_error s s' want e h with ⟨es, hev, rfl⟩
  refine ⟨rfl, ?_⟩
  rw [hev, List.length_cons]
  exact Nat.lt_succ_self _

/-- `read_exact`: fill a buffer of `n` bytes, retrying interruptions. -/
def readExact (s : Stream) (n : Nat) : Except IoError Bytes × Stream :=
  if n = 0 then (.ok [], s)
  else
    match _h : s.read n with
    | (.ok [], s') => (.error ⟨.unexpectedEof, "failed to fill whole buffer"⟩, s')
    | (.ok (x :: got), s') =>
        match readExact s' (n - (x :: got).length) with
        | (.ok more, s'') => (.ok (x :: got ++ more), s'')
        | (.error e, s'') => (.error e, s'')
    | (.error e, s') =>
        if e.kind = .interrupted then readExact s' n else (.error e, s')
-- Each turn fills part of the buffer or uses up an event.
termination_by n + s.events.length
decreasing_by
  · have hev := (read_ok_decreases _ _ _ _ _ _h).2
    rw [List.length_cons]
    omega
  · have hev := (read_error_decreases _ _ _ _ _h).2
    omega

/-- The buffer size `read_to_end` asks for. The result does not depend on it. -/
def chunk : Nat := 8192

/-- `read_to_end`: read until nothing is left, retrying interruptions. -/
def readToEnd (s : Stream) : Except IoError Bytes × Stream :=
  match _h : s.read chunk with
  | (.ok [], s') => (.ok [], s')
  | (.ok (x :: got), s') =>
      match readToEnd s' with
      | (.ok more, s'') => (.ok (x :: got ++ more), s'')
      | (.error e, s'') => (.error e, s'')
  | (.error e, s') =>
      if e.kind = .interrupted then readToEnd s' else (.error e, s')
-- Each turn takes bytes off the stream or uses up an event.
termination_by s.rest.length + s.events.length
decreasing_by
  · have hdec := read_ok_decreases _ _ _ _ _ _h
    omega
  · have hdec := read_error_decreases _ _ _ _ _h
    rw [hdec.1]
    omega

/-- A buffer that was filled is full. -/
theorem length_of_readExact (s s' : Stream) (n : Nat) (buf : Bytes)
    (h : s.readExact n = (.ok buf, s')) : buf.length = n := by
  fun_induction readExact s n generalizing buf s' with
  | case1 s =>
      cases h
      rfl
  | case2 s n hpos s1 hread => cases h
  | case3 s n hpos x got s1 hread more s2 hrec ih =>
      cases h
      rcases read_ok s s1 n _ hread with ⟨k, es, _, hkn, hgot, _, _⟩
      have hlen := congrArg List.length hgot
      rw [List.length_take] at hlen
      -- The read took no more than was asked for, and the call for the rest is full.
      rw [List.length_append, ih _ _ hrec]
      omega
  | case4 s n hpos x got s1 hread e s2 hrec ih => cases h
  | case5 s n hpos e s1 hread hk ih => exact ih _ _ h
  | case6 s n hpos e s1 hread hk => cases h

/-! ### Benign streams -/

theorem benign_of_suffix (s : Stream) (hb : s.Benign) (t : Stream) (h : t.events <:+ s.events) :
    t.Benign := fun e he => hb e (h.subset he)

theorem benign_of_read_ok (s s' : Stream) (want : Nat) (got : Bytes) (hb : s.Benign)
    (h : s.read want = (.ok got, s')) : s'.Benign := by
  rcases read_ok s s' want got h with ⟨_, es, _, _, _, rfl, hsuf⟩
  exact benign_of_suffix s hb _ hsuf

theorem benign_of_read_error (s s' : Stream) (want : Nat) (e : IoError) (hb : s.Benign)
    (h : s.read want = (.error e, s')) : s'.Benign ∧ e.kind = .interrupted := by
  rcases read_error s s' want e h with ⟨es, hev, rfl⟩
  refine ⟨benign_of_suffix s hb _ (by rw [hev]; exact List.suffix_cons _ _), ?_⟩
  exact hb (.fail e) (by rw [hev]; exact List.mem_cons_self)

theorem advance_advance (s : Stream) (a b : Bytes) (es es' : List ReadEvent) :
    (s.advance a es).advance b es' = s.advance (a ++ b) es' := by
  simp only [advance, List.length_append, Nat.add_assoc]

/-- Reading exactly `n` bytes of a benign stream takes the next `n` bytes. -/
theorem readExact_benign (s : Stream) (n : Nat) (hb : s.Benign) (hn : n ≤ s.rest.length) :
    ∃ es, es <:+ s.events ∧
      s.readExact n = (.ok (s.rest.take n), s.advance (s.rest.take n) es) := by
  fun_induction readExact s n with
  | case1 s =>
      refine ⟨s.events, List.suffix_refl _, ?_⟩
      simp only [List.take_zero, advance, List.length_nil, Nat.add_zero]
  | case2 s n hpos s' h =>
      -- A read that found nothing contradicts the bytes being there.
      rcases read_ok s s' n _ h with ⟨k, es, hk, _, hgot, _, _⟩
      have hlen := congrArg List.length hgot
      rw [List.length_nil, List.length_take] at hlen
      omega
  | case3 s n hpos x got s' h more s'' hrec ih =>
      have hb' := benign_of_read_ok s s' n _ hb h
      -- The read took `k` bytes, and the call for the others takes what follows.
      rcases read_ok s s' n _ h with ⟨k, es, _, hkn, hgot, rfl, hsuf⟩
      have hk : (s.rest.take k).length = k := by
        rw [List.length_take]
        omega
      rw [hgot] at ih hb' hrec
      rw [rest_advance, hk] at ih
      rcases ih hb' (by rw [List.length_drop]; omega) with ⟨es', hsuf', heq⟩
      rw [hk, heq, Prod.mk.injEq, Except.ok.injEq] at hrec
      rcases hrec with ⟨rfl, rfl⟩
      have hjoin : s.rest.take k ++ (s.rest.drop k).take (n - k) = s.rest.take n := by
        rw [← take_append_take_drop s.rest k n hkn, hk]
      refine ⟨es', hsuf'.trans hsuf, ?_⟩
      rw [hgot, hjoin, advance_advance, hjoin]
  | case4 s n hpos x got s' h e s'' hrec ih =>
      have hb' := benign_of_read_ok s s' n _ hb h
      -- The rest cannot fail: enough bytes are left for it.
      rcases read_ok s s' n _ h with ⟨k, es, _, hkn, hgot, rfl, hsuf⟩
      have hk : (s.rest.take k).length = k := by
        rw [List.length_take]
        omega
      rw [hgot] at ih hb' hrec
      rw [rest_advance, hk] at ih
      rcases ih hb' (by rw [List.length_drop]; omega) with ⟨es', _, heq⟩
      rw [hk, heq] at hrec
      simp only [Prod.mk.injEq, reduceCtorEq, false_and] at hrec
  | case5 s n hpos e s' h hk ih =>
      -- An interruption changes the script only.
      have hb' := (benign_of_read_error s s' n e hb h).1
      rcases read_error s s' n e h with ⟨es, hev, rfl⟩
      rcases ih hb' hn with ⟨es', hsuf, heq⟩
      exact ⟨es', by rw [hev]; exact hsuf.trans (List.suffix_cons _ _), heq⟩
  | case6 s n hpos e s' h hk =>
      -- A benign stream fails in no other way.
      exact absurd (benign_of_read_error s s' n e hb h).2 hk

/-- Reading exactly `n` bytes runs into the end when fewer are left. -/
theorem readExact_eof (s : Stream) (n : Nat) (hb : s.Benign) (hn : s.rest.length < n) :
    ∃ e s', e.kind = .unexpectedEof ∧ s.readExact n = (.error e, s') := by
  fun_induction readExact s n with
  | case1 s => omega
  | case2 s n hpos s' h => exact ⟨_, s', rfl, rfl⟩
  | case3 s n hpos x got s' h more s'' hrec ih =>
      have hb' := benign_of_read_ok s s' n _ hb h
      rcases read_ok s s' n _ h with ⟨k, es, _, hkn, hgot, rfl, _⟩
      rw [hgot] at ih hb' hrec
      rw [rest_advance, List.length_take] at ih
      -- What is left is too short for the rest of the buffer, too.
      rcases ih hb' (by rw [List.length_drop]; omega) with ⟨e, s', _, heq⟩
      rw [List.length_take, heq] at hrec
      simp only [Prod.mk.injEq, reduceCtorEq, false_and] at hrec
  | case4 s n hpos x got s' h e s'' hrec ih =>
      have hb' := benign_of_read_ok s s' n _ hb h
      rcases read_ok s s' n _ h with ⟨k, es, _, hkn, hgot, rfl, _⟩
      rw [hgot] at ih hb' hrec
      rw [rest_advance, List.length_take] at ih
      rcases ih hb' (by rw [List.length_drop]; omega) with ⟨e', s', hkind, heq⟩
      rw [List.length_take, heq, Prod.mk.injEq, Except.error.injEq] at hrec
      exact ⟨e, s'', by rw [← hrec.1]; exact hkind, rfl⟩
  | case5 s n hpos e s' h hk ih =>
      have hb' := (benign_of_read_error s s' n e hb h).1
      rcases read_error s s' n e h with ⟨es, _, rfl⟩
      exact ih hb' hn
  | case6 s n hpos e s' h hk =>
      exact absurd (benign_of_read_error s s' n e hb h).2 hk

/-- Reading a benign stream to the end returns everything left. -/
theorem readToEnd_benign (s : Stream) (hb : s.Benign) :
    ∃ s', s.readToEnd = (.ok s.rest, s') := by
  fun_induction readToEnd s with
  | case1 s s' h =>
      -- Nothing was read although there was room, so nothing is left.
      rcases read_ok s s' chunk _ h with ⟨k, es, hk, _, hgot, _, _⟩
      have hlen := congrArg List.length hgot
      have hpos := hk (by decide)
      rw [List.length_nil, List.length_take] at hlen
      have hrest : s.rest = [] := List.eq_nil_of_length_eq_zero (by omega)
      exact ⟨s', by rw [hrest]⟩
  | case2 s x got s' h more s'' hrec ih =>
      have hb' := benign_of_read_ok s s' chunk _ hb h
      rcases read_ok s s' chunk _ h with ⟨k, es, _, _, hgot, rfl, _⟩
      rw [hgot] at ih hb' hrec
      rw [rest_advance] at ih
      rcases ih hb' with ⟨t, heq⟩
      rw [heq, Prod.mk.injEq, Except.ok.injEq] at hrec
      -- The prefix that was read and the rest make up the whole.
      exact ⟨s'', by rw [hgot, ← hrec.1, List.take_append_drop]⟩
  | case3 s x got s' h e s'' hrec ih =>
      have hb' := benign_of_read_ok s s' chunk _ hb h
      rcases ih hb' with ⟨t, heq⟩
      rw [heq] at hrec
      simp only [Prod.mk.injEq, reduceCtorEq, false_and] at hrec
  | case4 s e s' h hk ih =>
      have hb' := (benign_of_read_error s s' chunk e hb h).1
      rcases read_error s s' chunk e h with ⟨es, _, rfl⟩
      exact ih hb'
  | case5 s e s' h hk =>
      exact absurd (benign_of_read_error s s' chunk e hb h).2 hk

end Stream

end Lib
