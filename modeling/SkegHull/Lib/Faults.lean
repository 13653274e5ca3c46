import SkegHull.Lib.Schedule

/-!
# Reading from a Faulty Disk

What the two loops of the standard library return for any script at all. They retry
interruptions, so a failure that they pass on is another one, and it is in the script
(`Fails`). If they pass on none, they return what they return without a script.

The loops of `Lib.Schedule`, which retry nothing, pass on the first failure they meet.
It is in the script, too (`mem_of_firstFailure`).

## Main definitions

* `Stream.Fails`: A failure that a loop which retries interruptions can pass on.

## Theorems

* `readExact_cases`, `readToEnd_cases`: What the loops return.
* `mem_of_firstFailure`: A failure that is met is in the script.
-/

namespace Lib

namespace Stream

/-- The script has a failure that is no interruption. -/
def Fails (s : Stream) (e : IoError) : Prop := .fail e ∈ s.events ∧ e.kind ≠ .interrupted

theorem Fails.of_suffix {s t : Stream} {e : IoError} (h : t.Fails e)
    (hsuf : t.events <:+ s.events) : s.Fails e := ⟨hsuf.subset h.1, h.2⟩

/-- A benign stream has no such failure. -/
theorem Benign.not_fails {s : Stream} (hb : s.Benign) (e : IoError) : ¬ s.Fails e :=
  fun h => h.2 (hb (.fail e) h.1)

/-- Reading to the end returns everything left, or passes on a failure. -/
theorem readToEnd_cases (s : Stream) :
    (∃ s', s.readToEnd = (.ok s.rest, s')) ∨ ∃ e s', s.readToEnd = (.error e, s') ∧ s.Fails e := by
  fun_induction readToEnd s with
  | case1 s s' h =>
      -- Nothing was read although there was room, so nothing is left.
      rcases read_ok s s' chunk _ h with ⟨k, es, hk, _, hgot, _, _⟩
      have hlen := congrArg List.length hgot
      have hpos := hk (by decide)
      rw [List.length_nil, List.length_take] at hlen
      have hrest : s.rest = [] := List.eq_nil_of_length_eq_zero (by omega)
      exact Or.inl ⟨s', by rw [hrest]⟩
  | case2 s x got s' h more s'' hrec ih =>
      rcases read_ok s s' chunk _ h with ⟨k, es, _, _, hgot, rfl, _⟩
      rw [hgot] at ih hrec
      rw [rest_advance, hrec] at ih
      rcases ih with ⟨t, heq⟩ | ⟨e, t, heq, _⟩
      · simp only [Prod.mk.injEq, Except.ok.injEq] at heq
        exact Or.inl ⟨s'', by rw [hgot, heq.1, List.take_append_drop]⟩
      · simp only [Prod.mk.injEq, reduceCtorEq, false_and] at heq
  | case3 s x got s' h e s'' hrec ih =>
      rcases read_ok s s' chunk _ h with ⟨k, es, _, _, _, hadv, hsuf⟩
      rw [hrec] at ih
      rcases ih with ⟨t, heq⟩ | ⟨e', t, heq, hfail⟩
      · simp only [Prod.mk.injEq, reduceCtorEq, false_and] at heq
      · simp only [Prod.mk.injEq, Except.error.injEq] at heq
        rw [← heq.1, hadv] at hfail
        exact Or.inr ⟨e, s'', rfl, hfail.of_suffix hsuf⟩
  | case4 s e s' h hk ih =>
      -- An interruption changes the script only.
      rcases read_error s s' chunk e h with ⟨es, hev, rfl⟩
      rcases ih with ⟨t, heq⟩ | ⟨e', t, heq, hfail⟩
      · exact Or.inl ⟨t, heq⟩
      · exact Or.inr ⟨e', t, heq, hfail.of_suffix (by rw [hev]; exact List.suffix_cons _ _)⟩
  | case5 s e s' h hk =>
      rcases read_error s s' chunk e h with ⟨es, hev, _⟩
      exact Or.inr ⟨e, s', rfl, by rw [hev]; exact List.mem_cons_self, hk⟩

/-- Reading exactly `n` bytes takes the next `n`, or hits the end, or passes on a
    failure. -/
theorem readExact_cases (s : Stream) (n : Nat) :
    (n ≤ s.rest.length ∧ ∃ es, es <:+ s.events ∧
      s.readExact n = (.ok (s.rest.take n), s.advance (s.rest.take n) es)) ∨
    (s.rest.length < n ∧ ∃ e s', e.kind = .unexpectedEof ∧ s.readExact n = (.error e, s')) ∨
    ∃ e s', s.readExact n = (.error e, s') ∧ s.Fails e := by
  fun_induction readExact s n with
  | case1 s =>
      refine Or.inl ⟨Nat.zero_le _, s.events, List.suffix_refl _, ?_⟩
      simp only [List.take_zero, advance, List.length_nil, Nat.add_zero]
  | case2 s n hpos s' h =>
      rcases read_ok s s' n _ h with ⟨k, es, hk, _, hgot, _, _⟩
      have hlen := congrArg List.length hgot
      rw [List.length_nil, List.length_take] at hlen
      exact Or.inr (Or.inl ⟨by omega, _, s', rfl, rfl⟩)
  | case3 s n hpos x got s' h more s'' hrec ih =>
      -- The read took `k` bytes, and the call for the others takes what follows.
      rcases read_ok s s' n _ h with ⟨k, es, _, hkn, hgot, rfl, hsuf⟩
      rw [hgot] at ih hrec
      rw [rest_advance, hrec] at ih
      have hk := congrArg List.length hgot
      rw [List.length_take] at hk
      rw [List.length_take, List.length_drop] at ih
      rcases ih with ⟨hle, es', hsuf', heq⟩ | ⟨_, e, t, _, heq⟩ | ⟨e, t, heq, _⟩
      · have hfit : min k s.rest.length = k := by
          rw [List.length_cons] at hk
          omega
        rw [hfit] at heq hle
        simp only [Prod.mk.injEq, Except.ok.injEq] at heq
        rcases heq with ⟨hmore, rfl⟩
        have hjoin : s.rest.take k ++ (s.rest.drop k).take (n - k) = s.rest.take n := by
          have hboth := take_append_take_drop s.rest k n hkn
          rw [List.length_take, hfit] at hboth
          exact hboth
        refine Or.inl ⟨by omega, es', hsuf'.trans hsuf, ?_⟩
        rw [hgot, hmore, hjoin, advance_advance, hjoin]
      · simp only [Prod.mk.injEq, reduceCtorEq, false_and] at heq
      · simp only [Prod.mk.injEq, reduceCtorEq, false_and] at heq
  | case4 s n hpos x got s' h e s'' hrec ih =>
      rcases read_ok s s' n _ h with ⟨k, es, _, hkn, hgot, rfl, hsuf⟩
      rw [hgot] at ih hrec
      rw [rest_advance, hrec] at ih
      have hk := congrArg List.length hgot
      rw [List.length_take] at hk
      rw [List.length_take, List.length_drop] at ih
      rcases ih with ⟨_, es', _, heq⟩ | ⟨hlt, e', t, hkind, heq⟩ | ⟨e', t, heq, hfail⟩
      · simp only [Prod.mk.injEq, reduceCtorEq, false_and] at heq
      · simp only [Prod.mk.injEq, Except.error.injEq] at heq
        exact Or.inr (Or.inl ⟨by omega, e, s'', by rw [heq.1]; exact hkind, rfl⟩)
      · simp only [Prod.mk.injEq, Except.error.injEq] at heq
        rw [← heq.1] at hfail
        exact Or.inr (Or.inr ⟨e, s'', rfl, hfail.of_suffix hsuf⟩)
  | case5 s n hpos e s' h hk ih =>
      rcases read_error s s' n e h with ⟨es, hev, rfl⟩
      have hsuf : es <:+ s.events := by
        rw [hev]
        exact List.suffix_cons _ _
      rcases ih with ⟨hle, es', hsuf', heq⟩ | hend | ⟨e', t, heq, hfail⟩
      · exact Or.inl ⟨hle, es', hsuf'.trans hsuf, heq⟩
      · exact Or.inr (Or.inl hend)
      · exact Or.inr (Or.inr ⟨e', t, heq, hfail.of_suffix hsuf⟩)
  | case6 s n hpos e s' h hk =>
      rcases read_error s s' n e h with ⟨es, hev, _⟩
      exact Or.inr (Or.inr ⟨e, s', rfl, by rw [hev]; exact List.mem_cons_self, hk⟩)

end Stream

/-- A failure that a loop without retries meets is in the script. -/
theorem mem_of_firstFailure (buf : Nat) (events : List ReadEvent) (n left : Nat) (e : IoError)
    (h : firstFailure buf events n left = some e) : .fail e ∈ events := by
  induction events generalizing n left with
  | nil => cases h
  | cons ev es ih =>
      cases ev with
      | fail e' =>
          rw [firstFailure] at h
          split_ifs at h
          rw [Option.some.inj h]
          exact List.mem_cons_self
      | short most =>
          rw [firstFailure] at h
          split_ifs at h
          exact List.mem_cons_of_mem _ (ih _ _ h)

end Lib
