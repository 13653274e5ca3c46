import SkegHull.Lib.Faults
import SkegHull.Saga.RoundTrip
import SkegHull.KvCache.RoundTrip

/-!
# Readers on a Faulty Disk

What the readers return when any read may be short, be interrupted, or fail. Both
take the whole file into memory before they look at it, so there are two cases only. A
failure ends the reading and is what is returned, or the result is what the bytes of
the file decide, and the schedule of the reads is forgotten. No schedule makes a reader
return another saga or another cache, or another reason to refuse the file.

The header is read in two pieces, for the scrubber, and there a failure that claims to
be the end of the file is reported as a truncated one (`ofFailure`). Otherwise the two
cases are the same.

## Main definitions

* `ofFailure`: The error that filling a buffer makes of a failure.

## Theorems

* `slurp_cases`, `fill_cases_any`: Taking bytes from a faulty stream.
* `readSaga_slurp`, `readKvCache_slurp`: The readers look at the slurped bytes only.
* `readers_faulty`: The readers return what the bytes decide, or a failure.
* `Header.read_build`, `Header.read_cases`: So does reading a header, in any build.
-/

namespace SkegHull

open Lib

/-! ### The whole file -/

theorem slurp_cases (r : Stream) :
    slurp r = .ok r.bytes ∨ ∃ e, r.Fails e ∧ slurp r = .err (.io e) := by
  have hseek : fromIo (r.seek 0) = .ok { r with pos := 0 } := rfl
  unfold slurp
  rw [hseek, Outcome.ok_bind]
  rcases Stream.readToEnd_cases { r with pos := 0 } with ⟨s', heq⟩ | ⟨e, s', heq, hfail⟩
  · rw [heq]
    exact Or.inl rfl
  · rw [heq]
    exact Or.inr ⟨e, hfail, rfl⟩

section

variable (crate : Crc32cCrate) (build : Build)

/-- After the file has been taken into memory the stream is not looked at. -/
theorem readSaga_slurp (r : Stream) :
    readSaga crate build r = (do
      let all ← slurp r
      readSaga crate build (Stream.ofBytes all)) := by
  cases hslurp : slurp r with
  | ok all =>
      rw [Outcome.ok_bind]
      unfold readSaga
      rw [hslurp, slurp_benign _ (Stream.benign_ofBytes all)]
      rfl
  | err e =>
      unfold readSaga
      rw [hslurp]
      rfl
  | panic p =>
      unfold readSaga
      rw [hslurp]
      rfl

theorem readKvCache_slurp (r : Stream) :
    readKvCache crate build r = (do
      let all ← slurp r
      readKvCache crate build (Stream.ofBytes all)) := by
  cases hslurp : slurp r with
  | ok all =>
      rw [Outcome.ok_bind]
      unfold readKvCache
      rw [hslurp, slurp_benign _ (Stream.benign_ofBytes all)]
      rfl
  | err e =>
      unfold readKvCache
      rw [hslurp]
      rfl
  | panic p =>
      unfold readKvCache
      rw [hslurp]
      rfl

/-- Whatever the reads do, both readers return what the bytes of the file decide, or both
    return one failure, which is none of those that are retried. -/
theorem readers_faulty (r : Stream) :
    (readSaga crate build r = readSaga crate build (Stream.ofBytes r.bytes) ∧
      readKvCache crate build r = readKvCache crate build (Stream.ofBytes r.bytes)) ∨
    ∃ e, r.Fails e ∧ readSaga crate build r = .err (.io e) ∧
      readKvCache crate build r = .err (.io e) := by
  rw [readSaga_slurp crate build r, readKvCache_slurp crate build r]
  rcases slurp_cases r with hok | ⟨e, hfail, herr⟩
  · rw [hok]
    exact Or.inl ⟨rfl, rfl⟩
  · rw [herr]
    exact Or.inr ⟨e, hfail, rfl, rfl⟩

end

/-! ### The header -/

/-- The error that filling a buffer makes of a failure. -/
def ofFailure (e : IoError) : Error := if e.kind = .unexpectedEof then .truncated else .io e

/-- Filling a buffer takes the bytes at the position of the stream, or finds the file
    truncated, or passes on a failure. -/
theorem fill_cases_any (r : Stream) (n : Nat) (hp : r.pos ≤ r.bytes.length) :
    (r.pos + n ≤ r.bytes.length ∧ ∃ es, es <:+ r.events ∧
      fill r n = .ok (cut r.bytes r.pos (r.pos + n), ⟨r.bytes, r.pos + n, es⟩)) ∨
    (r.bytes.length < r.pos + n ∧ fill r n = .err .truncated) ∨
    ∃ e, r.Fails e ∧ fill r n = .err (ofFailure e) := by
  have hrest : r.rest.length = r.bytes.length - r.pos := by rw [Stream.rest, List.length_drop]
  unfold fill
  rcases r.readExact_cases n with ⟨hle, es, hsuf, heq⟩ | ⟨hlt, e, s', hkind, heq⟩ |
    ⟨e, s', heq, hfail⟩
  · have hcut : cut r.bytes r.pos (r.pos + n) = r.rest.take n := by
      rw [cut, Stream.rest, Nat.add_sub_cancel_left]
    refine Or.inl ⟨by omega, es, hsuf, ?_⟩
    rw [heq, hcut]
    simp only [Stream.advance, List.length_take, Nat.min_eq_left hle]
  · rw [heq]
    exact Or.inr (Or.inl ⟨by omega, if_pos hkind⟩)
  · rw [heq]
    exact Or.inr (Or.inr ⟨e, hfail, (apply_ite Outcome.err _ _ _).symm⟩)

namespace Header

/-- The checks of the debug build make no difference to reading a header: nothing in it
    overflows. -/
theorem read_build (build build' : Build) (r : Stream) : read build r = read build' r := by
  have hseek : fromIo (r.seek 0) = .ok { r with pos := 0 } := rfl
  have hseek' : ∀ s : Stream, fromIo (s.seek 64) = .ok { s with pos := 64 } := fun _ => rfl
  unfold read
  rw [hseek, Outcome.ok_bind, Outcome.ok_bind]
  rcases fill_cases { r with pos := 0 } headerLen with ⟨buf, r₁, hlen, hfill⟩ | ⟨e, hfill⟩
  · rw [hfill, Outcome.ok_bind, Outcome.ok_bind]
    dsimp only
    cases hdec : Preamble.decode buf with
    | err e => rfl
    | panic p => rfl
    | ok pre =>
        have hcount := pre.sectionCount.toNat_lt
        have hoff : pre.tableOffset.toNat = 64 := by
          rw [Preamble.decode_tableOffset buf hlen pre hdec]
          rfl
        rw [Outcome.ok_bind, Outcome.ok_bind, hoff, hseek', Outcome.ok_bind, Outcome.ok_bind,
          mul_of_lt build _ _ (by simp only [sectionEntryLen]; omega),
          mul_of_lt build' _ _ (by simp only [sectionEntryLen]; omega), Outcome.ok_bind,
          Outcome.ok_bind]
        -- A full buffer holds every entry of the table.
        rcases fill_cases { r₁ with pos := 64 } (pre.sectionCount.toNat * sectionEntryLen) with
          ⟨table, r₂, hlen', hfill'⟩ | ⟨e, hfill'⟩
        · rw [hfill', Outcome.ok_bind, Outcome.ok_bind]
          dsimp only
          rw [decodeTable_eq build _ table (by simp only [sectionEntryLen] at hlen'; omega) hcount,
            decodeTable_eq build' _ table (by simp only [sectionEntryLen] at hlen'; omega) hcount]
        · rw [hfill']
          rfl
  · rw [hfill]
    rfl

/-- Reading a header is parsing the bytes, or it passes on a failure. -/
theorem read_cases (build : Build) (r : Stream) :
    (∃ es, es <:+ r.events ∧ read build r = (do
      let h ← parse r.bytes
      .ok (h, ⟨r.bytes, h.firstPayloadOffset, es⟩))) ∨
    ∃ e, r.Fails e ∧ read build r = .err (ofFailure e) := by
  have hseek : fromIo (r.seek 0) = .ok { r with pos := 0 } := rfl
  unfold read parse
  rw [hseek, Outcome.ok_bind]
  rcases fill_cases_any { r with pos := 0 } headerLen (Nat.zero_le _) with
    ⟨h64, es, hsuf, hfill⟩ | ⟨h64, hfill⟩ | ⟨e, hfail, hfill⟩
  · simp only [headerLen, Nat.zero_add] at h64
    rw [if_neg (by omega), hfill, Outcome.ok_bind]
    simp only [headerLen, Nat.zero_add, cut_zero]
    cases hdec : Preamble.decode (r.bytes.take 64) with
    | err e => exact Or.inl ⟨es, hsuf, rfl⟩
    | panic p => exact Or.inl ⟨es, hsuf, rfl⟩
    | ok pre =>
        have hoff := Preamble.decode_tableOffset _ (by rw [List.length_take]; omega) _ hdec
        -- The table follows the header, so this seek stays where the stream is.
        have hseek' : fromIo ((⟨r.bytes, 64, es⟩ : Stream).seek pre.tableOffset.toNat)
            = .ok ⟨r.bytes, 64, es⟩ := by
          rw [hoff]
          rfl
        have hcount := pre.sectionCount.toNat_lt
        rw [Outcome.ok_bind, hseek', Outcome.ok_bind,
          mul_of_lt _ _ _ (by simp only [sectionEntryLen]; omega), Outcome.ok_bind, Outcome.ok_bind]
        simp only [sectionEntryLen]
        rcases fill_cases_any ⟨r.bytes, 64, es⟩ (pre.sectionCount.toNat * 28) h64 with
          ⟨htab, es', hsuf', hfill'⟩ | ⟨htab, hfill'⟩ | ⟨e, hfail, hfill'⟩
        · simp only at htab
          refine Or.inl ⟨es', hsuf'.trans hsuf, ?_⟩
          rw [if_neg (by omega), hfill', Outcome.ok_bind]
          simp only [Nat.mul_comm _ 28]
          rw [decodeTable_eq _ _ _ (by rw [length_cut_of_le _ _ _ (by omega)]; omega) hcount]
          simp only [Outcome.ok_bind, firstPayloadOffset, sectionTableLen, tableOf, List.length_map,
            List.length_range, headerLen, sectionEntryLen, Nat.mul_comm _ 28]
        · simp only at htab
          refine Or.inl ⟨es, hsuf, ?_⟩
          rw [if_pos (by omega), hfill']
          rfl
        · rw [hfill']
          exact Or.inr ⟨e, hfail.of_suffix hsuf, rfl⟩
  · simp only [headerLen, Nat.zero_add] at h64
    refine Or.inl ⟨r.events, List.suffix_refl _, ?_⟩
    rw [if_pos h64, hfill]
    rfl
  · rw [hfill]
    exact Or.inr ⟨e, hfail, rfl⟩

end Header

end SkegHull
