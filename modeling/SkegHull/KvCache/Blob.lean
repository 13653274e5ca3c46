import SkegHull.Header

/-!
# Blob Section

The KV bytes and, optionally, the logits of the next token, each behind its
length. The lengths are 64-bit numbers from the file, and the decoder adds them
to its cursor before it compares the sum with the length of the section.

The first sum can wrap in both builds' worst way. A debug build panics on it. A
release build gets a small number, passes the comparison, and then cuts a range
that ends before it starts, which panics too: `decode_wraps`. The second sum is
different. Its wrapped value can never be the length of the section, so a
release build returns an error there and only a debug build panics. `Fits` is the
condition that neither sum wraps, and `decode_safe_iff` says it is the right
one.

What the decoder accepts does not depend on the build. A section is accepted
exactly when it is the encoding of something, and then it decodes to that:
`decode_eq_ok_iff`.

## Main definitions

* `Blob.encode`, `Blob.decode`: The codec.
* `Blob.kvLenOf`, `Blob.logitsLenOf`: The declared lengths.
* `Blob.Fits`: The sums with the declared lengths stay inside 64 bits.

## Theorems

* `decode_of_lt`, `decode_wraps`: The decoder, by whether the first sum fits.
* `decodeLogits_eq`: The optional part.
* `decode_safe_iff`: Decoding is safe in every build exactly when the sums fit.
* `decode_eq_ok_iff`: The accepted sections are the encodings.
-/

namespace SkegHull

open Lib

namespace Blob

/-- Encode the section. -/
def encode (kv : Bytes) (nextLogits : Option Bytes) : Bytes :=
  let out : Bytes := [if nextLogits.isSome then 1 else 0]
  let out := out ++ toLe (UInt64.ofNat kv.length)
  let out := out ++ kv
  match nextLogits with
  | some l => out ++ toLe (UInt64.ofNat l.length) ++ l
  | none => out

/-- The part after the KV bytes, which starts at the cursor. -/
def decodeLogits (build : Build) (bytes : Bytes) (logitsPresent : UInt8) (cursor : Nat) :
    Outcome Error (Option Bytes) :=
  if logitsPresent = 0 then do
    failWith (bytes.length ≠ cursor) (do
      let extra ← build.sub bytes.length cursor
      .ok (.malformed
        s!"blob section has trailing bytes when logits_present=0: {extra} extra"))
    .ok none
  else if logitsPresent = 1 then do
    let lenEnd ← build.add cursor 8
    failIf (bytes.length < lenEnd) (.malformed "blob section truncated before logits length")
    let stop ← build.add cursor 8
    let logitsLen ← readLe UInt64 bytes cursor stop
    let start ← build.add cursor 8
    let stop ← build.add start logitsLen.toNat
    failWith (bytes.length ≠ stop) (do
      let rest ← build.sub bytes.length cursor
      let actual ← build.sub rest 8
      .ok (.malformed
        s!"blob section logits length mismatch: declared {logitsLen}, actual {actual}"))
    let start ← build.add cursor 8
    let stop ← build.add start logitsLen.toNat
    let logits ← slice bytes start stop
    .ok (some logits)
  else .err (.malformed s!"invalid logits_present byte: {logitsPresent}")

/-- Decode the section. -/
def decode (build : Build) (bytes : Bytes) : Outcome Error (Bytes × Option Bytes) := do
  failIf (bytes.length < 9) (.malformed s!"blob section too short for header: {bytes.length}")
  let logitsPresent ← byteAt bytes 0
  let kvLen ← readLe UInt64 bytes 1 9
  let kvEnd ← build.add 9 kvLen.toNat
  failWith (bytes.length < kvEnd) (do
    let rest ← build.sub bytes.length 9
    .ok (.malformed s!"blob section truncated: need {kvLen} kv bytes, have {rest}"))
  let stop ← build.add 9 kvLen.toNat
  let kv ← slice bytes 9 stop
  let cursor ← build.add 9 kvLen.toNat
  let logits ← decodeLogits build bytes logitsPresent cursor
  .ok (kv, logits)

/-! ### The declared lengths -/

/-- The declared length of the KV bytes. -/
def kvLenOf (bytes : Bytes) : Nat := (fromLe UInt64 (cut bytes 1 9)).toNat

/-- The declared length of the logits, if they start at the cursor. -/
def logitsLenOf (bytes : Bytes) (cursor : Nat) : Nat :=
  (fromLe UInt64 (cut bytes cursor (cursor + 8))).toNat

/-- The sums with the declared lengths stay inside 64 bits, as far as the
    decoder gets to compute them. -/
structure Fits (bytes : Bytes) : Prop where
  kv : 9 ≤ bytes.length → 9 + kvLenOf bytes < 2 ^ 64
  logits : 9 + kvLenOf bytes + 8 ≤ bytes.length → bytes[0]? = some 1 →
    9 + kvLenOf bytes + 8 + logitsLenOf bytes (9 + kvLenOf bytes) < 2 ^ 64

variable (build : Build) (bytes : Bytes)

theorem kvLenOf_lt : kvLenOf bytes < 2 ^ 64 := UInt64.toNat_lt _

theorem logitsLenOf_lt (cursor : Nat) : logitsLenOf bytes cursor < 2 ^ 64 := UInt64.toNat_lt _

/-- The decoder when the end of the KV bytes is a 64-bit number. -/
theorem decode_of_lt (h9 : 9 ≤ bytes.length) (hkv : 9 + kvLenOf bytes < 2 ^ 64) :
    decode build bytes =
      if bytes.length < 9 + kvLenOf bytes then
        .err (.malformed s!"blob section truncated: need {
          fromLe UInt64 (cut bytes 1 9)} kv bytes, have {bytes.length - 9}")
      else (do
        let logits ← decodeLogits build bytes bytes[0] (9 + kvLenOf bytes)
        .ok (cut bytes 9 (9 + kvLenOf bytes), logits)) := by
  unfold kvLenOf at hkv ⊢
  unfold decode
  rw [failIf_of_not _ _ (by omega), Outcome.ok_bind, byteAt_eq bytes 0 (by omega), Outcome.ok_bind,
    readLe_eq bytes 1 9 h9 rfl, Outcome.ok_bind, add_of_lt _ _ _ hkv, Outcome.ok_bind,
    sub_of_le _ _ _ h9, Outcome.ok_bind, Outcome.ok_bind]
  by_cases hend : bytes.length < 9 + (fromLe UInt64 (cut bytes 1 9)).toNat
  · rw [if_pos hend, failWith_of _ _ hend, Outcome.err_bind]
  · rw [if_neg hend, failWith_of_not _ _ hend, Outcome.ok_bind,
      slice_eq _ _ _ (by omega) (by omega), Outcome.ok_bind, Outcome.ok_bind]

/-- The decoder when it is not: every build panics, a debug build at the sum and
    a release build at the range it bounds. -/
theorem decode_wraps (h9 : 9 ≤ bytes.length) (hlen : bytes.length < 2 ^ 64)
    (hkv : 2 ^ 64 ≤ 9 + kvLenOf bytes) : ∃ p, decode build bytes = .panic p := by
  have hlt := kvLenOf_lt bytes
  unfold kvLenOf at hkv hlt
  unfold decode
  rw [failIf_of_not _ _ (by omega), Outcome.ok_bind, byteAt_eq bytes 0 (by omega), Outcome.ok_bind,
    readLe_eq bytes 1 9 h9 rfl, Outcome.ok_bind]
  -- Nine more than a 64-bit number wraps to at most eight.
  generalize fromLe UInt64 (cut bytes 1 9) = kvLen at hkv hlt
  cases build with
  | debug =>
      have hadd : (Build.debug.add 9 kvLen.toNat : Outcome Error Nat) = .panic .overflow :=
        if_neg (by omega)
      exact ⟨.overflow, by rw [hadd, Outcome.panic_bind]⟩
  | release =>
      have hadd : (Build.release.add 9 kvLen.toNat : Outcome Error Nat)
          = .ok (9 + kvLen.toNat - 2 ^ 64) := by
        rw [Build.add, word_release]
        exact congrArg Outcome.ok (by omega)
      -- The wrapped end is below nine, so the comparison passes and the range is inverted.
      have hslice : (slice bytes 9 (9 + kvLen.toNat - 2 ^ 64) : Outcome Error Bytes)
          = .panic .sliceIndex := if_neg (by omega)
      refine ⟨.sliceIndex, ?_⟩
      rw [hadd, Outcome.ok_bind, failWith_of_not _ _ (by omega), Outcome.ok_bind, Outcome.ok_bind,
        hslice, Outcome.panic_bind]

/-- The optional part, from a cursor inside the section. -/
theorem decodeLogits_eq (logitsPresent : UInt8) (cursor : Nat) (hlen : bytes.length < 2 ^ 63)
    (hcur : cursor ≤ bytes.length) :
    decodeLogits build bytes logitsPresent cursor =
      if logitsPresent = 0 then
        if bytes.length ≠ cursor then
          .err (.malformed s!"blob section has trailing bytes when logits_present=0: {
            bytes.length - cursor} extra")
        else .ok none
      else if logitsPresent = 1 then
        if bytes.length < cursor + 8 then
          .err (.malformed "blob section truncated before logits length")
        else if build = .debug ∧ 2 ^ 64 ≤ cursor + 8 + logitsLenOf bytes cursor then
          .panic .overflow
        else if bytes.length ≠ cursor + 8 + logitsLenOf bytes cursor then
          .err (.malformed s!"blob section logits length mismatch: declared {
            fromLe UInt64 (cut bytes cursor (cursor + 8))}, actual {bytes.length - cursor - 8}")
        else .ok (some (cut bytes (cursor + 8) bytes.length))
      else .err (.malformed s!"invalid logits_present byte: {logitsPresent}") := by
  unfold decodeLogits
  by_cases h0 : logitsPresent = 0
  · rw [if_pos h0, if_pos h0, sub_of_le _ _ _ hcur, Outcome.ok_bind]
    by_cases hend : bytes.length ≠ cursor
    · rw [if_pos hend, failWith_of _ _ hend, Outcome.err_bind]
    · rw [if_neg hend, failWith_of_not _ _ hend, Outcome.ok_bind]
  rw [if_neg h0, if_neg h0]
  by_cases h1 : logitsPresent = 1
  · rw [if_pos h1, if_pos h1, add_of_lt _ _ _ (by omega), Outcome.ok_bind]
    by_cases hword : bytes.length < cursor + 8
    · rw [if_pos hword, failIf_of _ _ hword, Outcome.err_bind]
    have hlogits := logitsLenOf_lt bytes cursor
    unfold logitsLenOf at hlogits ⊢
    rw [if_neg hword, failIf_of_not _ _ hword, Outcome.ok_bind, Outcome.ok_bind,
      readLe_eq bytes cursor (cursor + 8) (by omega) rfl, Outcome.ok_bind, Outcome.ok_bind,
      sub_of_le _ bytes.length cursor hcur, Outcome.ok_bind, sub_of_le _ _ _ (by omega),
      Outcome.ok_bind]
    generalize fromLe UInt64 (cut bytes cursor (cursor + 8)) = logitsLen at hlogits
    -- Only the sum with the declared length can leave 64 bits.
    by_cases hsum : cursor + 8 + logitsLen.toNat < 2 ^ 64
    · rw [if_neg (by omega), add_of_lt _ _ _ hsum, Outcome.ok_bind]
      by_cases hend : bytes.length ≠ cursor + 8 + logitsLen.toNat
      · rw [if_pos hend, failWith_of _ _ hend, Outcome.err_bind]
      · rw [if_neg hend, failWith_of_not _ _ hend, Outcome.ok_bind, Outcome.ok_bind,
          add_of_lt _ _ _ hsum, Outcome.ok_bind, slice_eq _ _ _ (by omega) (by omega),
          Outcome.ok_bind, ← not_not.mp hend]
    · cases build with
      | debug =>
          have hadd : (Build.debug.add (cursor + 8) logitsLen.toNat : Outcome Error Nat)
              = .panic .overflow := if_neg hsum
          rw [if_pos ⟨rfl, by omega⟩, hadd, Outcome.panic_bind]
      | release =>
          have hadd : (Build.release.add (cursor + 8) logitsLen.toNat : Outcome Error Nat)
              = .ok (cursor + 8 + logitsLen.toNat - 2 ^ 64) := by
            rw [Build.add, word_release]
            exact congrArg Outcome.ok (by omega)
          -- The wrapped sum is below the cursor, so it is not the length of the section.
          rw [if_neg (by simp only [reduceCtorEq, false_and, not_false_eq_true]),
            if_pos (by omega), hadd, Outcome.ok_bind, failWith_of _ _ (by omega),
            Outcome.err_bind]
  · rw [if_neg h1, if_neg h1]

/-- The optional part is safe in every build exactly when its sum fits, if it is
    computed. -/
theorem decodeLogits_safe_iff (logitsPresent : UInt8) (cursor : Nat) (hlen : bytes.length < 2 ^ 63)
    (hcur : cursor ≤ bytes.length) :
    (∀ build, (decodeLogits build bytes logitsPresent cursor).Safe) ↔
      (cursor + 8 ≤ bytes.length → logitsPresent = 1 →
        cursor + 8 + logitsLenOf bytes cursor < 2 ^ 64) := by
  constructor
  · intro hs hword h1
    by_contra hsum
    have hdebug := hs .debug
    rw [decodeLogits_eq .debug bytes logitsPresent cursor hlen hcur, h1, if_neg (by decide),
      if_pos rfl, if_neg (by omega), if_pos ⟨rfl, by omega⟩] at hdebug
    exact Outcome.not_safe_panic _ hdebug
  · intro hfit build
    rw [decodeLogits_eq build bytes logitsPresent cursor hlen hcur]
    by_cases hpanic : cursor + 8 ≤ bytes.length ∧ logitsPresent = 1 ∧
        2 ^ 64 ≤ cursor + 8 + logitsLenOf bytes cursor
    · have hlt := hfit hpanic.1 hpanic.2.1
      omega
    split_ifs with h0 _ h1 hword hov
    all_goals first | exact Outcome.safe_ok _ | exact Outcome.safe_err _ | skip
    -- Of all the ways out, only the debug panic is left.
    exact absurd ⟨by omega, h1, hov.2⟩ hpanic

/-- Decoding is safe in every build exactly when the sums fit. -/
theorem decode_safe_iff (hlen : bytes.length < 2 ^ 63) :
    (∀ build, (decode build bytes).Safe) ↔ Fits bytes := by
  by_cases h9 : 9 ≤ bytes.length
  · by_cases hkv : 9 + kvLenOf bytes < 2 ^ 64
    · have hfirst : bytes[0]? = some bytes[0] := List.getElem?_eq_getElem (by omega)
      simp only [decode_of_lt _ bytes h9 hkv]
      by_cases hend : bytes.length < 9 + kvLenOf bytes
      · simp only [if_pos hend, Outcome.safe_err, implies_true, true_iff]
        exact ⟨fun _ => hkv, fun hword => absurd hword (by omega)⟩
      -- The first sum fits, so the section is safe when the optional part is.
      · have hlogits := decodeLogits_safe_iff bytes bytes[0] (9 + kvLenOf bytes) hlen (by omega)
        simp only [if_neg hend, Outcome.safe_bind_iff, Outcome.safe_ok, implies_true, and_true]
        rw [hlogits]
        constructor
        · intro h
          refine ⟨fun _ => hkv, fun hword h1 => h hword ?_⟩
          rw [hfirst, Option.some.injEq] at h1
          exact h1
        · intro h hword h1
          exact h.logits hword (by rw [hfirst, h1])
    · constructor
      -- A first sum that does not fit panics in every build.
      · intro hs
        rcases decode_wraps .debug bytes h9 (by omega) (by omega) with ⟨p, hp⟩
        exact absurd hp (hs .debug p)
      · intro h
        exact absurd (h.kv h9) hkv
  · constructor
    · intro _
      exact ⟨fun h => absurd h h9, fun h => absurd h (by omega)⟩
    · intro _ build
      unfold decode
      rw [failIf_of _ _ (by omega), Outcome.err_bind]
      exact Outcome.safe_err _

/-- A malformed section is the only error. -/
theorem decode_errs (hlen : bytes.length < 2 ^ 63) : (decode build bytes).Errs Error.Semantic := by
  by_cases h9 : 9 ≤ bytes.length
  · by_cases hkv : 9 + kvLenOf bytes < 2 ^ 64
    · rw [decode_of_lt build bytes h9 hkv]
      by_cases hend : bytes.length < 9 + kvLenOf bytes
      · rw [if_pos hend]
        exact (Outcome.errs_err _ _).mpr trivial
      rw [if_neg hend, decodeLogits_eq _ _ _ _ hlen (by omega)]
      refine Outcome.errs_bind _ _ _ ?_ fun logits _ => Outcome.errs_ok _ _
      split_ifs
      all_goals first
        | exact Outcome.errs_ok _ _
        | exact Outcome.errs_panic _ _
        | exact (Outcome.errs_err _ _).mpr trivial
    · rcases decode_wraps build bytes h9 (by omega) (by omega) with ⟨p, hp⟩
      rw [hp]
      exact Outcome.errs_panic _ _
  · unfold decode
    rw [failIf_of _ _ (by omega), Outcome.err_bind]
    exact (Outcome.errs_err _ _).mpr trivial

/-! ### The accepted sections -/

/-- The bytes after the KV bytes. -/
def logitsBytes : Option Bytes → Bytes
  | some l => toLe (UInt64.ofNat l.length) ++ l
  | none => []

theorem encode_eq (kv : Bytes) (nextLogits : Option Bytes) :
    encode kv nextLogits = [if nextLogits.isSome then 1 else 0] ++ (toLe (UInt64.ofNat kv.length) ++
      (kv ++ logitsBytes nextLogits)) := by
  unfold encode logitsBytes
  cases nextLogits with
  | none => simp only [List.append_assoc, List.append_nil]
  | some l => simp only [List.append_assoc]

theorem length_encode (kv : Bytes) (nextLogits : Option Bytes) :
    (encode kv nextLogits).length = 9 + kv.length + (logitsBytes nextLogits).length := by
  simp only [encode_eq, List.length_append, List.length_singleton, length_toLe, width_uint64]
  omega

/-- The section is read back. -/
theorem decode_encode (kv : Bytes) (nextLogits : Option Bytes)
    (hlen : (encode kv nextLogits).length < 2 ^ 63) :
    decode build (encode kv nextLogits) = .ok (kv, nextLogits) := by
  have hlength := length_encode kv nextLogits
  have hkvLen : kvLenOf (encode kv nextLogits) = kv.length := by
    rw [kvLenOf, encode_eq, cut_append_right _ _ _ _ (by rw [List.length_singleton]),
      List.length_singleton, cut_append_exact _ _ _ (by rw [length_toLe, width_uint64]),
      fromLe_toLe]
    exact toNat_ofNat64 _ (by omega)
  -- Nine bytes stand in front of the KV bytes.
  have hkv : cut (encode kv nextLogits) 9 (9 + kv.length) = kv := by
    simp only [encode_eq, cut_append_right, List.length_singleton, length_toLe, width_uint64,
      Nat.reduceLeDiff, Nat.reduceSub]
    exact cut_append_exact _ _ _ (by omega)
  rw [decode_of_lt build _ (by omega) (by omega), hkvLen, if_neg (by omega), hkv,
    decodeLogits_eq _ _ _ _ hlen (by omega)]
  cases nextLogits with
  | none =>
      have hfirst : (encode kv none)[0] = 0 := rfl
      have hend : (encode kv none).length = 9 + kv.length := hlength
      rw [if_pos hfirst, if_neg (not_not.mpr hend), Outcome.ok_bind]
  | some l =>
      have hfirst : (encode kv (some l))[0] = 1 := rfl
      have hend : (logitsBytes (some l)).length = 8 + l.length := by
        rw [logitsBytes, List.length_append, length_toLe, width_uint64]
      have hhead : ([1] ++ (toLe (UInt64.ofNat kv.length) ++ kv)).length = 9 + kv.length := by
        simp only [List.length_append, List.length_singleton, length_toLe, width_uint64]
        omega
      -- The cursor stands behind the KV bytes, so the encoding is cut in two there.
      have hsplit : encode kv (some l) = ([1] ++ (toLe (UInt64.ofNat kv.length) ++ kv)) ++
          (toLe (UInt64.ofNat l.length) ++ l) := by
        simp only [encode_eq, logitsBytes, Option.isSome_some, if_true, List.append_assoc]
      have hlogitsLen : logitsLenOf (encode kv (some l)) (9 + kv.length) = l.length := by
        rw [logitsLenOf, hsplit, cut_append_right _ _ _ _ (by omega), hhead, Nat.sub_self,
          Nat.add_sub_cancel_left, cut_append_exact _ _ _ (by rw [length_toLe, width_uint64]),
          fromLe_toLe]
        exact toNat_ofNat64 _ (by omega)
      have hlogits : cut (encode kv (some l)) (9 + kv.length + 8) (encode kv (some l)).length
          = l := by
        rw [hlength, hsplit, cut_append_right _ _ _ _ (by omega), hhead,
          cut_append_right _ _ _ _ (by rw [length_toLe, width_uint64]; omega), length_toLe,
          width_uint64, show 9 + kv.length + 8 - (9 + kv.length) - 8 = 0 by omega]
        exact cut_exact _ _ (by omega)
      rw [if_neg (by rw [hfirst]; decide), if_pos hfirst, if_neg (by omega), hlogitsLen,
        if_neg (by omega), if_neg (by omega), hlogits, Outcome.ok_bind]

/-- The first byte, the first length, and the rest make up the section. -/
theorem encode_head (h9 : 9 ≤ bytes.length) (kv rest : Bytes) (hkv : kv.length = kvLenOf bytes)
    (hrest : kv ++ rest = cut bytes 9 bytes.length) :
    [bytes[0]] ++ (toLe (UInt64.ofNat kv.length) ++ (kv ++ rest)) = bytes := by
  -- A length that was read is written back as the bytes it was read from.
  have hlen : toLe (UInt64.ofNat kv.length) = cut bytes 1 9 := by
    rw [hkv, kvLenOf, UInt64.ofNat_toNat, toLe_cut bytes 1 9 h9 rfl]
  have hfirst : [bytes[0]] = cut bytes 0 1 := (cut_one bytes 0 (by omega)).symm
  rw [hlen, hrest, hfirst, cut_append_cut _ _ _ _ (by omega) h9,
    cut_append_cut _ _ _ _ (by omega) (by omega), cut_exact _ _ rfl]

/-- When the optional part is accepted, the presence byte and the bytes from the
    cursor on are its encoding. -/
theorem encode_of_decodeLogits (hlen : bytes.length < 2 ^ 63) (logitsPresent : UInt8)
    (cursor : Nat) (hcur : cursor ≤ bytes.length) (logits : Option Bytes)
    (h : decodeLogits build bytes logitsPresent cursor = .ok logits) :
    logitsPresent = (if logits.isSome then 1 else 0) ∧
      logitsBytes logits = cut bytes cursor bytes.length := by
  rw [decodeLogits_eq _ _ _ _ hlen hcur] at h
  by_cases h0 : logitsPresent = 0
  · rw [if_pos h0] at h
    by_cases hne : bytes.length ≠ cursor
    · rw [if_pos hne] at h
      cases h
    rw [if_neg hne, Outcome.ok.injEq] at h
    rw [← h, ← not_not.mp hne]
    -- Without logits the section ends at the cursor.
    refine ⟨h0, ?_⟩
    rw [logitsBytes, cut, Nat.sub_self, List.take_zero]
  rw [if_neg h0] at h
  by_cases h1 : logitsPresent = 1
  · rw [if_pos h1] at h
    by_cases hword : bytes.length < cursor + 8
    · rw [if_pos hword] at h
      cases h
    rw [if_neg hword] at h
    by_cases hov : build = .debug ∧ 2 ^ 64 ≤ cursor + 8 + logitsLenOf bytes cursor
    · rw [if_pos hov] at h
      cases h
    rw [if_neg hov] at h
    by_cases hne : bytes.length ≠ cursor + 8 + logitsLenOf bytes cursor
    · rw [if_pos hne] at h
      cases h
    rw [if_neg hne, Outcome.ok.injEq] at h
    rw [← h]
    refine ⟨h1, ?_⟩
    -- The section ends with the logits, so what was cut has the declared length.
    have hl : (cut bytes (cursor + 8) bytes.length).length = logitsLenOf bytes cursor := by
      rw [length_cut_of_le _ _ _ (le_refl _)]
      omega
    rw [logitsBytes, hl, logitsLenOf, UInt64.ofNat_toNat,
      toLe_cut bytes cursor (cursor + 8) (by omega) rfl,
      cut_append_cut _ _ _ _ (by omega) (by omega)]
  · rw [if_neg h1] at h
    cases h

/-- What is accepted is the encoding of what it decodes to. -/
theorem encode_of_decode (hlen : bytes.length < 2 ^ 63) (kv : Bytes) (nextLogits : Option Bytes)
    (h : decode build bytes = .ok (kv, nextLogits)) : encode kv nextLogits = bytes := by
  by_cases h9 : 9 ≤ bytes.length
  · by_cases hsum : 9 + kvLenOf bytes < 2 ^ 64
    · rw [decode_of_lt build bytes h9 hsum] at h
      by_cases hend : bytes.length < 9 + kvLenOf bytes
      · rw [if_pos hend] at h
        cases h
      rw [if_neg hend, Outcome.bind_eq_ok_iff] at h
      rcases h with ⟨logits, hlogits, heq⟩
      rw [Outcome.ok.injEq, Prod.mk.injEq] at heq
      rcases heq with ⟨hkv, rfl⟩
      have hkvLen : kv.length = kvLenOf bytes := by
        rw [← hkv, length_cut_of_le _ _ _ (by omega)]
        omega
      -- The optional part gives back the presence byte and everything behind the cursor.
      rcases encode_of_decodeLogits build bytes hlen _ _ (by omega) _ hlogits with
        ⟨hpresent, hrest⟩
      rw [encode_eq, ← hpresent]
      refine encode_head bytes h9 kv _ hkvLen ?_
      rw [hrest, ← hkv, cut_append_cut _ _ _ _ (by omega) (by omega)]
    · rcases decode_wraps build bytes h9 (by omega) (by omega) with ⟨p, hp⟩
      rw [hp] at h
      cases h
  · unfold decode at h
    rw [failIf_of _ _ (by omega), Outcome.err_bind] at h
    cases h

/-- A section is accepted exactly when it is the encoding of something, and then
    it decodes to that, in every build. -/
theorem decode_eq_ok_iff (hlen : bytes.length < 2 ^ 63) (kv : Bytes) (nextLogits : Option Bytes) :
    decode build bytes = .ok (kv, nextLogits) ↔ encode kv nextLogits = bytes := by
  refine ⟨encode_of_decode build bytes hlen kv nextLogits, ?_⟩
  rintro rfl
  exact decode_encode build kv nextLogits hlen

end Blob

end SkegHull
