import SkegHull.Header
import SkegHull.Lib.Utf8

/-!
# Tag Aggregate Section

A count and then that many entries, each a count, a length, and a UTF-8 string.
Unlike the centroid section this one delimits itself, so the decoder carries a
cursor and checks, before every read, that the buffer goes far enough.

`decodeEntries_succ` is one turn of that loop with the machine arithmetic
settled. The cursor never leaves the buffer and a buffer fits an address space,
so no sum of the two overflows. After it, an induction on the number of
entries still to come gives safety (`decodeEntries_safe`) and completeness
(`decodeEntries_of_bytes`).

## Main definitions

* `TagEntry`: A tag and how often it occurs.
* `TagEntry.bytes`: One entry's encoding.
* `Tags.encode`, `Tags.decode`: The codec of the section.

## Theorems

* `encode_eq`: Encoding succeeds exactly when every tag is short enough.
* `decodeEntries_succ`: One turn of the loop.
* `decode_safe`: Decoding never panics.
* `decode_of_bytes`: The section is read back.
* `decode_eq_ok_iff`: A section decodes to what it is the encoding of.
-/

namespace SkegHull

open Lib

/-- Aggregated tag with its occurrence count. -/
structure TagEntry where
  count : UInt32
  tag : String
  deriving DecidableEq

/-- The tag is at most 65535 bytes long. -/
def TagEntry.Short (e : TagEntry) : Prop := (utf8 e.tag).length ≤ 65535

instance (e : TagEntry) : Decidable e.Short := inferInstanceAs (Decidable (_ ≤ _))

/-- The bytes of one entry. -/
def TagEntry.bytes (e : TagEntry) : Bytes :=
  toLe e.count ++ (toLe (UInt16.ofNat (utf8 e.tag).length) ++ utf8 e.tag)

namespace Tags

/-- Encode the full section. -/
def encode (entries : List TagEntry) : Outcome Error Bytes :=
  let out := toLe (UInt32.ofNat entries.length)
  entries.foldlM (fun out e => do
    let bytes := utf8 e.tag
    failIf (65535 < bytes.length)
      (.malformed s!"tag too long: {bytes.length} bytes (max {65535})")
    let out := out ++ toLe e.count
    let out := out ++ toLe (UInt16.ofNat bytes.length)
    .ok (out ++ bytes)) out

/-- The loop: `n` more entries from the cursor on, the next one being the
    `i`-th. -/
def decodeEntries (build : Build) (buf : Bytes) :
    Nat → Nat → Nat → List TagEntry → Outcome Error (List TagEntry × Nat)
  | 0, _, cur, out => .ok (out, cur)
  | n + 1, i, cur, out => do
      -- The six bytes of count and length are checked for at once.
      let fixedEnd ← build.add cur 6
      failIf (buf.length < fixedEnd) (.malformed s!"tag aggregate truncated at entry {i}")
      let stop ← build.add cur 4
      let entryCount ← readLe UInt32 buf cur stop
      let cur ← build.add cur 4
      let stop ← build.add cur 2
      let len ← readLe UInt16 buf cur stop
      let cur ← build.add cur 2
      let bodyEnd ← build.add cur len.toNat
      failIf (buf.length < bodyEnd) (.malformed s!"tag aggregate body truncated at entry {i}")
      let stop ← build.add cur len.toNat
      let raw ← slice buf cur stop
      let tag ← okOr (fromUtf8 raw) (.malformed s!"invalid UTF-8 in tag {i}: {utf8ErrorText raw}")
      let cur ← build.add cur len.toNat
      decodeEntries build buf n (i + 1) cur (out ++ [⟨entryCount, tag⟩])

/-- Decode the section. -/
def decode (build : Build) (buf : Bytes) : Outcome Error (List TagEntry) := do
  failIf (buf.length < 4) (.malformed "tag aggregate section too short")
  let count ← readLe UInt32 buf 0 4
  let (out, cur) ← decodeEntries build buf count.toNat 0 4 []
  failWith (cur ≠ buf.length) (do
    let extra ← build.sub buf.length cur
    .ok (.malformed s!"tag aggregate has {extra} trailing bytes"))
  .ok out

/-! ### Encoding -/

/-- Encoding succeeds exactly when every tag is short enough, and is an error
    otherwise. -/
theorem encode_eq (entries : List TagEntry) :
    ((∀ e ∈ entries, e.Short) →
      encode entries = .ok (toLe (UInt32.ofNat entries.length) ++ entries.flatMap TagEntry.bytes)) ∧
    ((∃ e ∈ entries, ¬ e.Short) → (encode entries).IsErr) := by
  unfold encode
  simp only
  -- With any bytes in front, so that the induction goes through.
  generalize toLe (UInt32.ofNat entries.length) = out
  induction entries generalizing out with
  | nil =>
      constructor
      · intro _
        rw [List.foldlM_nil, List.flatMap_nil, List.append_nil]
        rfl
      · rintro ⟨e, he, _⟩
        exact absurd he List.not_mem_nil
  | cons e es ih =>
      rw [List.foldlM_cons]
      by_cases hs : e.Short
      · rw [failIf_of_not _ _ (by unfold TagEntry.Short at hs; omega), Outcome.ok_bind,
          Outcome.ok_bind]
        have hrest := ih (out ++ toLe e.count ++ toLe (UInt16.ofNat (utf8 e.tag).length)
          ++ utf8 e.tag)
        constructor
        · intro hall
          rw [hrest.1 fun d hd => hall d (List.mem_cons_of_mem _ hd), List.flatMap_cons,
            TagEntry.bytes]
          simp only [List.append_assoc]
        · rintro ⟨d, hd, hne⟩
          rcases List.mem_cons.mp hd with rfl | hd
          · exact absurd hs hne
          · exact hrest.2 ⟨d, hd, hne⟩
      · rw [failIf_of _ _ (by unfold TagEntry.Short at hs; omega), Outcome.err_bind,
          Outcome.err_bind]
        exact ⟨fun hall => absurd (hall e List.mem_cons_self) hs, fun _ => Outcome.isErr_err _⟩

/-! ### The loop -/

variable (build : Build) (buf : Bytes)

/-- One turn of the loop, from a cursor inside the buffer. -/
theorem decodeEntries_succ (n i cur : Nat) (out : List TagEntry) (hlen : buf.length < 2 ^ 63)
    (hcur : cur ≤ buf.length) :
    decodeEntries build buf (n + 1) i cur out =
      if buf.length < cur + 6 then .err (.malformed s!"tag aggregate truncated at entry {i}")
      else
        let next := cur + 6 + (fromLe UInt16 (cut buf (cur + 4) (cur + 6))).toNat
        let raw := cut buf (cur + 6) next
        if buf.length < next then
          .err (.malformed s!"tag aggregate body truncated at entry {i}")
        else match fromUtf8 raw with
          | none => .err (.malformed s!"invalid UTF-8 in tag {i}: {utf8ErrorText raw}")
          | some tag => decodeEntries build buf n (i + 1) next
              (out ++ [⟨fromLe UInt32 (cut buf cur (cur + 4)), tag⟩]) := by
  rw [decodeEntries, add_of_lt _ _ _ (by omega), Outcome.ok_bind]
  by_cases hfixed : buf.length < cur + 6
  · rw [if_pos hfixed, failIf_of _ _ hfixed, Outcome.err_bind]
  rw [if_neg hfixed, failIf_of_not _ _ hfixed, Outcome.ok_bind, add_of_lt _ _ _ (by omega),
    Outcome.ok_bind, readLe_eq buf cur (cur + 4) (by omega) rfl, Outcome.ok_bind, Outcome.ok_bind,
    add_of_lt _ _ _ (by omega), Outcome.ok_bind,
    readLe_eq buf (cur + 4) (cur + 4 + 2) (by omega) rfl, Outcome.ok_bind, Outcome.ok_bind]
  simp only [Nat.add_assoc, Nat.reduceAdd]
  -- The length is a 16-bit number, so the sums with it stay small.
  have hword := (fromLe UInt16 (cut buf (cur + 4) (cur + 6))).toNat_lt
  generalize (fromLe UInt16 (cut buf (cur + 4) (cur + 6))).toNat = len at hword
  rw [add_of_lt _ _ _ (by omega), Outcome.ok_bind]
  simp only [Nat.add_assoc]
  by_cases hbody : buf.length < cur + (6 + len)
  · rw [if_pos hbody, failIf_of _ _ hbody, Outcome.err_bind]
  rw [if_neg hbody, failIf_of_not _ _ hbody, Outcome.ok_bind, Outcome.ok_bind,
    slice_eq _ _ _ (by omega) (by omega), Outcome.ok_bind]
  cases fromUtf8 (cut buf (cur + 6) (cur + (6 + len))) with
  | none => rw [okOr_none, Outcome.err_bind]
  | some tag => rw [okOr_some, Outcome.ok_bind, Outcome.ok_bind]

/-- The loop never panics, and it leaves the cursor inside the buffer. -/
theorem decodeEntries_safe (hlen : buf.length < 2 ^ 63) (n i cur : Nat) (out : List TagEntry)
    (hcur : cur ≤ buf.length) :
    (decodeEntries build buf n i cur out).Safe ∧
      ∀ out' cur', decodeEntries build buf n i cur out = .ok (out', cur') → cur' ≤ buf.length := by
  induction n generalizing i cur out with
  | zero =>
      refine ⟨Outcome.safe_ok _, fun out' cur' h => ?_⟩
      rw [decodeEntries, Outcome.ok.injEq, Prod.mk.injEq] at h
      rw [← h.2]
      exact hcur
  | succ n ih =>
      -- An error is safe, and leaves no cursor.
      have herr : ∀ e : Error, (Outcome.err e : Outcome Error (List TagEntry × Nat)).Safe ∧
          ∀ out' cur', (Outcome.err e : Outcome Error (List TagEntry × Nat)) = .ok (out', cur') →
            cur' ≤ buf.length :=
        fun e => ⟨Outcome.safe_err e, fun _ _ h => nomatch h⟩
      rw [decodeEntries_succ build buf n i cur out hlen hcur]
      by_cases hfixed : buf.length < cur + 6
      · rw [if_pos hfixed]
        exact herr _
      rw [if_neg hfixed]
      simp only
      -- The cursor moves to the end of the tag, which was compared with the length.
      generalize cur + 6 + (fromLe UInt16 (cut buf (cur + 4) (cur + 6))).toNat = next
      by_cases hbody : buf.length < next
      · rw [if_pos hbody]
        exact herr _
      rw [if_neg hbody]
      cases fromUtf8 (cut buf (cur + 6) next) with
      | none => exact herr _
      | some tag => exact ih _ _ _ (by omega)

@[simp] theorem length_entry (e : TagEntry) : e.bytes.length = 6 + (utf8 e.tag).length := by
  simp only [TagEntry.bytes, List.length_append, length_toLe, width_uint32, width_uint16]
  omega

/-- The loop reads entries back that lie at the cursor. -/
theorem decodeEntries_of_bytes (hlen : buf.length < 2 ^ 63) (es : List TagEntry)
    (hs : ∀ e ∈ es, e.Short) (i : Nat) (before after : Bytes) (out : List TagEntry)
    (hbuf : buf = before ++ (es.flatMap TagEntry.bytes ++ after)) :
    decodeEntries build buf es.length i before.length out
      = .ok (out ++ es, before.length + (es.flatMap TagEntry.bytes).length) := by
  induction es generalizing i before out with
  | nil =>
      rw [List.flatMap_nil, List.length_nil, List.length_nil, decodeEntries, List.append_nil,
        Nat.add_zero]
  | cons e es ih =>
      have hshort : (utf8 e.tag).length ≤ 65535 := hs e List.mem_cons_self
      have hlen16 : (UInt16.ofNat (utf8 e.tag).length).toNat = (utf8 e.tag).length :=
        toNat_ofNat16 _ (by omega)
      have hsplit : buf = (before ++ e.bytes) ++ (es.flatMap TagEntry.bytes ++ after) := by
        rw [hbuf, List.flatMap_cons, List.append_assoc, List.append_assoc]
      -- The fields of the entry, in front of the entries that follow.
      have hfields : buf = before ++ (toLe e.count ++ (toLe (UInt16.ofNat (utf8 e.tag).length) ++
          (utf8 e.tag ++ (es.flatMap TagEntry.bytes ++ after)))) := by
        rw [hsplit, TagEntry.bytes]
        simp only [List.append_assoc]
      have htotal := congrArg List.length hfields
      simp only [List.length_append, length_toLe, width_uint32, width_uint16] at htotal
      have hcount : fromLe UInt32 (cut buf before.length (before.length + 4)) = e.count := by
        rw [hfields, cut_append_right _ _ _ _ (le_refl _), Nat.sub_self, Nat.add_sub_cancel_left,
          cut_append_exact _ _ _ (by rw [length_toLe, width_uint32]), fromLe_toLe]
      have hword : fromLe UInt16 (cut buf (before.length + 4) (before.length + 6))
          = UInt16.ofNat (utf8 e.tag).length := by
        rw [hfields, cut_append_right _ _ _ _ (by omega), Nat.add_sub_cancel_left,
          Nat.add_sub_cancel_left, cut_append_right _ _ _ _ (by rw [length_toLe, width_uint32]),
          length_toLe, width_uint32,
          cut_append_exact _ _ _ (by rw [length_toLe, width_uint16]), fromLe_toLe]
      have htag : cut buf (before.length + 6) (before.length + 6 + (utf8 e.tag).length)
          = utf8 e.tag := by
        rw [hfields, cut_append_right _ _ _ _ (by omega), Nat.add_sub_cancel_left,
          Nat.add_assoc, Nat.add_sub_cancel_left,
          cut_append_right _ _ _ _ (by rw [length_toLe, width_uint32]; omega),
          cut_append_right _ _ _ _ (by rw [length_toLe, length_toLe, width_uint32, width_uint16])]
        simp only [length_toLe, width_uint32, width_uint16]
        exact cut_append_exact _ _ _ (by omega)
      have hnext : before.length + 6 + (utf8 e.tag).length = (before ++ e.bytes).length := by
        rw [List.length_append, length_entry]
        omega
      -- None of the three ways to fail is taken.
      rw [List.length_cons, decodeEntries_succ _ _ _ _ _ _ hlen (by omega), if_neg (by omega)]
      simp only
      rw [hword, hlen16, if_neg (by omega), htag, fromUtf8_utf8, hcount]
      simp only
      rw [hnext, ih (fun d hd => hs d (List.mem_cons_of_mem _ hd)) _ (before ++ e.bytes) _ hsplit,
        List.append_assoc, List.singleton_append, List.length_append, List.flatMap_cons,
        List.length_append, Nat.add_assoc]

/-- What the loop returns encodes to the bytes it passed over, and every tag is
    short. -/
theorem decodeEntries_inv (hlen : buf.length < 2 ^ 63) (n i cur : Nat) (out out' : List TagEntry)
    (cur' : Nat) (hcur : cur ≤ buf.length)
    (h : decodeEntries build buf n i cur out = .ok (out', cur')) :
    ∃ es : List TagEntry, out' = out ++ es ∧ es.length = n ∧ (∀ e ∈ es, e.Short) ∧
      cur ≤ cur' ∧ cur' ≤ buf.length ∧ es.flatMap TagEntry.bytes = cut buf cur cur' := by
  induction n generalizing i cur out with
  | zero =>
      rw [decodeEntries, Outcome.ok.injEq, Prod.mk.injEq] at h
      rcases h with ⟨rfl, rfl⟩
      refine ⟨[], by rw [List.append_nil], rfl, fun e he => absurd he List.not_mem_nil, le_refl _,
        hcur, ?_⟩
      simp only [List.flatMap_nil, cut, Nat.sub_self, List.take_zero]
  | succ n ih =>
      rw [decodeEntries_succ build buf n i cur out hlen hcur] at h
      by_cases hfixed : buf.length < cur + 6
      · rw [if_pos hfixed] at h
        cases h
      rw [if_neg hfixed] at h
      simp only at h
      have hword := (fromLe UInt16 (cut buf (cur + 4) (cur + 6))).toNat_lt
      have hnext : ∃ next, next = cur + 6 + (fromLe UInt16 (cut buf (cur + 4) (cur + 6))).toNat :=
        ⟨_, rfl⟩
      rcases hnext with ⟨next, hnext⟩
      rw [← hnext] at h
      by_cases hbody : buf.length < next
      · rw [if_pos hbody] at h
        cases h
      rw [if_neg hbody] at h
      cases htag : fromUtf8 (cut buf (cur + 6) next) with
      | none =>
          rw [htag] at h
          cases h
      | some tag =>
          rw [htag] at h
          rcases ih (i + 1) next _ (by omega) h with ⟨es, hout, hes, hshort, hle, hend, hbytes⟩
          -- The entry that was read is stored in the bytes it was read from.
          have hraw := utf8_of_fromUtf8 _ _ htag
          have hsize : (utf8 tag).length = (fromLe UInt16 (cut buf (cur + 4) (cur + 6))).toNat := by
            rw [hraw, length_cut_of_le _ _ _ (by omega)]
            omega
          have hentry : TagEntry.bytes ⟨fromLe UInt32 (cut buf cur (cur + 4)), tag⟩
              = cut buf cur next := by
            rw [TagEntry.bytes]
            simp only
            rw [hsize, UInt16.ofNat_toNat, hraw,
              toLe_cut buf cur (cur + 4) (by omega) rfl,
              toLe_cut buf (cur + 4) (cur + 6) (by omega) rfl,
              cut_append_cut _ _ _ _ (by omega) (by omega),
              cut_append_cut _ _ _ _ (by omega) (by omega)]
          refine ⟨⟨fromLe UInt32 (cut buf cur (cur + 4)), tag⟩ :: es, ?_,
            by rw [List.length_cons, hes], ?_, by omega, hend, ?_⟩
          · rw [hout, List.append_assoc, List.singleton_append]
          · intro e he
            rcases List.mem_cons.mp he with rfl | he
            · unfold TagEntry.Short
              simp only
              omega
            · exact hshort e he
          · rw [List.flatMap_cons, hentry, hbytes, cut_append_cut _ _ _ _ (by omega) hle]

/-! ### Decoding -/

/-- Decoding never panics. -/
theorem decode_safe (hlen : buf.length < 2 ^ 63) : (decode build buf).Safe := by
  unfold decode
  by_cases h4 : buf.length < 4
  · rw [failIf_of _ _ h4, Outcome.err_bind]
    exact Outcome.safe_err _
  rw [failIf_of_not _ _ h4, Outcome.ok_bind, readLe_eq buf 0 4 (by omega) rfl, Outcome.ok_bind]
  -- The loop leaves the cursor inside, so the difference does not underflow.
  have hloop := decodeEntries_safe build buf hlen (fromLe UInt32 (cut buf 0 4)).toNat 0 4 []
    (by omega)
  refine Outcome.safe_bind _ _ hloop.1 ?_
  rintro ⟨out, cur⟩ hrun
  simp only
  by_cases hend : cur = buf.length
  · rw [failWith_of_not _ _ (not_not.mpr hend), Outcome.ok_bind]
    exact Outcome.safe_ok _
  · rw [sub_of_le _ _ _ (hloop.2 out cur hrun), Outcome.ok_bind, failWith_of _ _ hend,
      Outcome.err_bind]
    exact Outcome.safe_err _

theorem decodeEntries_errs (hlen : buf.length < 2 ^ 63) (n i cur : Nat) (out : List TagEntry)
    (hcur : cur ≤ buf.length) : (decodeEntries build buf n i cur out).Errs Error.Semantic := by
  induction n generalizing i cur out with
  | zero => exact Outcome.errs_ok _ _
  | succ n ih =>
      rw [decodeEntries_succ build buf n i cur out hlen hcur]
      by_cases hfixed : buf.length < cur + 6
      · rw [if_pos hfixed]
        exact (Outcome.errs_err _ _).mpr trivial
      rw [if_neg hfixed]
      simp only
      generalize cur + 6 + (fromLe UInt16 (cut buf (cur + 4) (cur + 6))).toNat = next
      by_cases hbody : buf.length < next
      · rw [if_pos hbody]
        exact (Outcome.errs_err _ _).mpr trivial
      rw [if_neg hbody]
      cases fromUtf8 (cut buf (cur + 6) next) with
      | none => exact (Outcome.errs_err _ _).mpr trivial
      | some tag => exact ih _ _ _ (by omega)

/-- A malformed section is the only error. -/
theorem decode_errs (hlen : buf.length < 2 ^ 63) : (decode build buf).Errs Error.Semantic := by
  unfold decode
  by_cases h4 : buf.length < 4
  · rw [failIf_of _ _ h4, Outcome.err_bind]
    exact (Outcome.errs_err _ _).mpr trivial
  rw [failIf_of_not _ _ h4, Outcome.ok_bind, readLe_eq buf 0 4 (by omega) rfl, Outcome.ok_bind]
  refine Outcome.errs_bind _ _ _ (decodeEntries_errs build buf hlen _ 0 4 [] (by omega)) ?_
  rintro ⟨out, cur⟩ _
  refine Outcome.errs_bind _ _ _ (errs_failWith _ _ _ ?_ fun e he => ?_) fun _ _ =>
    Outcome.errs_ok _ _
  · exact Outcome.errs_bind _ _ _ (errs_sub build _ _ _) fun _ _ => Outcome.errs_ok _ _
  · rcases (Outcome.bind_eq_ok_iff _ _ _).mp he with ⟨extra, _, hmal⟩
    rw [← Outcome.ok.inj hmal]
    exact trivial

/-- The section is read back. -/
theorem decode_of_bytes (es : List TagEntry) (hs : ∀ e ∈ es, e.Short)
    (hcount : es.length < 2 ^ 32)
    (hlen : (toLe (UInt32.ofNat es.length) ++ es.flatMap TagEntry.bytes).length < 2 ^ 63) :
    decode build (toLe (UInt32.ofNat es.length) ++ es.flatMap TagEntry.bytes) = .ok es := by
  have hn : (UInt32.ofNat es.length).toNat = es.length := toNat_ofNat32 _ hcount
  have hhead : (toLe (UInt32.ofNat es.length)).length = 4 := length_toLe _
  have hrun := decodeEntries_of_bytes build _ hlen es hs 0 (toLe (UInt32.ofNat es.length)) [] []
    (by rw [List.append_nil])
  rw [hhead, List.nil_append] at hrun
  unfold decode
  rw [failIf_of_not _ _ (by rw [List.length_append, hhead]; omega), Outcome.ok_bind,
    readLe_eq _ 0 4 (by rw [List.length_append, hhead]; omega) rfl, Outcome.ok_bind,
    cut_append_exact _ _ _ hhead.symm, fromLe_toLe, hn, hrun, Outcome.ok_bind]
  simp only
  -- The cursor is at the end, so nothing trails.
  rw [failWith_of_not _ _ (by rw [List.length_append, hhead]; exact not_not.mpr rfl),
    Outcome.ok_bind]

/-- A section decodes to some tags exactly when it is their encoding. -/
theorem decode_eq_ok_iff (hlen : buf.length < 2 ^ 63) (es : List TagEntry) :
    decode build buf = .ok es ↔
      (∀ e ∈ es, e.Short) ∧ es.length < 2 ^ 32 ∧
        buf = toLe (UInt32.ofNat es.length) ++ es.flatMap TagEntry.bytes := by
  constructor
  · intro h
    unfold decode at h
    by_cases h4 : buf.length < 4
    · rw [failIf_of _ _ h4, Outcome.err_bind] at h
      cases h
    rw [failIf_of_not _ _ h4, Outcome.ok_bind, readLe_eq buf 0 4 (by omega) rfl, Outcome.ok_bind,
      Outcome.bind_eq_ok_iff] at h
    rcases h with ⟨⟨out, cur⟩, hrun, h⟩
    simp only at h
    -- Bytes behind the last entry are refused.
    by_cases hend : cur = buf.length
    · rw [failWith_of_not _ _ (not_not.mpr hend), Outcome.ok_bind, Outcome.ok.injEq] at h
      rcases decodeEntries_inv build buf hlen _ 0 4 [] out cur (by omega) hrun with
        ⟨es', hout, hes, hshort, _, _, hbytes⟩
      rw [List.nil_append] at hout
      rw [← h, hout]
      refine ⟨hshort, by rw [hes]; exact (fromLe UInt32 (cut buf 0 4)).toNat_lt, ?_⟩
      rw [hes, UInt32.ofNat_toNat, hbytes, hend,
        toLe_cut buf 0 4 (by omega) rfl, cut_append_cut _ _ _ _ (by omega) (by omega),
        cut_exact _ _ rfl]
    · have hcur := (decodeEntries_safe build buf hlen _ 0 4 [] (by omega)).2 out cur hrun
      rw [sub_of_le _ _ _ hcur, Outcome.ok_bind, failWith_of _ _ hend, Outcome.err_bind] at h
      cases h
  · rintro ⟨hs, hcount, hbuf⟩
    rw [hbuf] at hlen ⊢
    exact decode_of_bytes build es hs hcount hlen

end Tags

end SkegHull
