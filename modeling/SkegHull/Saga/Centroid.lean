import SkegHull.Header

/-!
# Centroid Section

Centroids back to back, each a count and a vector of `f32`. There is nothing in
the section that says where an entry starts. The number of entries and the
length of a vector come from the meta block, and the decoder's one check is that
their product is the length of the section. After it, two nested loops index the
buffer with a cursor and check nothing.

`decodeVector_spec` and `decodeEntries_spec` are those two loops. Each says that
if the cursor has enough bytes ahead of it, the loop returns a value, the value
encodes to exactly the bytes the cursor passed over, and the cursor ends after
them. Safety, the round trip, and the exactness of the codec are all read off
these two.

The product is computed with the machine's multiplication. It is the true one
below `2 ^ 64` and `count` and `dim` can push it past that, which is why the
results carry the bound, and why `decode_overflow` is what it is.

An `f32` is its bit pattern. The codec never looks inside.

## Main definitions

* `F32`, `Centroid`: The data.
* `Centroid.encode`, `Centroid.decode`: The codec of the section.
* `Centroid.bytes`: One entry's encoding.

## Theorems

* `encode_eq`: Encoding succeeds exactly when every vector has the dimension.
* `decodeVector_spec`, `decodeEntries_spec`: The loops.
* `decode_eq_of_lt`: Decoding when the product fits.
* `decode_overflow`: Decoding when it does not.
* `decode_of_bytes`: The section is read back.
-/

namespace SkegHull

open Lib

/-- An `f32`, as its bit pattern. -/
abbrev F32 := UInt32

/-- A single cluster centroid. -/
structure Centroid where
  clusterSize : UInt32
  vector : List F32
  deriving DecidableEq

namespace Centroid

/-- The bytes of one entry. -/
def bytes (c : Centroid) : Bytes := toLe c.clusterSize ++ c.vector.flatMap toLe

/-- Encode all centroids back to back. -/
def encode (centroids : List Centroid) (dim : UInt32) : Outcome Error Bytes :=
  centroids.foldlM (fun out c => do
    failIf (c.vector.length ≠ dim.toNat)
      (.malformed s!"centroid vector len {c.vector.length} != saga dim {dim}")
    let out := out ++ toLe c.clusterSize
    .ok (c.vector.foldl (fun out v => out ++ toLe v) out)) []

/-- Size in bytes of one entry. -/
def entrySize (build : Build) (dim : UInt32) : Outcome Error Nat := do
  let words ← build.mul dim.toNat 4
  build.add 4 words

/-- The inner loop: `n` more components from the cursor on. -/
def decodeVector (build : Build) (buf : Bytes) :
    Nat → Nat → List F32 → Outcome Error (List F32 × Nat)
  | 0, cur, vector => .ok (vector, cur)
  | n + 1, cur, vector => do
      let stop ← build.add cur 4
      let v ← readLe F32 buf cur stop
      let cur ← build.add cur 4
      decodeVector build buf n cur (vector ++ [v])

/-- The outer loop: `n` more entries from the cursor on. -/
def decodeEntries (build : Build) (buf : Bytes) (dim : UInt32) :
    Nat → Nat → List Centroid → Outcome Error (List Centroid)
  | 0, _, out => .ok out
  | n + 1, cur, out => do
      let stop ← build.add cur 4
      let clusterSize ← readLe UInt32 buf cur stop
      let cur ← build.add cur 4
      let (vector, cur) ← decodeVector build buf dim.toNat cur []
      decodeEntries build buf dim n cur (out ++ [⟨clusterSize, vector⟩])

/-- Decode `count` centroids of dimension `dim`. -/
def decode (build : Build) (buf : Bytes) (count dim : UInt32) : Outcome Error (List Centroid) := do
  let entry ← entrySize build dim
  let expected ← build.mul count.toNat entry
  failIf (buf.length ≠ expected)
    (.malformed s!"centroid section length {buf.length} != expected {expected}")
  decodeEntries build buf dim count.toNat 0 []

/-! ### Encoding -/

theorem foldl_toLe (vector : List F32) (out : Bytes) :
    vector.foldl (fun out v => out ++ toLe v) out = out ++ vector.flatMap toLe := by
  induction vector generalizing out with
  | nil => rw [List.foldl_nil, List.flatMap_nil, List.append_nil]
  | cons v vs ih => rw [List.foldl_cons, ih, List.flatMap_cons, List.append_assoc]

/-- Encoding succeeds exactly when every vector has the dimension, and is an
    error otherwise. -/
theorem encode_eq (centroids : List Centroid) (dim : UInt32) :
    ((∀ c ∈ centroids, c.vector.length = dim.toNat) →
      encode centroids dim = .ok (centroids.flatMap bytes)) ∧
    ((∃ c ∈ centroids, c.vector.length ≠ dim.toNat) → (encode centroids dim).IsErr) := by
  unfold encode
  rw [← List.nil_append (centroids.flatMap bytes)]
  generalize ([] : Bytes) = out
  -- With any bytes in front, so that the induction goes through.
  induction centroids generalizing out with
  | nil =>
      constructor
      · intro _
        rw [List.foldlM_nil, List.flatMap_nil, List.append_nil]
        rfl
      · rintro ⟨c, hc, _⟩
        exact absurd hc List.not_mem_nil
  | cons c cs ih =>
      rw [List.foldlM_cons]
      by_cases hc : c.vector.length = dim.toNat
      · rw [failIf_of_not _ _ (not_not.mpr hc), Outcome.ok_bind, Outcome.ok_bind, foldl_toLe]
        have hrest := ih (out ++ toLe c.clusterSize ++ c.vector.flatMap toLe)
        constructor
        · intro hall
          rw [hrest.1 fun d hd => hall d (List.mem_cons_of_mem _ hd), List.flatMap_cons, bytes,
            List.append_assoc, List.append_assoc, List.append_assoc]
        · rintro ⟨d, hd, hne⟩
          rcases List.mem_cons.mp hd with rfl | hd
          · exact absurd hc hne
          · exact hrest.2 ⟨d, hd, hne⟩
      · rw [failIf_of _ _ hc, Outcome.err_bind, Outcome.err_bind]
        exact ⟨fun hall => absurd (hall c List.mem_cons_self) hc, fun _ => Outcome.isErr_err _⟩

@[simp] theorem length_bytes (c : Centroid) : c.bytes.length = 4 + c.vector.length * 4 := by
  rw [bytes, List.length_append, length_toLe, width_uint32,
    length_flatMap_const _ 4 _ fun v _ => length_toLe v]

/-- Entries of one dimension are stored injectively. -/
theorem bytes_injective (c d : Centroid) (hlen : c.vector.length = d.vector.length)
    (h : c.bytes = d.bytes) : c = d := by
  unfold bytes at h
  rcases List.append_inj h (by rw [length_toLe, length_toLe]) with ⟨hsize, hvec⟩
  -- Components are words of one width, so their bytes tell them apart.
  have hv := flatMap_injective (toLe (α := F32)) 4 (fun _ => True) (fun v _ => length_toLe v)
    (fun x y _ _ hxy => toLe_injective x y hxy) c.vector d.vector (fun _ _ => trivial)
    (fun _ _ => trivial) hlen hvec
  cases c
  cases d
  simp only at hv hsize
  rw [toLe_injective _ _ hsize, hv]

/-! ### The loops -/

variable (build : Build) (buf : Bytes) (dim : UInt32)

/-- The inner loop with enough bytes ahead: it returns the components those
    bytes encode and moves the cursor past them. -/
theorem decodeVector_spec (hlen : buf.length < 2 ^ 64) :
    ∀ (n cur : Nat) (done : List F32), cur + n * 4 ≤ buf.length →
      ∃ vs : List F32, vs.length = n ∧ vs.flatMap toLe = cut buf cur (cur + n * 4) ∧
        decodeVector build buf n cur done = .ok (done ++ vs, cur + n * 4) := by
  intro n
  induction n with
  | zero =>
      intro cur done _
      refine ⟨[], rfl, ?_, ?_⟩
      · simp only [List.flatMap_nil, Nat.zero_mul, Nat.add_zero, cut, Nat.sub_self, List.take_zero]
      · simp only [decodeVector, List.append_nil, Nat.zero_mul, Nat.add_zero]
  | succ n ih =>
      intro cur done hcur
      -- One word is read at the cursor, the others behind it.
      rcases ih (cur + 4) (done ++ [fromLe F32 (cut buf cur (cur + 4))]) (by omega) with
        ⟨vs, hvs, hbytes, hrun⟩
      have hnext : cur + 4 + n * 4 = cur + (n + 1) * 4 := by omega
      refine ⟨fromLe F32 (cut buf cur (cur + 4)) :: vs, by rw [List.length_cons, hvs], ?_, ?_⟩
      -- The ranges of the first word and of the others join.
      · rw [List.flatMap_cons, hbytes, toLe_cut buf cur (cur + 4) (by omega) rfl,
          cut_append_cut _ _ _ _ (by omega) (by omega), hnext]
      · rw [decodeVector, add_of_lt _ _ _ (by omega), Outcome.ok_bind,
          readLe_eq buf cur (cur + 4) (by omega) rfl, Outcome.ok_bind, Outcome.ok_bind, hrun, hnext,
          List.append_assoc, List.singleton_append]

/-- The outer loop with enough bytes ahead. -/
theorem decodeEntries_spec (hlen : buf.length < 2 ^ 64) :
    ∀ (n cur : Nat) (done : List Centroid), cur + n * (4 + dim.toNat * 4) ≤ buf.length →
      ∃ cs : List Centroid, cs.length = n ∧ (∀ c ∈ cs, c.vector.length = dim.toNat) ∧
        cs.flatMap bytes = cut buf cur (cur + n * (4 + dim.toNat * 4)) ∧
        decodeEntries build buf dim n cur done = .ok (done ++ cs) := by
  intro n
  induction n with
  | zero =>
      intro cur done _
      refine ⟨[], rfl, fun c hc => absurd hc List.not_mem_nil, ?_, ?_⟩
      · simp only [List.flatMap_nil, Nat.zero_mul, Nat.add_zero, cut, Nat.sub_self, List.take_zero]
      · simp only [decodeEntries, List.append_nil]
  | succ n ih =>
      intro cur done hcur
      rw [Nat.succ_mul] at hcur
      -- The entry at the cursor: its size, and then its vector.
      rcases decodeVector_spec build buf hlen dim.toNat (cur + 4) [] (by omega) with
        ⟨vs, hvs, hvbytes, hvrun⟩
      rw [List.nil_append] at hvrun
      have hstep : cur + 4 + dim.toNat * 4 = cur + (4 + dim.toNat * 4) := by omega
      -- The entries behind it.
      rcases ih (cur + 4 + dim.toNat * 4) (done ++ [⟨fromLe UInt32 (cut buf cur (cur + 4)), vs⟩])
        (by omega) with ⟨cs, hcs, hdim, hbytes, hrun⟩
      refine ⟨⟨fromLe UInt32 (cut buf cur (cur + 4)), vs⟩ :: cs, by rw [List.length_cons, hcs],
        ?_, ?_, ?_⟩
      · intro c hc
        rcases List.mem_cons.mp hc with rfl | hc
        · exact hvs
        · exact hdim c hc
      · have hhead : bytes ⟨fromLe UInt32 (cut buf cur (cur + 4)), vs⟩
            = cut buf cur (cur + 4 + dim.toNat * 4) := by
          rw [bytes, hvbytes, toLe_cut buf cur (cur + 4) (by omega) rfl,
            cut_append_cut _ _ _ _ (by omega) (by omega)]
        rw [List.flatMap_cons, hbytes, hhead, cut_append_cut _ _ _ _ (by omega) (by omega),
          Nat.succ_mul, show cur + 4 + dim.toNat * 4 + n * (4 + dim.toNat * 4)
            = cur + (n * (4 + dim.toNat * 4) + (4 + dim.toNat * 4)) by omega]
      · rw [decodeEntries, add_of_lt _ _ _ (by omega), Outcome.ok_bind,
          readLe_eq buf cur (cur + 4) (by omega) rfl, Outcome.ok_bind, Outcome.ok_bind, hvrun,
          Outcome.ok_bind]
        simp only
        rw [hrun, List.append_assoc, List.singleton_append]

/-! ### Decoding -/

theorem entrySize_eq : entrySize build dim = .ok (4 + dim.toNat * 4) := by
  have hdim := dim.toNat_lt
  unfold entrySize
  rw [mul_of_lt _ _ _ (by omega), Outcome.ok_bind, add_of_lt _ _ _ (by omega)]

/-- The section size the two numbers of the meta block call for. -/
def sectionSize (count dim : UInt32) : Nat := count.toNat * (4 + dim.toNat * 4)

/-- Decoding when the product fits: the length decides, and what is returned
    encodes to the section. -/
theorem decode_eq_of_lt (count : UInt32) (hlen : buf.length < 2 ^ 64)
    (hfit : sectionSize count dim < 2 ^ 64) :
    (buf.length ≠ sectionSize count dim → (decode build buf count dim).IsErr) ∧
    (buf.length = sectionSize count dim → ∃ cs : List Centroid, cs.length = count.toNat ∧
      (∀ c ∈ cs, c.vector.length = dim.toNat) ∧ cs.flatMap bytes = buf ∧
      decode build buf count dim = .ok cs) := by
  unfold sectionSize at hfit ⊢
  unfold decode
  rw [entrySize_eq, Outcome.ok_bind, mul_of_lt _ _ _ hfit, Outcome.ok_bind]
  constructor
  · intro hne
    rw [failIf_of _ _ hne, Outcome.err_bind]
    exact Outcome.isErr_err _
  · intro heq
    rcases decodeEntries_spec build buf dim hlen count.toNat 0 [] (by omega) with
      ⟨cs, hcs, hdim, hbytes, hrun⟩
    refine ⟨cs, hcs, hdim, ?_, ?_⟩
    · rw [hbytes, Nat.zero_add, cut_exact _ _ heq.symm]
    · rw [failIf_of_not _ _ (not_not.mpr heq), Outcome.ok_bind, hrun, List.nil_append]

/-- The inner loop only returns when its components lie inside the buffer. -/
theorem decodeVector_bound (hlen : buf.length < 2 ^ 63) (n cur : Nat) (done vs : List F32)
    (cur' : Nat) (hcur : cur ≤ buf.length)
    (h : decodeVector build buf n cur done = .ok (vs, cur')) :
    cur' = cur + n * 4 ∧ cur' ≤ buf.length := by
  induction n generalizing cur done with
  | zero =>
      rw [decodeVector, Outcome.ok.injEq, Prod.mk.injEq] at h
      omega
  | succ n ih =>
      rw [decodeVector, add_of_lt _ _ _ (by omega), Outcome.ok_bind, Outcome.bind_eq_ok_iff] at h
      rcases h with ⟨v, hv, h⟩
      have hin := le_of_readLe buf cur (cur + 4) v hv
      rw [Outcome.ok_bind] at h
      have hrest := ih (cur + 4) _ hin h
      omega

/-- Nor does the outer loop, so its entries take up no more than the buffer. -/
theorem decodeEntries_bound (hlen : buf.length < 2 ^ 63) (n cur : Nat) (done cs : List Centroid)
    (hcur : cur ≤ buf.length) (h : decodeEntries build buf dim n cur done = .ok cs) :
    cur + n * (4 + dim.toNat * 4) ≤ buf.length := by
  induction n generalizing cur done with
  | zero => omega
  | succ n ih =>
      rw [decodeEntries, add_of_lt _ _ _ (by omega), Outcome.ok_bind, Outcome.bind_eq_ok_iff] at h
      rcases h with ⟨size, hsize, h⟩
      have hin := le_of_readLe buf cur (cur + 4) size hsize
      rw [Outcome.ok_bind, Outcome.bind_eq_ok_iff] at h
      rcases h with ⟨⟨vs, cur'⟩, hvector, h⟩
      have hvs := decodeVector_bound build buf hlen _ _ _ _ _ hin hvector
      have hrest := ih cur' _ hvs.2 h
      rw [Nat.succ_mul]
      omega

/-- When a section decodes, the product fits, also in a release build. -/
theorem decode_fits (count : UInt32) (cs : List Centroid) (hlen : buf.length < 2 ^ 63)
    (h : decode build buf count dim = .ok cs) : sectionSize count dim < 2 ^ 64 := by
  unfold decode at h
  simp only [Outcome.bind_eq_ok_iff] at h
  rcases h with ⟨_, _, _, _, _, _, hrun⟩
  have hbound := decodeEntries_bound build buf dim hlen _ 0 [] cs (Nat.zero_le _) hrun
  unfold sectionSize
  omega

/-- Decoding when the product does not fit: a debug build panics at the
    multiplication. -/
theorem decode_overflow (count : UInt32) (hfit : 2 ^ 64 ≤ sectionSize count dim) :
    decode .debug buf count dim = .panic .overflow := by
  unfold sectionSize at hfit
  unfold decode
  -- The product panics before it is compared with anything.
  have hmul : (Build.debug.mul count.toNat (4 + dim.toNat * 4) : Outcome Error Nat)
      = .panic .overflow := if_neg (by omega)
  rw [entrySize_eq, Outcome.ok_bind, hmul, Outcome.panic_bind]

/-- Decoding is safe in every build exactly when the product fits. -/
theorem decode_safe_iff (count : UInt32) (hlen : buf.length < 2 ^ 64) :
    (∀ build, (decode build buf count dim).Safe) ↔ sectionSize count dim < 2 ^ 64 := by
  constructor
  · intro hs
    by_contra hc
    have hp := hs .debug
    rw [decode_overflow buf dim count (by omega)] at hp
    exact Outcome.not_safe_panic _ hp
  · intro hfit build
    have h := decode_eq_of_lt build buf dim count hlen hfit
    -- A wrong length is an error, and with the right one the loops stay inside.
    by_cases heq : buf.length = sectionSize count dim
    · rcases h.2 heq with ⟨cs, _, _, _, hrun⟩
      rw [hrun]
      exact Outcome.safe_ok _
    · rcases h.1 heq with ⟨e, he⟩
      rw [he]
      exact Outcome.safe_err _

theorem decodeVector_errs (P : Error → Prop) (n cur : Nat) (done : List F32) :
    (decodeVector build buf n cur done).Errs P := by
  induction n generalizing cur done with
  | zero => exact Outcome.errs_ok P _
  | succ n ih =>
      rw [decodeVector]
      refine Outcome.errs_bind P _ _ (errs_add build _ _ P) fun stop _ => ?_
      refine Outcome.errs_bind P _ _ (errs_readLe P buf cur stop) fun v _ => ?_
      exact Outcome.errs_bind P _ _ (errs_add build _ _ P) fun cur' _ => ih cur' _

theorem decodeEntries_errs (P : Error → Prop) (n cur : Nat) (done : List Centroid) :
    (decodeEntries build buf dim n cur done).Errs P := by
  induction n generalizing cur done with
  | zero => exact Outcome.errs_ok P _
  | succ n ih =>
      rw [decodeEntries]
      refine Outcome.errs_bind P _ _ (errs_add build _ _ P) fun stop _ => ?_
      refine Outcome.errs_bind P _ _ (errs_readLe P buf cur stop) fun size _ => ?_
      refine Outcome.errs_bind P _ _ (errs_add build _ _ P) fun cur' _ => ?_
      exact Outcome.errs_bind P _ _ (decodeVector_errs build buf P _ _ _) fun _ _ => ih _ _

/-- A section of the wrong size is the only error. -/
theorem decode_errs (count : UInt32) : (decode build buf count dim).Errs Error.Semantic := by
  unfold decode
  rw [entrySize_eq, Outcome.ok_bind]
  refine Outcome.errs_bind _ _ _ (errs_mul build _ _ _) fun expected _ => ?_
  refine Outcome.errs_bind _ _ _ (errs_failIf _ _ _ fun _ => trivial) fun _ _ => ?_
  exact decodeEntries_errs build buf dim _ _ _ _

/-- The section is read back. -/
theorem decode_of_bytes (cs : List Centroid) (hcount : cs.length < 2 ^ 32)
    (hdim : ∀ c ∈ cs, c.vector.length = dim.toNat)
    (hlen : (cs.flatMap bytes).length < 2 ^ 64) :
    decode build (cs.flatMap bytes) (UInt32.ofNat cs.length) dim = .ok cs := by
  have hn : (UInt32.ofNat cs.length).toNat = cs.length := toNat_ofNat32 _ hcount
  have hwidth : ∀ c ∈ cs, c.bytes.length = 4 + dim.toNat * 4 := by
    intro c hc
    rw [length_bytes, hdim c hc]
  have hsize : (cs.flatMap bytes).length = sectionSize (UInt32.ofNat cs.length) dim := by
    rw [length_flatMap_const _ _ _ hwidth, sectionSize, hn]
  -- What is decoded encodes to the section, so it is what was encoded.
  rcases (decode_eq_of_lt build _ dim _ hlen (by rw [← hsize]; exact hlen)).2 hsize with
    ⟨ds, hds, hddim, hbytes, hrun⟩
  have heq : ds = cs := flatMap_injective bytes (4 + dim.toNat * 4)
    (fun c => c.vector.length = dim.toNat) (fun c hc => by rw [length_bytes, hc])
    (fun c d hc hd h => bytes_injective c d (by rw [hc, hd]) h) ds cs hddim hdim
    (by rw [hds, hn]) hbytes
  rw [hrun, heq]

/-- A section decodes to some centroids exactly when they have the number and the
    dimension it is decoded with and it is their encoding. -/
theorem decode_eq_ok_iff (count : UInt32) (hlen : buf.length < 2 ^ 63) (cs : List Centroid) :
    decode build buf count dim = .ok cs ↔
      cs.length = count.toNat ∧ (∀ c ∈ cs, c.vector.length = dim.toNat) ∧
        buf = cs.flatMap bytes := by
  constructor
  · intro h
    have hfit := decode_fits build buf dim count cs hlen h
    have hdecode := decode_eq_of_lt build buf dim count (by omega) hfit
    have hsize : buf.length = sectionSize count dim := by
      by_contra hne
      rcases hdecode.1 hne with ⟨e, he⟩
      rw [he] at h
      cases h
    rcases hdecode.2 hsize with ⟨ds, hds, hdim, hbytes, hrun⟩
    rw [hrun, Outcome.ok.injEq] at h
    rw [← h]
    exact ⟨hds, hdim, hbytes.symm⟩
  · rintro ⟨hcount, hdim, hbuf⟩
    have hn : UInt32.ofNat cs.length = count := by rw [hcount, UInt32.ofNat_toNat]
    rw [hbuf] at hlen ⊢
    rw [← hn]
    exact decode_of_bytes build dim cs (by rw [hcount]; exact count.toNat_lt) hdim (by omega)

end Centroid

end SkegHull
