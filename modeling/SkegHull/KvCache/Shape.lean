import SkegHull.Header

/-!
# Shape Section

The tensor metadata of a cache, and the size its blob is supposed to have.

The size is a product of four numbers from the file and two small factors, or
the quantized variant of it with two divisions. It is computed on 64-bit words
with unchecked operators, so there are three things to tell apart. `blobBytes`
is the size itself, a natural number. `SizeFits` says that the computation of it
never leaves 64 bits, which is a condition on the partial products and not only
on the result: a cache of zero tokens has size zero and can still overflow on
the way there. `expectedBlobBytes` is what the machine does. The first two
explain the third: it is the size when it fits, and it is safe in every build
only then.

## Main definitions

* `KvDtype`, `KvLayout`, `QuantParams`, `KvCacheShape`: The data.
* `KvCacheShape.expectedBlobBytes`: The size as the code computes it.
* `KvCacheShape.plainBytes`, `KvCacheShape.blobBytes`: The size as a natural
  number.
* `KvCacheShape.SizeFits`: The computation stays inside 64 bits.
* `KvCacheShape.encode`, `KvCacheShape.decode`: The codec.

## Theorems

* `expectedBlobBytes_eq`: A computation that fits gives the size.
* `expectedBlobBytes_safe_iff`: It is safe in every build exactly when it fits.
* `expectedBlobBytes_release`: An unquantized size wraps in a release build.
* `decode_safe`: Decoding never panics.
* `decode_encode`: The section is read back.
-/

namespace SkegHull

open Lib

/-- KV element dtype. -/
inductive KvDtype where
  | f16
  | bf16
  | f8
  | q8
  deriving DecidableEq, Repr

/-- Raw numeric value as stored on disk. -/
def KvDtype.asU8 : KvDtype → UInt8
  | .f16 => 1
  | .bf16 => 2
  | .f8 => 3
  | .q8 => 4

/-- Decode a raw byte into a known dtype. -/
def KvDtype.fromU8 (v : UInt8) : Outcome Error KvDtype :=
  if v = 1 then .ok .f16
  else if v = 2 then .ok .bf16
  else if v = 3 then .ok .f8
  else if v = 4 then .ok .q8
  else .err (.malformed s!"unknown KvDtype: {v}")

/-- Bytes per element. -/
def KvDtype.elementBytes : KvDtype → Nat
  | .f16 => 2
  | .bf16 => 2
  | .f8 => 1
  | .q8 => 1

/-- In-memory layout of the cache. -/
inductive KvLayout where
  | contiguous
  | paged
  deriving DecidableEq, Repr

/-- Raw numeric value as stored on disk. -/
def KvLayout.asU8 : KvLayout → UInt8
  | .contiguous => 1
  | .paged => 2

/-- Decode a raw byte into a known layout. -/
def KvLayout.fromU8 (v : UInt8) : Outcome Error KvLayout :=
  if v = 1 then .ok .contiguous
  else if v = 2 then .ok .paged
  else .err (.malformed s!"unknown KvLayout: {v}")

@[simp] theorem KvDtype.fromU8_asU8 (d : KvDtype) : fromU8 d.asU8 = .ok d := by
  cases d <;> rfl

@[simp] theorem KvLayout.fromU8_asU8 (l : KvLayout) : fromU8 l.asU8 = .ok l := by
  cases l <;> rfl

/-- A byte that decodes is the one that is stored. -/
theorem KvDtype.asU8_of_fromU8 (v : UInt8) (d : KvDtype) (h : fromU8 v = .ok d) : d.asU8 = v := by
  unfold fromU8 at h
  split_ifs at h with h1 h2 h3 h4
  all_goals
    rw [Outcome.ok.injEq] at h
    subst h
    symm
    assumption

theorem KvLayout.asU8_of_fromU8 (v : UInt8) (l : KvLayout) (h : fromU8 v = .ok l) :
    l.asU8 = v := by
  unfold fromU8 at h
  split_ifs at h with h1 h2
  all_goals
    rw [Outcome.ok.injEq] at h
    subst h
    symm
    assumption

theorem KvDtype.fromU8_safe (v : UInt8) : (fromU8 v).Safe := by
  unfold fromU8
  split_ifs
  all_goals first | exact Outcome.safe_ok _ | exact Outcome.safe_err _

theorem KvLayout.fromU8_safe (v : UInt8) : (fromU8 v).Safe := by
  unfold fromU8
  split_ifs
  all_goals first | exact Outcome.safe_ok _ | exact Outcome.safe_err _

theorem KvDtype.fromU8_errs (v : UInt8) : (fromU8 v).Errs Error.Semantic := by
  unfold fromU8
  split_ifs
  all_goals first | exact Outcome.errs_ok _ _ | exact (Outcome.errs_err _ _).mpr trivial

theorem KvLayout.fromU8_errs (v : UInt8) : (fromU8 v).Errs Error.Semantic := by
  unfold fromU8
  split_ifs
  all_goals first | exact Outcome.errs_ok _ _ | exact (Outcome.errs_err _ _).mpr trivial

theorem KvDtype.one_le_elementBytes (d : KvDtype) : 1 ≤ d.elementBytes := by
  cases d <;> decide

/-- Quantization parameters. -/
structure QuantParams where
  groupSize : UInt32
  bits : UInt8
  deriving DecidableEq, Repr

/-- Tensor shape metadata. -/
structure KvCacheShape where
  numLayers : UInt32
  nKvHeads : UInt32
  headDim : UInt32
  numTokens : UInt32
  dtype : KvDtype
  layout : KvLayout
  quant : Option QuantParams
  deriving DecidableEq, Repr

namespace KvCacheShape

/-! ### The size of the blob -/

/-- Expected size of the KV blob in bytes, on 64-bit words. -/
def expectedBlobBytes {ε : Type} (build : Build) (s : KvCacheShape) : Outcome ε Nat :=
  let nLayers := s.numLayers.toNat
  let nHeads := s.nKvHeads.toNat
  let headDim := s.headDim.toNat
  let nTokens := s.numTokens.toNat
  match s.quant with
  | none => do
      let size ← build.mul nLayers nHeads
      let size ← build.mul size headDim
      let size ← build.mul size nTokens
      let size ← build.mul size s.dtype.elementBytes
      build.mul size 2
  | some q => do
      let bits := q.bits.toNat
      let groupSize := q.groupSize.toNat
      let scaleBytes := s.dtype.elementBytes
      let packed ← build.mul nHeads nTokens
      let packed ← build.mul packed headDim
      let packed ← build.mul packed bits
      let packed := packed / 8
      let scales ← build.mul nHeads nTokens
      let scales ← build.mul scales headDim
      let scales ← divide scales groupSize
      let scales ← build.mul scales scaleBytes
      let both ← build.mul 2 scales
      let perKv ← build.add packed both
      let layers ← build.mul nLayers 2
      build.mul layers perKv

/-- Elements of one K or V tensor of one layer. -/
def elements (s : KvCacheShape) : Nat := s.nKvHeads.toNat * s.numTokens.toNat * s.headDim.toNat

/-- Bytes of one quantized K or V tensor of one layer: packed elements, then a
    scale and a bias per group. -/
def quantBytes (s : KvCacheShape) (q : QuantParams) : Nat :=
  s.elements * q.bits.toNat / 8
    + 2 * (s.elements / q.groupSize.toNat * s.dtype.elementBytes)

/-- The size of an unquantized blob as a natural number. -/
def plainBytes (s : KvCacheShape) : Nat :=
  s.numLayers.toNat * s.nKvHeads.toNat * s.headDim.toNat * s.numTokens.toNat
    * s.dtype.elementBytes * 2

/-- The size of the blob as a natural number. -/
def blobBytes (s : KvCacheShape) : Nat :=
  match s.quant with
  | none => s.plainBytes
  | some q => s.numLayers.toNat * 2 * s.quantBytes q

/-- No step of the computation leaves 64 bits, and none divides by zero. -/
def SizeFits (s : KvCacheShape) : Prop :=
  match s.quant with
  | none => s.numLayers.toNat * s.nKvHeads.toNat * s.headDim.toNat < 2 ^ 64 ∧ s.blobBytes < 2 ^ 64
  | some q => q.groupSize.toNat ≠ 0 ∧ s.elements < 2 ^ 64 ∧ s.elements * q.bits.toNat < 2 ^ 64 ∧
      s.quantBytes q < 2 ^ 64 ∧ s.blobBytes < 2 ^ 64

instance (s : KvCacheShape) : Decidable s.SizeFits :=
  match hq : s.quant with
  | none => decidable_of_iff (s.numLayers.toNat * s.nKvHeads.toNat * s.headDim.toNat < 2 ^ 64 ∧
      s.blobBytes < 2 ^ 64) (by simp only [SizeFits, hq])
  | some q => decidable_of_iff (q.groupSize.toNat ≠ 0 ∧ s.elements < 2 ^ 64 ∧
      s.elements * q.bits.toNat < 2 ^ 64 ∧ s.quantBytes q < 2 ^ 64 ∧ s.blobBytes < 2 ^ 64)
      (by simp only [SizeFits, hq])

/-- The product of two 32-bit numbers fits 64 bits. -/
theorem mul_lt_word (a b : UInt32) : a.toNat * b.toNat < 2 ^ 64 :=
  lt_of_lt_of_le (Nat.mul_lt_mul'' a.toNat_lt b.toNat_lt) (by decide)

/-- A computation that fits gives the size of the blob. -/
theorem expectedBlobBytes_eq {ε : Type} (build : Build) (s : KvCacheShape) (h : s.SizeFits) :
    (s.expectedBlobBytes build : Outcome ε Nat) = .ok s.blobBytes := by
  have hdtype := s.dtype.one_le_elementBytes
  unfold SizeFits at h
  unfold expectedBlobBytes
  dsimp only
  cases hq : s.quant with
  | none =>
      simp only [hq] at h
      rcases h with ⟨hrow, hall⟩
      have hsize : s.blobBytes = s.plainBytes := by
        simp only [blobBytes, hq]
      rw [hsize] at hall ⊢
      unfold plainBytes at hall ⊢
      -- A factor that is not zero makes no product smaller, so the partial products fit.
      have hbytes := lt_of_le_of_lt (Nat.le_mul_of_pos_right _ (by decide : 0 < 2)) hall
      have htokens := lt_of_le_of_lt (Nat.le_mul_of_pos_right _ hdtype) hbytes
      dsimp only
      rw [mul_of_lt _ _ _ (mul_lt_word _ _), Outcome.ok_bind, mul_of_lt _ _ _ hrow,
        Outcome.ok_bind, mul_of_lt _ _ _ htokens, Outcome.ok_bind, mul_of_lt _ _ _ hbytes,
        Outcome.ok_bind, mul_of_lt _ _ _ hall]
  | some q =>
      simp only [hq] at h
      rcases h with ⟨hgroup, helems, hbits, hquant, hall⟩
      -- The steps without a condition are bounded by the ones with one.
      have hlayers := s.numLayers.toNat_lt
      have hsize : s.blobBytes = s.numLayers.toNat * 2 * s.quantBytes q := by
        simp only [blobBytes, hq]
      rw [hsize] at hall ⊢
      unfold quantBytes at hquant hall ⊢
      unfold elements at helems hbits hquant hall ⊢
      dsimp only
      rw [mul_of_lt _ _ _ (mul_lt_word _ _), Outcome.ok_bind, mul_of_lt _ _ _ helems,
        Outcome.ok_bind, mul_of_lt _ _ _ hbits, Outcome.ok_bind, Outcome.ok_bind,
        mul_of_lt _ _ _ helems, Outcome.ok_bind,
        divide_of_pos _ _ (Nat.pos_of_ne_zero hgroup), Outcome.ok_bind,
        mul_of_lt _ _ _ (by omega), Outcome.ok_bind, mul_of_lt _ _ _ (by omega), Outcome.ok_bind,
        add_of_lt _ _ _ hquant, Outcome.ok_bind, mul_of_lt _ _ _ (by omega), Outcome.ok_bind,
        mul_of_lt _ _ _ hall]

/-- The computation is safe in every build exactly when it fits. -/
theorem expectedBlobBytes_safe_iff {ε : Type} (s : KvCacheShape) :
    (∀ build, (s.expectedBlobBytes build : Outcome ε Nat).Safe) ↔ s.SizeFits := by
  refine ⟨fun hs => ?_, fun h build => ?_⟩
  -- A debug build stops at the first step that does not fit, so each condition is needed.
  · have hdebug := hs .debug
    unfold expectedBlobBytes at hdebug
    unfold SizeFits
    dsimp only at hdebug
    cases hq : s.quant with
    | none =>
        simp only [hq, safe_mul_bind_debug_iff, safe_mul_debug_iff] at hdebug
        rcases hdebug with ⟨_, hrow, _, _, hall⟩
        simp only [blobBytes, hq]
        exact ⟨hrow, hall⟩
    | some q =>
        simp only [hq, safe_mul_bind_debug_iff, safe_mul_debug_iff, safe_add_bind_debug_iff,
          safe_divide_bind_iff] at hdebug
        rcases hdebug with ⟨_, helems, hbits, _, _, hgroup, _, _, hquant, _, hall⟩
        simp only [blobBytes, hq]
        exact ⟨hgroup, helems, hbits, hquant, hall⟩
  · rw [expectedBlobBytes_eq build s h]
    exact Outcome.safe_ok _

/-- The computation returns no error. -/
theorem expectedBlobBytes_errs {ε : Type} (P : ε → Prop) (build : Build) (s : KvCacheShape) :
    (s.expectedBlobBytes build : Outcome ε Nat).Errs P := by
  have hmul := fun a b => errs_mul (ε := ε) build a b P
  unfold expectedBlobBytes
  dsimp only
  cases s.quant with
  | none =>
      refine Outcome.errs_bind P _ _ (hmul _ _) fun _ _ => ?_
      refine Outcome.errs_bind P _ _ (hmul _ _) fun _ _ => ?_
      refine Outcome.errs_bind P _ _ (hmul _ _) fun _ _ => ?_
      exact Outcome.errs_bind P _ _ (hmul _ _) fun _ _ => hmul _ _
  | some q =>
      refine Outcome.errs_bind P _ _ (hmul _ _) fun _ _ => ?_
      refine Outcome.errs_bind P _ _ (hmul _ _) fun _ _ => ?_
      refine Outcome.errs_bind P _ _ (hmul _ _) fun _ _ => ?_
      refine Outcome.errs_bind P _ _ (hmul _ _) fun _ _ => ?_
      refine Outcome.errs_bind P _ _ (hmul _ _) fun _ _ => ?_
      refine Outcome.errs_bind P _ _ (errs_divide _ _ P) fun _ _ => ?_
      refine Outcome.errs_bind P _ _ (hmul _ _) fun _ _ => ?_
      refine Outcome.errs_bind P _ _ (hmul _ _) fun _ _ => ?_
      refine Outcome.errs_bind P _ _ (errs_add build _ _ P) fun _ _ => ?_
      exact Outcome.errs_bind P _ _ (hmul _ _) fun _ _ => hmul _ _

/-- A release build computes the size of an unquantized blob modulo
    `2 ^ 64`. -/
theorem expectedBlobBytes_release {ε : Type} (s : KvCacheShape) (hq : s.quant = none) :
    (s.expectedBlobBytes .release : Outcome ε Nat) = .ok (s.plainBytes % 2 ^ 64) := by
  unfold expectedBlobBytes plainBytes
  simp only [hq, Build.mul, word_release, Outcome.ok_bind]
  -- Reducing a factor first does not change the residue of the product.
  simp only [Nat.mod_mul_mod]

/-! ### The codec -/

/-- Encode the section. -/
def encode (s : KvCacheShape) : Bytes :=
  let out := toLe s.numLayers
  let out := out ++ toLe s.nKvHeads
  let out := out ++ toLe s.headDim
  let out := out ++ toLe s.numTokens
  let out := out ++ [s.dtype.asU8]
  let out := out ++ [s.layout.asU8]
  match s.quant with
  | some q => out ++ toLe q.groupSize ++ [q.bits]
  | none => out

/-- The quantization trailer, which the length of the section announces. -/
def decodeQuant (bytes : Bytes) : Outcome Error (Option QuantParams) :=
  if bytes.length = 23 then do
    let groupSize ← readLe UInt32 bytes 18 22
    let bits ← byteAt bytes 22
    .ok (some ⟨groupSize, bits⟩)
  else .ok none

/-- Decode the section. -/
def decode (bytes : Bytes) : Outcome Error KvCacheShape := do
  failIf (bytes.length ≠ 18 ∧ bytes.length ≠ 23)
    (.malformed s!"KvCacheShape expects 18 or 23 bytes, got {bytes.length}")
  let quant ← decodeQuant bytes
  let numLayers ← readLe UInt32 bytes 0 4
  let nKvHeads ← readLe UInt32 bytes 4 8
  let headDim ← readLe UInt32 bytes 8 12
  let numTokens ← readLe UInt32 bytes 12 16
  let dtypeRaw ← byteAt bytes 16
  let dtype ← KvDtype.fromU8 dtypeRaw
  let layoutRaw ← byteAt bytes 17
  let layout ← KvLayout.fromU8 layoutRaw
  .ok ⟨numLayers, nKvHeads, headDim, numTokens, dtype, layout, quant⟩

/-- The optional trailer of the section. -/
def quantOf (bytes : Bytes) : Option QuantParams :=
  if h : bytes.length = 23 then some ⟨fromLe UInt32 (cut bytes 18 22), bytes[22]⟩ else none

/-- The decoder on a section of one of the two sizes: only the dtype and the
    layout can still be wrong. -/
theorem decode_eq (bytes : Bytes) (h : bytes.length = 18 ∨ bytes.length = 23) :
    decode bytes = (do
      let dtype ← KvDtype.fromU8 bytes[16]
      let layout ← KvLayout.fromU8 bytes[17]
      .ok {
        numLayers := fromLe UInt32 (cut bytes 0 4)
        nKvHeads := fromLe UInt32 (cut bytes 4 8)
        headDim := fromLe UInt32 (cut bytes 8 12)
        numTokens := fromLe UInt32 (cut bytes 12 16)
        dtype := dtype
        layout := layout
        quant := quantOf bytes }) := by
  -- The trailer is there exactly when the section is the longer one.
  have hquant : decodeQuant bytes = .ok (quantOf bytes) := by
    unfold decodeQuant quantOf
    by_cases h23 : bytes.length = 23
    · rw [if_pos h23, dif_pos h23, readLe_eq bytes 18 22 (by omega) rfl, Outcome.ok_bind,
        byteAt_eq bytes 22 (by omega), Outcome.ok_bind]
    · rw [if_neg h23, dif_neg h23]
  unfold decode
  rw [failIf_of_not _ _ (by omega), Outcome.ok_bind, hquant, Outcome.ok_bind,
    readLe_eq bytes 0 4 (by omega) rfl, Outcome.ok_bind, readLe_eq bytes 4 8 (by omega) rfl,
    Outcome.ok_bind, readLe_eq bytes 8 12 (by omega) rfl, Outcome.ok_bind,
    readLe_eq bytes 12 16 (by omega) rfl, Outcome.ok_bind, byteAt_eq bytes 16 (by omega),
    Outcome.ok_bind]
  refine bind_congr fun dtype => ?_
  rw [byteAt_eq bytes 17 (by omega), Outcome.ok_bind]

/-- Decoding never panics. -/
theorem decode_safe (bytes : Bytes) : (decode bytes).Safe := by
  by_cases h : bytes.length = 18 ∨ bytes.length = 23
  · rw [decode_eq bytes h]
    simp only [Outcome.safe_bind_iff, KvDtype.fromU8_safe, KvLayout.fromU8_safe, Outcome.safe_ok,
      implies_true, and_self]
  · unfold decode
    rw [failIf_of _ _ (by omega), Outcome.err_bind]
    exact Outcome.safe_err _

/-- A malformed section is the only error. -/
theorem decode_errs (bytes : Bytes) : (decode bytes).Errs Error.Semantic := by
  by_cases h : bytes.length = 18 ∨ bytes.length = 23
  · rw [decode_eq bytes h]
    refine Outcome.errs_bind _ _ _ (KvDtype.fromU8_errs _) fun dtype _ => ?_
    refine Outcome.errs_bind _ _ _ (KvLayout.fromU8_errs _) fun layout _ => ?_
    exact Outcome.errs_ok _ _
  · unfold decode
    rw [failIf_of _ _ (by omega), Outcome.err_bind]
    exact (Outcome.errs_err _ _).mpr trivial

/-- The trailer as bytes. -/
def quantTrailer : Option QuantParams → Bytes
  | some q => toLe q.groupSize ++ [q.bits]
  | none => []

theorem encode_eq (s : KvCacheShape) :
    s.encode = toLe s.numLayers ++ (toLe s.nKvHeads ++ (toLe s.headDim ++ (toLe s.numTokens ++
      ([s.dtype.asU8] ++ ([s.layout.asU8] ++ quantTrailer s.quant))))) := by
  unfold encode quantTrailer
  cases s.quant with
  | none => simp only [List.append_assoc, List.append_nil]
  | some q => simp only [List.append_assoc]

theorem length_encode (s : KvCacheShape) :
    s.encode.length = 18 + (quantTrailer s.quant).length := by
  simp only [encode_eq, List.length_append, length_toLe, width_uint32, List.length_singleton]
  omega

theorem length_quantTrailer (q : QuantParams) : (quantTrailer (some q)).length = 5 := by
  rw [quantTrailer, List.length_append, length_toLe, width_uint32, List.length_singleton]

/-- The section is read back. -/
theorem decode_encode (s : KvCacheShape) : decode s.encode = .ok s := by
  have hlen := s.length_encode
  have hsize : s.encode.length = 18 ∨ s.encode.length = 23 := by
    cases hq : s.quant with
    | none => exact Or.inl (by rw [hlen, hq]; rfl)
    | some q => exact Or.inr (by rw [hlen, hq, length_quantTrailer])
  -- The four dimensions are words of four bytes, so the dtype is byte 16.
  have hdtype : s.encode[16] = s.dtype.asU8 := by
    have hget : s.encode[16]? = some s.dtype.asU8 := by
      simp only [encode_eq]
      rfl
    exact (List.getElem?_eq_some_iff.mp hget).2
  have hlayout : s.encode[17] = s.layout.asU8 := by
    have hget : s.encode[17]? = some s.layout.asU8 := by
      simp only [encode_eq]
      rfl
    exact (List.getElem?_eq_some_iff.mp hget).2
  have hquant : quantOf s.encode = s.quant := by
    unfold quantOf
    cases hq : s.quant with
    | none =>
        rw [hq] at hlen
        exact dif_neg (by rw [hlen]; decide)
    | some q =>
        rw [hq, length_quantTrailer] at hlen
        have hbits : s.encode[22]? = some q.bits := by
          simp only [encode_eq, hq]
          rfl
        rw [dif_pos hlen, (List.getElem?_eq_some_iff.mp hbits).2]
        simp only [encode_eq, hq, quantTrailer, cut_append_exact, cut_append_right, length_toLe,
          width_uint32, List.length_singleton, Nat.reduceLeDiff, Nat.reduceSub, le_refl,
          Nat.sub_self, fromLe_toLe]
  rw [decode_eq _ hsize, hdtype, KvDtype.fromU8_asU8, Outcome.ok_bind, hlayout,
    KvLayout.fromU8_asU8, Outcome.ok_bind, hquant]
  simp only [encode_eq, cut_append_exact, cut_append_right, length_toLe, width_uint32,
    Nat.reduceLeDiff, Nat.reduceSub, le_refl, Nat.sub_self, fromLe_toLe]

/-- What a section decodes to is stored in it. -/
theorem encode_of_decode (bytes : Bytes) (s : KvCacheShape) (h : decode bytes = .ok s) :
    s.encode = bytes := by
  have hsize : bytes.length = 18 ∨ bytes.length = 23 := by
    unfold decode at h
    simp only [Outcome.bind_eq_ok_iff, failIf_eq_ok_iff] at h
    rcases h with ⟨_, hsize, _⟩
    omega
  rw [decode_eq bytes hsize] at h
  simp only [Outcome.bind_eq_ok_iff, Outcome.ok.injEq] at h
  rcases h with ⟨dtype, hdtype, layout, hlayout, rfl⟩
  -- The trailer is everything behind the layout byte.
  have hquant : quantTrailer (quantOf bytes) = cut bytes 18 bytes.length := by
    unfold quantOf
    by_cases h23 : bytes.length = 23
    · rw [dif_pos h23, quantTrailer, toLe_cut bytes 18 22 (by omega) rfl,
        ← cut_one bytes 22 (by omega), cut_append_cut _ _ _ _ (by omega) (by omega), h23]
    · rw [dif_neg h23, quantTrailer, show bytes.length = 18 by omega]
      exact (cut_self _ _).symm
  rw [encode_eq]
  dsimp only
  rw [KvDtype.asU8_of_fromU8 _ _ hdtype, KvLayout.asU8_of_fromU8 _ _ hlayout, hquant,
    toLe_cut bytes 0 4 (by omega) rfl, toLe_cut bytes 4 8 (by omega) rfl,
    toLe_cut bytes 8 12 (by omega) rfl, toLe_cut bytes 12 16 (by omega) rfl,
    ← cut_one bytes 16 (by omega), ← cut_one bytes 17 (by omega),
    cut_append_cut _ _ _ _ (by omega) (by omega), cut_append_cut _ _ _ _ (by omega) (by omega),
    cut_append_cut _ _ _ _ (by omega) (by omega), cut_append_cut _ _ _ _ (by omega) (by omega),
    cut_append_cut _ _ _ _ (by omega) (by omega), cut_append_cut _ _ _ _ (by omega) (by omega)]
  exact cut_exact _ _ rfl

/-- A section decodes to a shape exactly when it is its encoding. -/
theorem decode_eq_ok_iff (bytes : Bytes) (s : KvCacheShape) :
    decode bytes = .ok s ↔ s.encode = bytes := by
  refine ⟨encode_of_decode bytes s, ?_⟩
  rintro rfl
  exact decode_encode s

end KvCacheShape

end SkegHull
