import Mathlib.Data.Nat.ModEq
import Mathlib.Tactic.Ring
import SkegHull.KvCache.RoundTrip

/-!
# The Quantized Size and the Token Axis

The size of a quantized blob is a sum of two quotients, and both divide after
the product with the number of tokens. A row of one token may leave a remainder
in each of them: the packed elements of a row need not fill a byte, and the
elements of a row need not fill a group. Rows put together then share a byte or
a group, and the size of the whole is more than the sizes of its parts.

`joinsEvenly_iff` and `splitsEvenly_iff` say exactly when this does not happen,
by the remainders. The check of the reader compares with the same size, so it
accepts a blob that is longer than its rows, and no other: `quant_size_iff`.

The documentation divides the head dimension by the group size and not the whole
product. `documentedBytes` is its formula, and `blobBytes_eq_documented_iff` says
when the two agree.

## Main definitions

* `withTokens`: The same shape for another number of tokens.
* `rowsBytes`: The bytes of some tokens in one K or V tensor of a layer.
* `JoinsEvenly`, `SplitsEvenly`: The remainders stay below the divisors.
* `documentedBytes`: The formula of the documentation.

## Theorems

* `rowsBytes_add_iff`, `rowsBytes_mul_iff`: When rounding does not show.
* `quant_size_iff`: When the size is a size per token.
* `straddling_accepted`: A cache of two tokens whose blob is longer than two rows.
-/

namespace SkegHull

open Lib

/-- Rounding a sum down is rounding its parts down, when the remainders do not add up to
    another unit. -/
theorem add_div_eq_iff (a b d : Nat) (hd : 0 < d) :
    (a + b) / d = a / d + b / d ↔ a % d + b % d < d := by
  rw [Nat.add_div hd]
  split_ifs with h
  · omega
  · omega

/-- Rounding a multiple down is a multiple of rounding down, when the remainders do not add
    up to a unit. -/
theorem mul_div_eq_iff (t a d : Nat) (hd : 0 < d) :
    t * a / d = t * (a / d) ↔ t * (a % d) < d := by
  have hsplit : t * a = d * (t * (a / d)) + t * (a % d) := by
    conv_lhs => rw [← Nat.div_add_mod a d]
    ring
  rw [hsplit, Nat.mul_add_div hd, ← Nat.div_eq_zero_iff_lt hd]
  omega

/-- Two sums with parts that are one below the other are equal when their parts are. -/
theorem add_mul_eq_iff (a a' s s' e : Nat) (he : 0 < e) (ha : a' ≤ a) (hs : s' ≤ s) :
    a + 2 * (s * e) = a' + 2 * (s' * e) ↔ a = a' ∧ s = s' := by
  constructor
  · intro h
    have hle := Nat.mul_le_mul_right e hs
    have hparts : a = a' ∧ s * e = s' * e := by omega
    exact ⟨hparts.1, Nat.eq_of_mul_eq_mul_right he hparts.2⟩
  · rintro ⟨rfl, rfl⟩
    rfl

namespace KvCacheShape

variable (s : KvCacheShape) (q : QuantParams)

/-- The same shape for another number of tokens. -/
def withTokens (tokens : UInt32) : KvCacheShape := { s with numTokens := tokens }

/-- The elements of one token in one K or V tensor of a layer. -/
def rowElements : Nat := s.nKvHeads.toNat * s.headDim.toNat

/-- The bytes of `t` tokens in one K or V tensor of a layer. -/
def rowsBytes (t : Nat) : Nat :=
  t * (s.rowElements * q.bits.toNat) / 8
    + 2 * (t * s.rowElements / q.groupSize.toNat * s.dtype.elementBytes)

/-- The packed elements of two runs of tokens do not share a byte, and their scales do not
    share a group. -/
def JoinsEvenly (t₁ t₂ : Nat) : Prop :=
  s.numLayers.toNat = 0 ∨
    (t₁ * (s.rowElements * q.bits.toNat) % 8 + t₂ * (s.rowElements * q.bits.toNat) % 8 < 8 ∧
      t₁ * s.rowElements % q.groupSize.toNat + t₂ * s.rowElements % q.groupSize.toNat
        < q.groupSize.toNat)

/-- What `t` rows leave over does not add up to a byte, nor to a group. -/
def SplitsEvenly (t : Nat) : Prop :=
  s.numLayers.toNat = 0 ∨
    (t * (s.rowElements * q.bits.toNat % 8) < 8 ∧
      t * (s.rowElements % q.groupSize.toNat) < q.groupSize.toNat)

instance (t₁ t₂ : Nat) : Decidable (s.JoinsEvenly q t₁ t₂) :=
  inferInstanceAs (Decidable (_ ∨ _))

instance (t : Nat) : Decidable (s.SplitsEvenly q t) := inferInstanceAs (Decidable (_ ∨ _))

theorem quantBytes_withTokens (tokens : UInt32) :
    (s.withTokens tokens).quantBytes q = s.rowsBytes q tokens.toNat := by
  unfold quantBytes rowsBytes rowElements elements withTokens
  dsimp only
  rw [show s.nKvHeads.toNat * tokens.toNat * s.headDim.toNat
      = tokens.toNat * (s.nKvHeads.toNat * s.headDim.toNat) by ring, Nat.mul_assoc]

/-- The size of a quantized blob is linear in the layers. -/
theorem blobBytes_withTokens (hq : s.quant = some q) (tokens : UInt32) :
    (s.withTokens tokens).blobBytes = s.numLayers.toNat * 2 * s.rowsBytes q tokens.toNat := by
  rw [← quantBytes_withTokens, blobBytes, withTokens]
  simp only [hq]

/-- When two runs of rows need no more bytes together than apart. -/
theorem rowsBytes_add_iff (hg : 0 < q.groupSize.toNat) (t₁ t₂ : Nat) :
    s.numLayers.toNat * 2 * s.rowsBytes q (t₁ + t₂) = s.numLayers.toNat * 2 * s.rowsBytes q t₁
      + s.numLayers.toNat * 2 * s.rowsBytes q t₂ ↔ s.JoinsEvenly q t₁ t₂ := by
  have hscale : s.rowsBytes q t₁ + s.rowsBytes q t₂ =
      (t₁ * (s.rowElements * q.bits.toNat) / 8 + t₂ * (s.rowElements * q.bits.toNat) / 8)
      + 2 * ((t₁ * s.rowElements / q.groupSize.toNat + t₂ * s.rowElements / q.groupSize.toNat)
        * s.dtype.elementBytes) := by
    unfold rowsBytes
    ring
  rw [← Nat.mul_add, hscale, mul_eq_mul_left_iff]
  unfold rowsBytes JoinsEvenly
  rw [Nat.add_mul, Nat.add_mul,
    add_mul_eq_iff _ _ _ _ _ s.dtype.one_le_elementBytes Nat.div_add_div_le_add_div
      Nat.div_add_div_le_add_div, add_div_eq_iff _ _ _ (by decide), add_div_eq_iff _ _ _ hg]
  omega

/-- When `t` rows need no more bytes together than `t` times one row. -/
theorem rowsBytes_mul_iff (hg : 0 < q.groupSize.toNat) (t : Nat) :
    s.numLayers.toNat * 2 * s.rowsBytes q t = t * (s.numLayers.toNat * 2 * s.rowsBytes q 1) ↔
      s.SplitsEvenly q t := by
  have hscale : t * s.rowsBytes q 1 = t * (s.rowElements * q.bits.toNat / 8)
      + 2 * (t * (s.rowElements / q.groupSize.toNat) * s.dtype.elementBytes) := by
    unfold rowsBytes
    rw [Nat.one_mul, Nat.one_mul]
    ring
  rw [Nat.mul_left_comm t, hscale, mul_eq_mul_left_iff]
  unfold rowsBytes SplitsEvenly
  rw [add_mul_eq_iff _ _ _ _ _ s.dtype.one_le_elementBytes (Nat.mul_div_le_mul_div_assoc _ _ _)
      (Nat.mul_div_le_mul_div_assoc _ _ _), mul_div_eq_iff _ _ _ (by decide),
    mul_div_eq_iff _ _ _ hg]
  omega

theorem rowsBytes_mono (t t' : Nat) (h : t ≤ t') : s.rowsBytes q t ≤ s.rowsBytes q t' := by
  unfold rowsBytes
  gcongr

/-- When no step for some tokens leaves 64 bits, none does for fewer. -/
theorem sizeFits_mono (hq : s.quant = some q) (t t' : UInt32) (h : t.toNat ≤ t'.toNat)
    (hf : (s.withTokens t').SizeFits) : (s.withTokens t).SizeFits := by
  have hquant : ∀ tokens, (s.withTokens tokens).quant = some q := fun _ => hq
  have helements : (s.withTokens t).elements ≤ (s.withTokens t').elements := by
    unfold elements withTokens
    dsimp only
    gcongr
  have hrows := s.rowsBytes_mono q _ _ h
  unfold SizeFits at hf ⊢
  rw [hquant] at hf ⊢
  dsimp only at hf ⊢
  rw [quantBytes_withTokens, blobBytes_withTokens s q hq] at hf ⊢
  rcases hf with ⟨hg, helems, hbits, hrow, hall⟩
  -- Every product is at most the one for more tokens.
  exact ⟨hg, lt_of_le_of_lt helements helems,
    lt_of_le_of_lt (Nat.mul_le_mul_right _ helements) hbits, lt_of_le_of_lt hrows hrow,
    lt_of_le_of_lt (Nat.mul_le_mul_left _ hrows) hall⟩

/-- The size that the source computes when nothing overflows. -/
theorem expectedBlobBytes_withTokens (build : Build) (hq : s.quant = some q) (tokens : UInt32)
    (hf : (s.withTokens tokens).SizeFits) :
    ((s.withTokens tokens).expectedBlobBytes build : Outcome Error Nat)
      = .ok (s.numLayers.toNat * 2 * s.rowsBytes q tokens.toNat) := by
  rw [expectedBlobBytes_eq build _ hf, blobBytes_withTokens s q hq]

theorem groupSize_pos (hq : s.quant = some q) (hf : s.SizeFits) : 0 < q.groupSize.toNat := by
  unfold SizeFits at hf
  rw [hq] at hf
  exact Nat.pos_of_ne_zero hf.1

/-- When no product overflows, the size is additive along the token axis exactly for runs of
    rows that join evenly, and it is a multiple of the size of one row exactly when the rows
    split evenly. An accepted blob is as long as its rows in the same case. -/
theorem quant_size_iff (crate : Crc32cCrate) (build : Build) (hq : s.quant = some q) :
    (∀ t₁ t₂ t : UInt32, t.toNat = t₁.toNat + t₂.toNat → (s.withTokens t).SizeFits →
      ∃ n₁ n₂ n, (s.withTokens t₁).expectedBlobBytes build = (.ok n₁ : Outcome Error Nat) ∧
        (s.withTokens t₂).expectedBlobBytes build = (.ok n₂ : Outcome Error Nat) ∧
        (s.withTokens t).expectedBlobBytes build = (.ok n : Outcome Error Nat) ∧
        (n = n₁ + n₂ ↔ s.JoinsEvenly q t₁.toNat t₂.toNat)) ∧
    ∀ t : UInt32, (s.withTokens t).SizeFits → (s.withTokens 1).SizeFits →
      ∃ n row, (s.withTokens t).expectedBlobBytes build = (.ok n : Outcome Error Nat) ∧
        (s.withTokens 1).expectedBlobBytes build = (.ok row : Outcome Error Nat) ∧
        (n = t.toNat * row ↔ s.SplitsEvenly q t.toNat) ∧
        ∀ (r : Stream) (c : KvCache), r.Benign → r.bytes.length < 2 ^ 63 →
          readKvCache crate build r = .ok c → c.shape = s.withTokens t →
          (c.kvBlob.length = t.toNat * row ↔ s.SplitsEvenly q t.toNat) := by
  constructor
  · intro t₁ t₂ t ht hf
    have hf₁ := s.sizeFits_mono q hq t₁ t (by omega) hf
    have hf₂ := s.sizeFits_mono q hq t₂ t (by omega) hf
    refine ⟨_, _, _, s.expectedBlobBytes_withTokens q build hq t₁ hf₁,
      s.expectedBlobBytes_withTokens q build hq t₂ hf₂,
      s.expectedBlobBytes_withTokens q build hq t hf, ?_⟩
    rw [ht]
    exact s.rowsBytes_add_iff q (groupSize_pos (s.withTokens t) q hq hf) _ _
  · intro t hf hf₁
    have hsize := s.expectedBlobBytes_withTokens q build hq t hf
    have hsplit := s.rowsBytes_mul_iff q (groupSize_pos (s.withTokens t) q hq hf) t.toNat
    refine ⟨_, _, hsize, s.expectedBlobBytes_withTokens q build hq 1 hf₁, hsplit, ?_⟩
    intro r c hb hlen hread hshape
    rcases readKvCache_inv crate build r hb (by omega) c hread with ⟨header, i, sh, b, hacc⟩
    -- The reader compared the blob with this size.
    have hchecked := hacc.size
    rw [hshape, hsize, Outcome.ok.injEq] at hchecked
    rw [← hchecked]
    exact hsplit

/-- Four tokens of two groups each, at four bits. -/
def evenShape : KvCacheShape := ⟨1, 1, 128, 4, .bf16, .contiguous, some ⟨64, 4⟩⟩

/-- Their size is that of one token and of three, and four times that of one. -/
theorem quant_size_iff_even :
    (∃ n₁ n₂ n, (evenShape.withTokens 1).expectedBlobBytes .debug = (.ok n₁ : Outcome Error Nat) ∧
      (evenShape.withTokens 3).expectedBlobBytes .debug = (.ok n₂ : Outcome Error Nat) ∧
      (evenShape.withTokens 4).expectedBlobBytes .debug = (.ok n : Outcome Error Nat) ∧
      n = n₁ + n₂) ∧
    ∃ n row, (evenShape.withTokens 4).expectedBlobBytes .debug = (.ok n : Outcome Error Nat) ∧
      (evenShape.withTokens 1).expectedBlobBytes .debug = (.ok row : Outcome Error Nat) ∧
      n = 4 * row := by
  rcases evenShape.quant_size_iff ⟨64, 4⟩ castagnoli .debug rfl with ⟨hadd, hmul⟩
  constructor
  · rcases hadd 1 3 4 rfl (by decide) with ⟨n₁, n₂, n, h₁, h₂, h, hiff⟩
    exact ⟨n₁, n₂, n, h₁, h₂, h, hiff.mpr (by decide)⟩
  · rcases hmul 4 (by decide) (by decide) with ⟨n, row, h, hrow, hiff, _⟩
    exact ⟨n, row, h, hrow, hiff.mpr (by decide)⟩

/-! ### The formula of the documentation -/

/-- The size as it is documented: groups do not reach from one head to the next. -/
def documentedBytes : Nat :=
  s.numLayers.toNat * 2 * (s.elements * q.bits.toNat / 8
    + 2 * (s.nKvHeads.toNat * s.numTokens.toNat * (s.headDim.toNat / q.groupSize.toNat)
      * s.dtype.elementBytes))

/-- The source computes it exactly when the heads leave over less than a group, all
    together. -/
theorem blobBytes_eq_documented_iff (hq : s.quant = some q) (hg : 0 < q.groupSize.toNat) :
    s.blobBytes = s.documentedBytes q ↔ s.numLayers.toNat = 0 ∨
      s.nKvHeads.toNat * s.numTokens.toNat * (s.headDim.toNat % q.groupSize.toNat)
        < q.groupSize.toNat := by
  have hsize : s.blobBytes = s.numLayers.toNat * 2 * s.quantBytes q := by
    simp only [blobBytes, hq]
  rw [hsize]
  unfold documentedBytes quantBytes elements
  rw [mul_eq_mul_left_iff, add_mul_eq_iff _ _ _ _ _ s.dtype.one_le_elementBytes (le_refl _)
    (Nat.mul_div_le_mul_div_assoc _ _ _), mul_div_eq_iff _ _ _ hg]
  omega

end KvCacheShape

/-- A cache of two tokens of 64 elements each, with groups of 128. -/
def straddlingCache : KvCache where
  modelFp := Octets.zero 32
  adapterId := none
  prefixHash := Octets.zero 32
  shape := ⟨1, 1, 64, 2, .bf16, .contiguous, some ⟨128, 8⟩⟩
  kvMeta := ⟨0, 1, "m"⟩
  kvBlob := List.replicate 264 0
  nextLogits := none

theorem length_straddlingCache : straddlingCache.kvBlob.length = 264 := List.length_replicate

theorem straddlingCache_fits : straddlingCache.container.Fits := by
  rw [Container.Fits, KvCache.payloadLen_container, length_straddlingCache]
  decide

/-- A row of one token has 128 bytes and no group. Two tokens have a group together, and the
    reader accepts 264 bytes for them, although the documented size is 256. -/
theorem straddling_accepted :
    (straddlingCache.shape.withTokens 1).expectedBlobBytes .release
      = (.ok 128 : Outcome Error Nat) ∧
    straddlingCache.shape.expectedBlobBytes .release = (.ok 264 : Outcome Error Nat) ∧
    readKvCache castagnoli .release
        (Stream.ofBytes (straddlingCache.container.image castagnoli kvSectionIds))
      = .ok straddlingCache ∧
    straddlingCache.kvBlob.length = 264 ∧
    straddlingCache.shape.documentedBytes ⟨128, 8⟩ = 256 := by
  have hsize : straddlingCache.shape.expectedBlobBytes .release = (.ok 264 : Outcome Error Nat) :=
    rfl
  refine ⟨rfl, hsize, ?_, length_straddlingCache, rfl⟩
  rw [readKvCache_container castagnoli .release straddlingCache (by decide) straddlingCache_fits
    (Stream.ofBytes (straddlingCache.container.image castagnoli kvSectionIds))
    (Stream.benign_ofBytes _) rfl, hsize, Outcome.ok_bind,
    failIf_of_not _ _ (not_not.mpr length_straddlingCache), Outcome.ok_bind]

end SkegHull
